import Stencil.File.Tree
import Stencil.Loader
import Stencil.Proofs.Bind

namespace Stencil

namespace Path

theorem names_of_not_mem {name : String} (h : '/' ∉ name.toList) : names name = [name] := by
  rw [names, Text.splitOn_of_not_mem h, List.map_singleton, String.ofList_toList]

theorem names_append {front : String} (h : '/' ∉ front.toList) (rest : String) :
    names (front ++ "/" ++ rest) = front :: names rest := by
  have hslash : (front ++ "/" ++ rest).toList = front.toList ++ '/' :: rest.toList := by simp
  rw [names, hslash, Text.splitOn_append h, List.map_cons, String.ofList_toList, names]

example : names "a/../b" = ["a", "..", "b"] := by decide

theorem staysInside_iff {path : String} :
    staysInside path ↔ ¬isAbsolute path ∧ ".." ∉ names path := by
  simp [staysInside]

end Path

namespace Loader

variable {files : Files} {options : ParserOptions} {directories : List String} {name path : String}

/-- The path is a file, and when all links are followed it is found below the directory. -/
def LiesIn (files : Files) (directory path : String) : Prop :=
  files.isFile path ∧
    ∃ root place, files.resolve directory = .ok root ∧ files.resolve path = .ok place ∧ root <+: place

theorem liesIn_iff {directory : String} :
    LiesIn files directory path ↔ (files.isFile path && isWithin files directory path) = true := by
  rw [LiesIn, isWithin, Bool.and_eq_true]
  cases files.resolve directory with
  | error e => simp
  | ok root =>
      cases files.resolve path with
      | error e => simp
      | ok place => simp

/-- The path that a name stands for: the name comes before the name with the extension, both in the first of
the directories and then, if neither lies in it, in the others. -/
inductive Decides (files : Files) (name : String) : List String → String → Prop
  | plain {d : String} {rest : List String} (h : LiesIn files d (Path.join d name)) :
      Decides files name (d :: rest) (Path.join d name)
  | extended {d : String} {rest : List String} (hn : ¬LiesIn files d (Path.join d name))
      (h : LiesIn files d (Path.join d (name ++ ".liquid"))) :
      Decides files name (d :: rest) (Path.join d (name ++ ".liquid"))
  | later {d : String} {rest : List String} {path : String} (hn : ¬LiesIn files d (Path.join d name))
      (hn' : ¬LiesIn files d (Path.join d (name ++ ".liquid"))) (h : Decides files name rest path) :
      Decides files name (d :: rest) path

theorem Decides.liesIn (h : Decides files name directories path) : ∃ d ∈ directories, LiesIn files d path := by
  induction h with
  | plain h => exact ⟨_, List.mem_cons_self, h⟩
  | extended _ h => exact ⟨_, List.mem_cons_self, h⟩
  | later _ _ _ ih =>
      obtain ⟨d, hd, h⟩ := ih
      exact ⟨d, List.mem_cons_of_mem _ hd, h⟩

theorem find?_candidates :
    ((candidates directories name).find? fun (d, p) => files.isFile p && isWithin files d p).map Prod.snd =
      some path ↔ Decides files name directories path := by
  induction directories with
  | nil => exact ⟨nofun, nofun⟩
  | cons d rest ih =>
      have hcons : candidates (d :: rest) name =
          (d, Path.join d name) :: (d, Path.join d (name ++ ".liquid")) :: candidates rest name := rfl
      by_cases hplain : LiesIn files d (Path.join d name)
      · simp only [hcons, List.find?_cons, liesIn_iff.1 hplain, Option.map_some, Option.some.injEq]
        constructor
        · rintro rfl
          exact .plain hplain
        · rintro (_ | ⟨hn, _⟩ | ⟨hn, _, _⟩)
          · rfl
          · exact (hn hplain).elim
          · exact (hn hplain).elim
      have hplain' := Bool.eq_false_iff.2 (mt liesIn_iff.2 hplain)
      by_cases hextended : LiesIn files d (Path.join d (name ++ ".liquid"))
      · simp only [hcons, List.find?_cons, hplain', liesIn_iff.1 hextended, Option.map_some, Option.some.injEq]
        constructor
        · rintro rfl
          exact .extended hplain hextended
        · rintro (h | _ | ⟨_, hn, _⟩)
          · exact (hplain h).elim
          · rfl
          · exact (hn hextended).elim
      have hextended' := Bool.eq_false_iff.2 (mt liesIn_iff.2 hextended)
      simp only [hcons, List.find?_cons, hplain', hextended']
      refine ih.trans ⟨.later hplain hextended, ?_⟩
      rintro (h | ⟨_, h⟩ | ⟨_, _, h⟩)
      · exact (hplain h).elim
      · exact (hextended h).elim
      · exact h

theorem load_of_decides (hname : Path.staysInside name) (h : Decides files name directories path) :
    (ofDirectories options files directories).load name = Template.ofFile options files path := by
  obtain ⟨⟨d, p⟩, hfound, rfl⟩ := Option.map_eq_some_iff.1 (find?_candidates.2 h)
  simp only [ofDirectories, hname, hfound]
  rfl

theorem load_of_not_decides (hname : Path.staysInside name) (h : ∀ path, ¬Decides files name directories path) :
    (ofDirectories options files directories).load name =
      .error (.missingTemplate (.notInDirectories name directories)) := by
  have hnone : (candidates directories name).find? (fun (d, p) => files.isFile p && isWithin files d p) = none := by
    cases hfound : (candidates directories name).find? fun (d, p) => files.isFile p && isWithin files d p with
    | none => rfl
    | some found => exact (h found.2 (find?_candidates.1 (by rw [hfound]; rfl))).elim
  simp only [ofDirectories, hname, hnone]
  rfl

theorem load_outside (hname : ¬Path.staysInside name) :
    (ofDirectories options files directories).load name =
      .error (.missingTemplate (.outsideDirectories name)) := by
  simp [ofDirectories, hname]

/-- What is loaded was parsed from a file that lies in one of the directories. -/
theorem of_load_ok {t : Template} (h : (ofDirectories options files directories).load name = .ok t) :
    ∃ d ∈ directories, ∃ path text, LiesIn files d path ∧ files.read path = .ok text ∧
      Template.parse options (some path) text = .ok t := by
  by_cases hname : Path.staysInside name
  · by_cases hfound : ∃ path, Decides files name directories path
    · obtain ⟨path, hp⟩ := hfound
      obtain ⟨d, hd, hin⟩ := hp.liesIn
      rw [load_of_decides hname hp] at h
      obtain ⟨text, hread, hparse⟩ := Except.of_bind_ok h
      exact ⟨d, hd, path, text, hin, Except.mapError_eq_ok_iff.1 hread, Except.mapError_eq_ok_iff.1 hparse⟩
    · rw [load_of_not_decides hname fun path hp => hfound ⟨path, hp⟩] at h
      cases h
  · rw [load_outside hname] at h
    cases h

/-- A loader for directories gives what the first candidate that lies in its directory holds: its template, or
why it cannot be read or parsed, and no other candidate is tried. A name that starts at the root or has a step
upwards is missing, and so is one without such a candidate. What is loaded comes from a file in a directory. -/
theorem load_ofDirectories (options : ParserOptions) (files : Files) (directories : List String) (name : String) :
    (¬Path.isAbsolute name → ".." ∉ Path.names name → ∀ path, Decides files name directories path →
      (∀ fault, files.read path = .error fault →
        (ofDirectories options files directories).load name = .error (.file fault)) ∧
      ∀ text, files.read path = .ok text →
        (∀ e, Template.parse options (some path) text = .error e →
          (ofDirectories options files directories).load name = .error (.syntaxError e)) ∧
        ∀ t, Template.parse options (some path) text = .ok t →
          (ofDirectories options files directories).load name = .ok t) ∧
    (Path.isAbsolute name ∨ ".." ∈ Path.names name ∨ (∀ path, ¬Decides files name directories path) →
      ∃ fault, (ofDirectories options files directories).load name = .error (.missingTemplate fault)) ∧
    ∀ t, (ofDirectories options files directories).load name = .ok t →
      ∃ d ∈ directories, ∃ path text, LiesIn files d path ∧ files.read path = .ok text ∧
        Template.parse options (some path) text = .ok t := by
  refine ⟨?_, ?_, fun t => of_load_ok⟩
  · intro hroot hup path hp
    rw [load_of_decides (Path.staysInside_iff.2 ⟨hroot, hup⟩) hp, Template.ofFile]
    refine ⟨fun fault hread => ?_, fun text hread => ⟨fun e he => ?_, fun t ht => ?_⟩⟩
    · rw [hread]
      rfl
    · rw [hread]
      exact congrArg (Except.mapError Failure.syntaxError) he
    · rw [hread]
      exact congrArg (Except.mapError Failure.syntaxError) ht
  · intro h
    by_cases hname : Path.staysInside name
    · obtain ⟨hroot, hup⟩ := Path.staysInside_iff.1 hname
      rcases h with h | h | h
      · exact (hroot h).elim
      · exact (hup h).elim
      · exact ⟨_, load_of_not_decides hname h⟩
    · exact ⟨_, load_outside hname⟩

def linkedFiles : Files :=
  .ofFacts [("pages", ⟨false, .ok ["srv", "pages"], .error .isADirectory⟩),
    ("pages/intro", ⟨true, .ok ["etc", "intro"], .ok "a"⟩),
    ("pages/intro.liquid", ⟨true, .ok ["srv", "pages", "intro.liquid"], .error .notText⟩)]

theorem load_ofDirectories_linked :
    (ofDirectories .plain linkedFiles ["pages"]).load "intro" = .error (.file .notText) := by
  have hout : ¬LiesIn linkedFiles "pages" (Path.join "pages" "intro") := by
    rw [liesIn_iff]
    decide
  have hin : LiesIn linkedFiles "pages" (Path.join "pages" ("intro" ++ ".liquid")) := by
    rw [liesIn_iff]
    decide
  exact ((load_ofDirectories .plain linkedFiles ["pages"] "intro").1 (by decide) (by decide) _
    (.extended hout hin)).1 _ rfl

theorem place_of_load {tree : FileTree} {t : Template}
    (h : (ofDirectories options tree.files directories).load name = .ok t) :
    ∃ d ∈ directories, ∃ root place path text, tree.locate d = .ok root ∧ root <+: place ∧
      tree.entry? place = some (.file (some text)) ∧ Template.parse options (some path) text = .ok t := by
  obtain ⟨d, hd, path, text, ⟨-, root, place, hroot, hplace, hbelow⟩, hread, hparse⟩ := of_load_ok h
  refine ⟨d, hd, root, place, path, text, hroot, hbelow, ?_, hparse⟩
  obtain ⟨found, hfound, htext⟩ := Except.of_bind_ok hread
  obtain rfl : found = place := Except.ok.inj (hfound.symm.trans hplace)
  split at htext
  next heq => rw [heq, Except.ok.inj htext]
  all_goals cases htext

end Loader

end Stencil

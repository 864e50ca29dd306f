import Stencil.Proofs.Node.LineEnds
import Stencil.Proofs.Node.Runs
import Stencil.Proofs.Node.Shifted

namespace Stencil

namespace Region

inductive Meet : List Region → List Region → List Region → Prop
  | apart {regions regions' : List Region} : Meet regions regions' (regions ++ regions')
  | text {before after : List Region} {o o' : Nat} {cs ds : List Char} :
      Meet (before ++ [.text o cs]) (.text o' ds :: after) (before ++ .text o (cs ++ ds) :: after)

variable {o : Nat} {a b : Char} {cs ds run body rest : List Char} {regions regions' all : List Region}

theorem Meet.cons (r : Region) (h : Meet regions regions' all) : Meet (r :: regions) regions' (r :: all) := by
  cases h with
  | apart => exact @apart (r :: regions) regions'
  | @text before after o o' cs ds => exact @text (r :: before) after o o' cs ds

theorem splitAtMark_before (h : splitAtMark a b cs = some (body, rest)) (ds : List Char) :
    splitAtMark a b (cs ++ ds) = some (body, rest ++ ds) := by
  obtain ⟨rfl, hmark⟩ := splitAtMark_spec h
  rw [List.append_assoc]
  exact splitAtMark_eq hmark (rest ++ ds)

theorem meet_run (hne : run ≠ []) (hrun : ∀ x ∈ run, x ≠ '\x7b') (o : Nat) (ds : List Char) :
    Meet [.text o run] (scan false (o + Text.byteLength run) ds) (scan false o (run ++ ds)) := by
  obtain ⟨more, rest, rfl, hmore, hrest⟩ : ∃ more rest, ds = more ++ rest ∧ (∀ x ∈ more, x ≠ '\x7b') ∧
      ∀ x ∈ rest.head?, x = '\x7b' :=
    ⟨_, _, List.takeWhile_append_dropWhile.symm, fun x hx => by simpa using List.mem_takeWhile_imp hx,
      head?_dropWhile_brace ds⟩
  by_cases hempty : more = []
  · subst hempty
    rw [List.nil_append, scan_run_append hne hrun hrest]
    split
    next hlast =>
      subst hlast
      rw [scan_brace_nil]
      exact @Meet.text [] [] ..
    next => exact @Meet.apart [_] _
  · have hboth : ∀ x ∈ run ++ more, x ≠ '\x7b' := List.forall_mem_append.2 ⟨hrun, hmore⟩
    rw [← List.append_assoc, scan_run_append (List.append_ne_nil_of_left_ne_nil hne more) hboth hrest,
      scan_run_append hempty hmore hrest]
    split
    next =>
      rw [List.append_assoc]
      exact @Meet.text [] [] ..
    next =>
      rw [Text.byteLength_append, Nat.add_assoc]
      exact @Meet.text [] _ ..

theorem suffix_of_splitAtMark (h : splitAtMark a b cs = some (body, rest)) : rest <:+ cs := by
  obtain ⟨rfl, -⟩ := splitAtMark_spec h
  exact ⟨body ++ [a, b], by simp⟩

theorem byteLength_of_splitAtMark {c d : Char} (h : splitAtMark a b cs = some (body, rest)) (ha : a.utf8Size = 1)
    (hb : b.utf8Size = 1) (hc : c.utf8Size = 1) (hd : d.utf8Size = 1) :
    Text.byteLength (c :: d :: cs) = 4 + Text.byteLength body + Text.byteLength rest := by
  obtain ⟨rfl, -⟩ := splitAtMark_spec h
  simp only [Text.byteLength_append, Text.byteLength, ha, hb, hc, hd]
  omega

/-- The regions of a source stay what they are whatever follows. -/
theorem meet_scan (h : ∀ r ∈ scan false o cs, r.Closed) (hend : ¬['\x7b'] <:+ cs) (ds : List Char) :
    Meet (scan false o cs) (scan false (o + Text.byteLength cs) ds) (scan false o (cs ++ ds)) := by
  fun_induction scan false o cs with
  | case1 => exact @Meet.apart [] _
  | case2 => exact (h _ (List.mem_singleton_self _)).elim
  | case3 o cs body rest hsplit _ ih =>
      have hrest := (suffix_of_splitAtMark hsplit).trans (List.suffix_append ['\x7b', '\x7b'] cs)
      have hmeet := ih (List.forall_mem_cons.1 h).2 fun hs => hend (hs.trans hrest)
      rw [List.cons_append, List.cons_append, scan_output (splitAtMark_before hsplit ds),
        byteLength_of_splitAtMark hsplit rfl rfl rfl rfl]
      simp only [← Nat.add_assoc]
      exact hmeet.cons _
  | case4 => exact (h _ (List.mem_singleton_self _)).elim
  | case5 o cs body rest hsplit _ _ next ih =>
      have hnext : next = rest := afterTag_false rest
      have hrest := (suffix_of_splitAtMark hsplit).trans (List.suffix_append ['\x7b', '%'] cs)
      have hmeet := ih (List.forall_mem_cons.1 h).2
      rw [hnext, Nat.sub_self, Nat.add_zero] at hmeet ⊢
      rw [List.cons_append, List.cons_append, scan_tag (splitAtMark_before hsplit ds), afterTag_false, Nat.sub_self,
        Nat.add_zero, byteLength_of_splitAtMark hsplit rfl rfl rfl rfl]
      simp only [← Nat.add_assoc]
      exact (hmeet fun hs => hend (hs.trans hrest)).cons _
  | case6 o c cs hbrace hpercent ih =>
      have hrest := List.suffix_append ['\x7b'] (c :: cs)
      have hmeet := ih (List.forall_mem_cons.1 h).2 fun hs => hend (hs.trans hrest)
      rw [Nat.add_assoc] at hmeet
      rw [List.cons_append, List.cons_append, scan_brace hbrace hpercent]
      exact hmeet.cons _
  | case7 o c cs h₁ h₂ h₃ rest _ hrest =>
      have hcs : c :: cs = (c :: cs.takeWhile (· ≠ '\x7b')) ++ ['\x7b'] := by
        rw [← hrest]
        exact (run_append_rest c cs).symm
      rw [hcs] at hend
      exact (hend (List.suffix_append _ _)).elim
  | case8 o c cs h₁ h₂ h₃ run rest _ hrest ih =>
      have hcs : c :: cs = run ++ rest := (run_append_rest c cs).symm
      rw [hcs] at hend ⊢
      have hc : c ≠ '\x7b' := by
        rintro rfl
        cases cs with
        | nil => exact hend List.suffix_rfl
        | cons d cs => exact h₃ d cs rfl rfl
      have hrun : ∀ x ∈ run, x ≠ '\x7b' := ne_brace_of_run hc
      by_cases hempty : rest = []
      · rw [hempty, scan, List.append_nil]
        exact meet_run (List.cons_ne_nil _ _) hrun o ds
      · have hmeet := ih (List.forall_mem_cons.1 h).2 fun hs => hend (hs.trans (List.suffix_append run rest))
        have hfirst : ∀ x ∈ (rest ++ ds).head?, x = '\x7b' := by
          rw [List.head?_append_of_ne_nil _ hempty]
          exact head?_dropWhile_brace cs
        have hbrace : rest ++ ds ≠ ['\x7b'] := fun he =>
          (List.append_eq_singleton_iff.1 he).elim (fun hr => hempty hr.1) fun hr => hrest hr.1
        rw [List.append_assoc, scan_run_append (List.cons_ne_nil _ _) hrun hfirst, if_neg hbrace,
          Text.byteLength_append, ← Nat.add_assoc]
        exact hmeet.cons _

end Region

namespace Node

theorem joinAll_texts (s u : String) (k l : Nat) (ns : List Node) :
    joinAll (text s k :: text u l :: ns) = joinAll (text (s ++ u) k :: ns) := by
  rw [joinAll, joinAll, joinAll]
  cases joinAll ns with
  | nil => rfl
  | cons m rest =>
      cases m with
      | text v j => exact congrArg (text · k :: rest) (@String.append_assoc s u v).symm
      | output | assign | capture | loop | branch | embed | signal | comment | newline => rfl

theorem joinAll_append_congr {ns ms : List Node} (h : joinAll ns = joinAll ms) (front : List Node) :
    joinAll (front ++ ns) = joinAll (front ++ ms) := by
  induction front with
  | nil => exact h
  | cons n front ih => exact congrArg (prepend n.joined) ih

end Node

theorem Derives.of_place_last {is : List Instruction} {n : Node} {ns : List Node} (hf : ∀ i ∈ is, i.Fresh)
    (h : Derives (is ++ [.place n]) ns) : ∃ before, ns = before ++ [n] ∧ Derives is before := by
  have hlast : ∀ i ∈ [Instruction.place n], i.Fresh := List.forall_mem_singleton.2 trivial
  rw [← run_empty_iff (List.forall_mem_append.2 ⟨hf, hlast⟩), List.foldlM_append] at h
  obtain ⟨⟨levels, before⟩, hrun, hplace⟩ := Except.of_bind_ok h
  have hplaced : Draft.place ⟨levels, before⟩ n = ⟨[], ns⟩ := Except.ok.inj hplace
  cases levels with
  | nil => exact ⟨before, (Draft.mk.inj hplaced).2.symm, (run_empty_iff hf).1 hrun⟩
  | cons l levels => cases hplaced

/-- Where regions meet, the nodes stand one behind the other, but for the texts at the joint. -/
theorem Region.Meet.exists_derives {regions regions' all : List Region} {is js : List Instruction}
    {ns ms : List Node} (h : Meet regions regions' all) (his : regions.mapM Instruction.ofRegion = .ok is)
    (hjs : regions'.mapM Instruction.ofRegion = .ok js) (hns : Derives is ns) (hms : Derives js ms) :
    ∃ ks us, all.mapM Instruction.ofRegion = .ok ks ∧ Derives ks us ∧
      Node.joinAll us = Node.joinAll (ns ++ ms) := by
  cases h with
  | apart =>
      refine ⟨is ++ js, ns ++ ms, ?_, hns.append hms, rfl⟩
      rw [List.mapM_append, his, hjs]
      rfl
  | @text before after o o' cs ds =>
      obtain ⟨_, js, htext, hafter, rfl⟩ := Except.of_mapM_cons hjs
      obtain rfl := Except.ok.inj htext
      rw [List.mapM_append] at his
      obtain ⟨is, hbefore, his⟩ := Except.of_bind_ok his
      obtain rfl := Except.ok.inj his
      obtain ⟨front, rfl, hfront⟩ := hns.of_place_last (map_mark_eq hbefore).2
      cases hms with
      | @place _ _ back hback =>
          have hjoint : Derives (.place (.text (String.ofList (cs ++ ds)) o) :: js) (.text _ o :: back) :=
            .place hback
          refine ⟨_, _, ?_, hfront.append hjoint, ?_⟩
          · rw [List.mapM_append, List.mapM_cons, hbefore, hafter]
            rfl
          · rw [List.append_assoc, String.ofList_append]
            exact Node.joinAll_append_congr (Node.joinAll_texts ..).symm front

/-- A source that does not end in a brace, with another one behind it. Its regions, the tokens in them and its nodes
are those of the two sources, those of the second further on by the bytes of the first. Only a text at the joint may
have become one text, so that nodes are compared with each run of texts as one. -/
theorem parseNodes_append {front back : String} {ns ms : List Node} (hfront : parseNodes false front = .ok ns)
    (hback : parseNodes false back = .ok ms) (hend : ¬['\x7b'] <:+ front.toList) :
    let n := Text.byteLength front.toList
    Region.Meet (Region.scan false 0 front.toList) ((Region.scan false 0 back.toList).map (Region.shifted n))
        (Region.scan false 0 (front ++ back).toList) ∧
      (∀ o cs ts, Token.scan o cs = .ok ts → Token.scan (o + n) cs = .ok (ts.map (Token.shifted n))) ∧
        ∃ us, parseNodes false (front ++ back) = .ok us ∧
          Node.joinAll us = Node.joinAll (ns ++ Node.shiftedAll n ms) := by
  intro n
  obtain ⟨is, his, hns⟩ := exists_derives_of_parseNodes hfront
  obtain ⟨js, hjs, hms⟩ := exists_derives_of_parseNodes hback
  have hmeet := Region.meet_scan (Region.closed_of_mapM his) hend back.toList
  rw [Region.scan_shifted, ← String.toList_append] at hmeet
  obtain ⟨ks, us, hks, hus, hjoined⟩ :=
    hmeet.exists_derives his (Region.mapM_ofRegion_shifted hjs n) hns (hms.shifted n)
  exact ⟨hmeet, fun o cs ts hts => Token.scan_shifted hts n, us, parseNodes_of_derives hks hus, hjoined⟩

def frontSource : String :=
  "é\x7b% if a %\x7d\x7b \x7b% endif %\x7d c"

def backSource : String :=
  "d \x7b\x7b x[0] \x7d\x7d\x7b% include 'p' with k = y %\x7d\x7b"

theorem parseNodes_append_braced :
    parseNodes false frontSource = .ok [.text "é" 0,
        .branch [(.variable "a" 8, [.text "\x7b" 12, .text " " 13])] 5, .text " c" 25] ∧
      parseNodes false backSource = .ok [.text "d " 0, .output (.index (.variable "x" 5) (.literal (.int 0) 7) 6),
          .embed "p" [("k", .variable "y" 36)] 15, .text "\x7b" 40] ∧
        ¬['\x7b'] <:+ frontSource.toList ∧
          ∃ us, parseNodes false (frontSource ++ backSource) = .ok us ∧ Node.joinAll us = [.text "é" 0,
            .branch [(.variable "a" 8, [.text "\x7b " 12])] 5, .text " cd " 25,
            .output (.index (.variable "x" 32) (.literal (.int 0) 34) 33),
            .embed "p" [("k", .variable "y" 63)] 42, .text "\x7b" 67] := by
  have hfront : parseNodes false frontSource = .ok [.text "é" 0,
      .branch [(.variable "a" 8, [.text "\x7b" 12, .text " " 13])] 5, .text " c" 25] := by cbv
  have hback : parseNodes false backSource = .ok [.text "d " 0,
      .output (.index (.variable "x" 5) (.literal (.int 0) 7) 6),
      .embed "p" [("k", .variable "y" 36)] 15, .text "\x7b" 40] := by cbv
  have hend : ¬['\x7b'] <:+ frontSource.toList := by decide
  obtain ⟨-, -, us, hus, hjoined⟩ := parseNodes_append hfront hback hend
  refine ⟨hfront, hback, hend, us, hus, hjoined.trans ?_⟩
  cbv

end Stencil

import Stencil.Command.Run
import Stencil.Command.Render
import Stencil.Proofs.Bind
import Stencil.Proofs.Node.Options

namespace Stencil

namespace Template

variable {files : Files} {path text : String} {o : ParserOptions}

def Opens (files : Files) (path : String) : Prop :=
  ∃ text t, files.read path = .ok text ∧ parse .plain (some path) text = .ok t

theorem parse_eq_error_iff {e : ParseError} :
    parse o (some path) text = .error e ↔ parse .plain (some path) text = .error e := by
  obtain ⟨f, hf⟩ := parse_eq_map o (some path) text
  rw [hf, Except.map_eq_error_iff]

theorem exists_parse_iff :
    (∃ t, parse o (some path) text = .ok t) ↔ ∃ t, parse .plain (some path) text = .ok t := by
  obtain ⟨f, hf⟩ := parse_eq_map o (some path) text
  rw [hf]
  constructor
  · rintro ⟨t, ht⟩
    obtain ⟨u, hu, -⟩ := Except.of_map_ok ht
    exact ⟨u, hu⟩
  · rintro ⟨u, hu⟩
    exact ⟨f u, by rw [hu]; rfl⟩

theorem ofFile_of_read (h : files.read path = .ok text) :
    ofFile o files path = (parse o (some path) text).mapError .syntaxError := by
  rw [ofFile, h]
  rfl

theorem ofFile_of_unreadable {fault : FileFault} (h : files.read path = .error fault) :
    ofFile o files path = .error (.file fault) := by
  rw [ofFile, h]
  rfl

theorem opens_iff (o : ParserOptions) : (∃ t, ofFile o files path = .ok t) ↔ Opens files path := by
  cases hread : files.read path with
  | error fault =>
      rw [ofFile_of_unreadable hread]
      refine ⟨nofun, ?_⟩
      rintro ⟨text, _, htext, -⟩
      cases hread.symm.trans htext
  | ok text =>
      rw [ofFile_of_read hread]
      simp only [Except.mapError_eq_ok_iff, exists_parse_iff (o := o)]
      constructor
      · rintro ⟨t, ht⟩
        exact ⟨text, t, hread, ht⟩
      · rintro ⟨text', t, htext, ht⟩
        obtain rfl : text = text' := Except.ok.inj (hread.symm.trans htext)
        exact ⟨t, ht⟩

end Template

namespace CheckMessage

variable {files : Files} {path : String} {o : ParserOptions} {m : CheckMessage}

inductive Reports (files : Files) (path : String) : CheckMessage → Prop
  | unreadable {fault : FileFault} (h : files.read path = .error fault) :
      Reports files path ⟨path, path ++ ": " ++ fault.message⟩
  | malformed {text : String} {e : ParseError} (h : files.read path = .ok text)
      (he : Template.parse .plain (some path) text = .error e) : Reports files path ⟨path, e.text⟩

/-- One message for each path that does not open, in the order of the paths. -/
inductive Reported (files : Files) : List String → List CheckMessage → Prop
  | nil : Reported files [] []
  | sound {path : String} {rest : List String} {ms : List CheckMessage} (h : Template.Opens files path)
      (hr : Reported files rest ms) : Reported files (path :: rest) ms
  | faulty {path : String} {rest : List String} {m : CheckMessage} {ms : List CheckMessage}
      (h : Reports files path m) (hr : Reported files rest ms) : Reported files (path :: rest) (m :: ms)

theorem of?_cases (o : ParserOptions) (files : Files) (path : String) :
    (of? o files path = none ∧ Template.Opens files path) ∨
      ∃ m, of? o files path = some m ∧ Reports files path m ∧ ¬Template.Opens files path := by
  rw [of?, ← Template.opens_iff o]
  cases hread : files.read path with
  | error fault =>
      rw [Template.ofFile_of_unreadable hread]
      exact .inr ⟨_, rfl, .unreadable hread, nofun⟩
  | ok text =>
      rw [Template.ofFile_of_read hread]
      dsimp only
      cases hparse : Template.parse o (some path) text with
      | error e => exact .inr ⟨_, rfl, .malformed hread (Template.parse_eq_error_iff.1 hparse), nofun⟩
      | ok t => exact .inl ⟨rfl, t, rfl⟩

theorem path_of_reports (h : Reports files path m) : m.path = path := by
  cases h <;> rfl

theorem of?_of_mem {paths : List String} (h : m ∈ all o files paths) : of? o files m.path = some m := by
  obtain ⟨path, -, hp⟩ := List.mem_filterMap.1 h
  rcases of?_cases o files path with ⟨hnone, -⟩ | ⟨m', hsome, hreports, -⟩
  · cases hnone.symm.trans hp
  · obtain rfl : m' = m := Option.some.inj (hsome.symm.trans hp)
    rw [path_of_reports hreports]
    exact hp

theorem no_message_iff {paths : List String} (hpath : path ∈ paths) :
    (∀ m ∈ all o files paths, m.path ≠ path) ↔ Template.Opens files path := by
  rcases of?_cases o files path with ⟨hnone, hopens⟩ | ⟨m, hsome, hreports, hcloses⟩
  · refine iff_of_true (fun m hm hmp => ?_) hopens
    cases hnone.symm.trans (hmp ▸ of?_of_mem hm)
  · refine iff_of_false (fun h => ?_) hcloses
    exact h m (List.mem_filterMap.2 ⟨path, hpath, hsome⟩) (path_of_reports hreports)

theorem text_of_mem {paths : List String} {text : String} {e : ParseError} (h : m ∈ all o files paths)
    (hread : files.read m.path = .ok text) (he : Template.parse .plain (some m.path) text = .error e) :
    m.text = e.text := by
  have hsome := of?_of_mem h
  rw [of?, hread] at hsome
  dsimp only at hsome
  rw [Template.parse_eq_error_iff.2 he] at hsome
  rw [← Option.some.inj hsome]

theorem reported_all (o : ParserOptions) (files : Files) (paths : List String) :
    Reported files paths (all o files paths) := by
  induction paths with
  | nil => exact .nil
  | cons path rest ih =>
      rw [all, List.filterMap_cons]
      rcases of?_cases o files path with ⟨hnone, hopens⟩ | ⟨m, hsome, hm, -⟩
      · rw [hnone]
        exact .sound hopens ih
      · rw [hsome]
        exact .faulty hm ih

end CheckMessage

namespace RenderRequest

def opened (r : RenderRequest) (files : Files) (s : Settings) : Except Failure Template :=
  Template.ofFile (r.settings s).parserOptions files r.template

def data (r : RenderRequest) (complain : Complaint) (files : Files) : Except Failure (Dict Value) :=
  match r.data? with
  | some path => loadData complain files path
  | none => .ok []

def rendered (r : RenderRequest) (files : Files) (s : Settings) (t : Template) (data : Dict Value) :
    Except Failure String :=
  let (output, renderer) := ((Renderer.new .standard).configure files (r.settings s)).render t data
  match renderer.errors with
  | e :: _ => if r.isStrict then .error (.evaluation e) else .ok output
  | [] => .ok output

def finish (r : RenderRequest) (complain : Complaint) (files : Files) (s : Settings) (t : Template) :
    Except Failure String :=
  r.data complain files >>= r.rendered files s t

variable (complain : Complaint)

theorem run_eq (r : RenderRequest) (files : Files) (s : Settings) :
    r.run complain files s = r.opened files s >>= r.finish complain files s := by
  rw [run]
  refine bind_congr fun t => ?_
  rw [finish, data]
  cases r.data? <;> rfl

theorem loadData_ne_syntaxError (files : Files) (path : String) (e : ParseError) :
    loadData complain files path ≠ .error (.syntaxError e) := by
  intro h
  rcases Except.of_bind_error h with hread | ⟨text, -, h⟩
  · cases hr : files.read path <;> rw [hr] at hread <;> cases hread
  · split at h
    next j _ =>
      rw [Value.objectOfJson] at h
      split at h <;> cases h
    next => cases h

theorem finish_ne_syntaxError (r : RenderRequest) (files : Files) (s : Settings) (t : Template) (e : ParseError) :
    r.finish complain files s t ≠ .error (.syntaxError e) := by
  intro h
  rcases Except.of_bind_error h with h | ⟨data, -, h⟩
  · rw [data] at h
    split at h
    next path _ => exact loadData_ne_syntaxError complain files path e h
    next => cases h
  · rw [rendered] at h
    dsimp only at h
    split at h
    next =>
      split at h <;> cases h
    next => cases h

theorem run_syntaxError_iff {r : RenderRequest} {files : Files} {s : Settings} {e : ParseError} :
    r.run complain files s = .error (.syntaxError e) ↔ r.opened files s = .error (.syntaxError e) := by
  rw [run_eq]
  constructor
  · intro h
    rcases Except.of_bind_error h with h | ⟨t, -, h⟩
    · exact h
    · exact (r.finish_ne_syntaxError complain files s t e h).elim
  · intro h
    rw [h]
    rfl

theorem run_of_unreadable (r : RenderRequest) {files : Files} {s : Settings} {fault : FileFault}
    (h : files.read r.template = .error fault) : r.run complain files s = .error (.file fault) := by
  rw [run_eq, opened, Template.ofFile_of_unreadable h]
  rfl

theorem run_of_malformed (r : RenderRequest) {files : Files} {s : Settings} {text : String}
    (hread : files.read r.template = .ok text) (h : ∀ t, r.opened files s ≠ .ok t) :
    ∃ e, Template.parse .plain (some r.template) text = .error e ∧
      r.run complain files s = .error (.syntaxError e) := by
  cases hparse : Template.parse (r.settings s).parserOptions (some r.template) text with
  | ok t =>
      refine (h t ?_).elim
      rw [opened, Template.ofFile_of_read hread, hparse]
      rfl
  | error e =>
      refine ⟨e, Template.parse_eq_error_iff.1 hparse, (run_syntaxError_iff complain).2 ?_⟩
      rw [opened, Template.ofFile_of_read hread, hparse]
      rfl

end RenderRequest

namespace CheckMessage

/-- Checking says exactly one thing about each path that does not open, in the order of the paths. Those are the
paths that a request for a render does not get past, whatever it and the settings say besides: it fails where the
file cannot be read, and where it is no template with the error of syntax that the message shows. -/
theorem all_reported (o : ParserOptions) (complain : Complaint) (files : Files) (paths : List String) :
    Reported files paths (all o files paths) ∧
    ∀ path ∈ paths, ∀ r : RenderRequest, r.template = path → ∀ s,
      r.run complain files s = r.opened files s >>= r.finish complain files s ∧
      ((∀ m ∈ all o files paths, m.path ≠ path) ↔ ∃ t, r.opened files s = .ok t) ∧
      (∀ fault, files.read path = .error fault → r.run complain files s = .error (.file fault)) ∧
      ∀ text, files.read path = .ok text → (∀ t, r.opened files s ≠ .ok t) →
        ∃ e, r.run complain files s = .error (.syntaxError e) ∧
          ∀ m ∈ all o files paths, m.path = path → m.text = e.text := by
  refine ⟨reported_all o files paths, ?_⟩
  rintro path hpath r rfl s
  refine ⟨r.run_eq complain files s, ?_, fun fault => r.run_of_unreadable complain, fun text hread hcloses => ?_⟩
  · rw [RenderRequest.opened, Template.opens_iff]
    exact no_message_iff hpath
  · obtain ⟨e, he, hrun⟩ := r.run_of_malformed complain hread hcloses
    exact ⟨e, hrun, fun m hm hmp => text_of_mem hm (hmp ▸ hread) (hmp ▸ he)⟩

def tornFiles : Files :=
  .ofFacts [("good.html", ⟨true, .ok ["good.html"], .ok "a"⟩), ("torn.html", ⟨true, .ok ["torn.html"], .ok "a\x7b%"⟩)]

def strictRequest (template : String) : RenderRequest :=
  ⟨template, none, [], true, true⟩

theorem all_reported_torn :
    let complain : Complaint := fun _ text => text
    let messages := all .plain tornFiles ["gone.html", "good.html", "torn.html"]
    (∀ m ∈ messages, m.path ≠ "good.html") ∧
      (strictRequest "gone.html").run complain tornFiles .standard = .error (.file .notFound) ∧
        ∃ e, (strictRequest "torn.html").run complain tornFiles .standard = .error (.syntaxError e) ∧
          ∀ m ∈ messages, m.path = "torn.html" → m.text = e.text := by
  intro complain messages
  have hall := (all_reported .plain complain tornFiles ["gone.html", "good.html", "torn.html"]).2
  refine ⟨(hall "good.html" (by decide) (strictRequest _) rfl .standard).2.1.2 ?_,
    (hall "gone.html" (by decide) (strictRequest _) rfl .standard).2.2.1 _ rfl,
    (hall "torn.html" (by decide) (strictRequest _) rfl .standard).2.2.2 _ rfl fun t ht => ?_⟩
  · have hgood : ((strictRequest "good.html").opened tornFiles .standard).isOk = true := by cbv
    cases ho : (strictRequest "good.html").opened tornFiles .standard with
    | ok t => exact ⟨t, rfl⟩
    | error e =>
        rw [ho] at hgood
        cases hgood
  · have htorn : ((strictRequest "torn.html").opened tornFiles .standard).isOk = false := by cbv
    rw [ht] at htorn
    cases htorn

end CheckMessage

end Stencil

import Mathlib.Data.List.Forall2
import Stencil.Proofs.Render.Provided
import Stencil.Proofs.Render.Replay

namespace Stencil

structure Frame.AgreesOff (name : String) (f f' : Frame) : Prop where
  kind : f'.kind = f.kind
  get? : ∀ key, key ≠ name → f'.bindings.get? key = f.bindings.get? key

structure Scope.AgreesOff (name : String) (s s' : Scope) : Prop where
  frames : List.Forall₂ (Frame.AgreesOff name) s.frames s'.frames
  signals : s'.signals = s.signals

variable {name : String}

theorem Frame.AgreesOff.bind {f f' : Frame} (h : f.AgreesOff name f') (key : String) (v : Value) :
    (Scope.bind key v f).AgreesOff name (Scope.bind key v f') := by
  refine ⟨h.kind, fun other hne => ?_⟩
  show (f'.bindings.insert key v).get? other = (f.bindings.insert key v).get? other
  rw [Dict.get?_insert, Dict.get?_insert, h.get? other hne]

namespace Scope

variable {fs fs' : List Frame} {s s' : Scope}

theorem kinds_agreesOff (h : s.AgreesOff name s') : s'.kinds = s.kinds := by
  have hframes : ∀ {fs fs'}, List.Forall₂ (Frame.AgreesOff name) fs fs' →
      fs'.map Frame.kind = fs.map Frame.kind := by
    intro fs fs' h
    induction h with
    | nil => rfl
    | cons hf _ ih => rw [List.map_cons, List.map_cons, hf.kind, ih]
  exact hframes h.frames

theorem lookup_agreesOff (h : s.AgreesOff name s') {key : String} (hne : key ≠ name) :
    s'.lookup key = s.lookup key := by
  have hframes : ∀ {fs fs'}, List.Forall₂ (Frame.AgreesOff name) fs fs' →
      fs'.findSome? (fun f => f.bindings.get? key) = fs.findSome? fun f => f.bindings.get? key := by
    intro fs fs' h
    induction h with
    | nil => rfl
    | cons hf _ ih => rw [List.findSome?_cons, List.findSome?_cons, hf.get? key hne, ih]
  exact hframes h.frames

theorem map_cons_agreesOff {f f' : Frame} (hf : f.AgreesOff name f') {found found' : Option (List Frame)}
    (h : Option.Rel (List.Forall₂ (Frame.AgreesOff name)) found found') :
    Option.Rel (List.Forall₂ (Frame.AgreesOff name)) (found.map (f :: ·)) (found'.map (f' :: ·)) := by
  cases h with
  | some h => exact .some (.cons hf h)
  | none => exact .none

theorem bindWhere_agreesOff {p : Frame → Bool} (hp : ∀ f f', f'.kind = f.kind → p f' = p f)
    (h : List.Forall₂ (Frame.AgreesOff name) fs fs') (key : String) (v : Value) (skip : Nat) :
    Option.Rel (List.Forall₂ (Frame.AgreesOff name)) (bindWhere p key v skip fs)
      (bindWhere p key v skip fs') := by
  induction h generalizing skip with
  | nil => exact .none
  | @cons f f' fs fs' hf hfs ih =>
      unfold bindWhere
      rw [hp f f' hf.kind]
      split
      · cases skip with
        | zero => exact .some (.cons (hf.bind key v) hfs)
        | succ skip => exact map_cons_agreesOff hf (ih skip)
      · exact map_cons_agreesOff hf (ih skip)

theorem bindGlobal_agreesOff (h : List.Forall₂ (Frame.AgreesOff name) fs fs') (key : String) (v : Value) :
    Option.Rel (List.Forall₂ (Frame.AgreesOff name)) (bindGlobal key v fs) (bindGlobal key v fs') := by
  induction h with
  | nil => exact .none
  | @cons f f' fs fs' hf hfs ih =>
      cases hfs with
      | nil =>
          rw [bindGlobal, bindGlobal, hf.kind]
          split
          · exact .some (.cons (hf.bind key v) .nil)
          · exact .none
      | cons => exact map_cons_agreesOff hf ih

theorem both_withFrames (h : s.AgreesOff name s') {found found' : Option (List Frame)}
    (hf : Option.Rel (List.Forall₂ (Frame.AgreesOff name)) found found') :
    Both (AgreesOff name) (s.withFrames found) (s'.withFrames found') := by
  cases hf with
  | some hf => exact .ok ⟨hf, h.signals⟩
  | none => exact .error

theorem congruence_agreesOff (name : String) (filters : FilterRegistry) :
    Congruence (AgreesOff name) filters fun e => name ∉ e.mentions where
  signals h := h.signals
  withSignals signals h := ⟨h.frames, rfl⟩
  push kind h := ⟨.cons ⟨rfl, fun _ _ => rfl⟩ h.frames, h.signals⟩
  pop h := ⟨List.forall₂_drop 1 h.frames, h.signals⟩
  set key v h := both_withFrames h (bindWhere_agreesOff (fun _ _ _ => rfl) h.frames key v 0)
  assign := by
    intro s s' target key v h
    have hglobal := both_withFrames h (bindGlobal_agreesOff h.frames key v)
    have hfile : ∀ f f' : Frame, f'.kind = f.kind → isFile f' = isFile f := by
      intro f f' hk
      rw [isFile, isFile, hk]
    cases target with
    | here => exact both_withFrames h (bindWhere_agreesOff hfile h.frames key v 0)
    | includer =>
        have hincluder : s'.hasIncluder = s.hasIncluder := by
          rw [hasIncluder, hasIncluder, length_filter_isFile, length_filter_isFile, kinds_agreesOff h]
        rw [assign, assign, hincluder]
        split
        · exact both_withFrames h (bindWhere_agreesOff hfile h.frames key v 1)
        · exact hglobal
    | everywhere => exact hglobal
  eval := by
    intro s s' e h he
    refine Expr.eval_congr e fun key hk => lookup_agreesOff h ?_
    rintro rfl
    exact he hk

end Scope

namespace Renderer

variable (r : Renderer) (t : Template) {data data' : Dict Value}

theorem run_agreesOff (hname : ∀ u, t.Reaches r.provides u → name ∉ u.mentions)
    (hdata : ∀ key, key ≠ name → data'.get? key = data.get? key) :
    (r.run t data').2 = (r.run t data).2 ∧
      RenderState.Related (Scope.AgreesOff name) r.engine r.provides (r.run t data).1 (r.run t data').1 := by
  have hS := Scope.congruence_agreesOff name r.engine.filters
  have hsees : ∀ u, t.Reaches r.provides u → ∀ e ∈ Node.expressionsAll u.nodes, name ∉ e.mentions :=
    fun u hu e he hn => hname u hu (List.mem_flatMap.2 ⟨e, he, hn⟩)
  have hknown : ∀ u, t.Reaches r.provides u → ∀ key ∈ Node.includedInAll u.nodes,
      ∀ v, r.provides key = some v → t.Reaches r.provides v :=
    fun u hu key hk v hv => hu.tail ⟨key, hk, hv⟩
  have hstart : RenderState.Related (Scope.AgreesOff name) r.engine r.provides (r.start data) (r.start data') := by
    refine ⟨⟨.cons ⟨rfl, fun _ _ => rfl⟩ (.cons ⟨rfl, hdata⟩ .nil), rfl⟩, rfl, rfl, rfl⟩
  exact run_paired (hS.ofNodes (t.Reaches r.provides) hsees hknown r.includeLimit .refl _ _ hstart)

/-- A name that the template does not mention, and no template that it may come to, does not show: data that
agree at all other names have the same output and the same errors, and leave global variables that agree there. -/
theorem render_agreesOff (hname : ∀ u, t.Reaches r.provides u → name ∉ u.mentions)
    (hdata : ∀ key, key ≠ name → data'.get? key = data.get? key) :
    (r.render t data').1 = (r.render t data).1 ∧
      (r.render t data').2.errors = (r.render t data).2.errors ∧
        ∃ globals globals', (r.render t data).2.globals? = some globals ∧
          (r.render t data').2.globals? = some globals' ∧
            ∀ key, key ≠ name → globals'.get? key = globals.get? key := by
  obtain ⟨herror, h⟩ := r.run_agreesOff t hname hdata
  obtain ⟨file, globals, hframes, -⟩ := r.run_frames t data
  obtain ⟨file', globals', hframes', -⟩ := r.run_frames t data'
  obtain ⟨hshown, herrors⟩ := render_eq_of_run herror h.output h.scope.signals rfl rfl
  refine ⟨hshown, herrors, globals, globals', r.globals_render hframes, r.globals_render hframes', ?_⟩
  have hagree := h.scope.frames
  rw [hframes, hframes'] at hagree
  cases hagree with
  | cons _ hagree =>
      cases hagree with
      | cons hglobals _ => exact hglobals.get?

def silentPart : Template :=
  ⟨"\x7b% assign secret = b global %\x7d", none, [.assign "secret" (.variable "b" 19) .everywhere 3]⟩

def silentPage : Template :=
  ⟨"\x7b\x7b a \x7d\x7d\x7b% include part %\x7d", none, [.output (.variable "a" 3), .embed "part" [] 10]⟩

def silent : Renderer :=
  (new .standard).register "part" silentPart

theorem reaches_silent {u : Template} (h : silentPage.Reaches silent.provides u) :
    u = silentPage ∨ u = silentPart := by
  rcases Relation.ReflTransGen.cases_tail h with rfl | ⟨_, -, key, -, hu⟩
  · exact .inl rfl
  · rw [silent, provides_register] at hu
    split at hu
    · exact .inr (Option.some.inj hu).symm
    · cases hu

/-- An included template assigns the name and does not mention it. -/
theorem render_agreesOff_silent :
    (∀ u, silentPage.Reaches silent.provides u → "secret" ∉ u.mentions) ∧
      ∃ globals globals',
        (silent.render silentPage [("a", .int 1), ("secret", .int 2)]).2.globals? = some globals ∧
          (silent.render silentPage [("a", .int 1), ("secret", .int 3)]).2.globals? = some globals' ∧
            ∀ key, key ≠ "secret" → globals'.get? key = globals.get? key := by
  have hname : ∀ u, silentPage.Reaches silent.provides u → "secret" ∉ u.mentions := by
    intro u hu
    rcases reaches_silent hu with rfl | rfl <;> decide
  have hdata : ∀ key, key ≠ "secret" →
      Dict.get? [("a", Value.int 1), ("secret", .int 3)] key = Dict.get? [("a", .int 1), ("secret", .int 2)] key := by
    intro key hne
    simp [hne]
  exact ⟨hname, (silent.render_agreesOff silentPage hname hdata).2.2⟩

end Renderer

end Stencil

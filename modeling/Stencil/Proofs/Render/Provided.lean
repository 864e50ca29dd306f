import Stencil.Proofs.Dict
import Stencil.Proofs.Render.Step
import Mathlib.Logic.Relation
import Stencil.Node.Basic
import Stencil.Template

namespace Stencil

/-- The template that an include finds: one that is kept under the name, or else that of the loaders. -/
def Engine.provide (engine : Engine) (templates : Dict Template) (name : String) : Option Template :=
  match templates.get? name with
  | some t => some t
  | none => (Loader.search name engine.loaders).toOption

def Renderer.provides (r : Renderer) (name : String) : Option Template :=
  r.engine.provide r.templates name

theorem Loader.search_error_ne {name : String} {loaders : List Loader} {fault : EvalFault}
    (h : Loader.search name loaders = .error fault) : fault ≠ .noActiveScope := by
  induction loaders with
  | nil =>
      cases h
      simp
  | cons l rest ih =>
      rw [search] at h
      split at h
      · cases h
      · exact ih h
      · cases h
        simp

namespace Engine

variable (engine : Engine)

variable {engine} in
theorem provide_eq_some_iff {templates : Dict Template} {name : String} {t : Template} :
    engine.provide templates name = some t ↔
      templates.get? name = some t ∨ templates.get? name = none ∧ Loader.search name engine.loaders = .ok t := by
  rw [provide]
  cases templates.get? name with
  | some kept => simp
  | none => cases Loader.search name engine.loaders <;> simp [Except.toOption]

theorem provide_insert {templates : Dict Template} {name : String} {t : Template}
    (hn : templates.get? name = none) (hs : Loader.search name engine.loaders = .ok t) :
    engine.provide (templates.insert name t) = engine.provide templates := by
  funext other
  by_cases h : other = name
  · subst h
    simp [provide, Dict.get?_insert_self, hn, hs, Except.toOption]
  · simp [provide, Dict.get?_insert_of_ne _ _ h]

theorem resolve_apply (name : String) (offset : Nat) (st : RenderState) :
    engine.resolve name offset st = match st.templates.get? name with
      | some t => .ok t st
      | none => match Loader.search name engine.loaders with
        | .ok t => .ok t { st with templates := st.templates.insert name t }
        | .error fault => .error (.failed (fault.at offset)) st := by
  rw [resolve, Rendering.bind_apply, Rendering.get_apply]
  dsimp only
  cases st.templates.get? name with
  | some t => rfl
  | none => cases Loader.search name engine.loaders <;> rfl

/-- What a name stands for decides whether it can be resolved, and resolving it changes nothing else. -/
theorem resolve_of_some {name : String} {t : Template} {st : RenderState}
    (h : engine.provide st.templates name = some t) (offset : Nat) :
    ∃ templates, engine.resolve name offset st = .ok t { st with templates } ∧
      engine.provide templates = engine.provide st.templates := by
  rw [resolve_apply]
  rcases provide_eq_some_iff.1 h with hkept | ⟨hnone, hs⟩
  · rw [hkept]
    exact ⟨st.templates, rfl, rfl⟩
  · rw [hnone, hs]
    exact ⟨st.templates.insert name t, rfl, engine.provide_insert hnone hs⟩

/-- A name that stands for nothing is refused as the loaders refuse it. -/
theorem resolve_refused {name : String} {st : RenderState} (h : engine.provide st.templates name = none)
    (offset : Nat) :
    ∃ fault, Loader.search name engine.loaders = .error fault ∧
      engine.resolve name offset st = .error (.failed (EvalFault.at fault offset)) st := by
  rw [provide] at h
  rw [resolve_apply]
  cases ht : st.templates.get? name with
  | some kept =>
      rw [ht] at h
      cases h
  | none =>
      rw [ht] at h
      cases hs : Loader.search name engine.loaders with
      | error fault => exact ⟨fault, rfl, rfl⟩
      | ok loaded =>
          rw [hs] at h
          cases h

theorem resolve_of_none {name : String} {st : RenderState}
    (h : engine.provide st.templates name = none) (offset : Nat) :
    ∃ fault, fault ≠ .noActiveScope ∧
      engine.resolve name offset st = .error (.failed (EvalFault.at fault offset)) st := by
  obtain ⟨fault, hs, hr⟩ := engine.resolve_refused h offset
  exact ⟨fault, Loader.search_error_ne hs, hr⟩

/-- A name that was resolved stands for what was found. -/
theorem of_resolve_ok {name : String} {offset : Nat} {t : Template} {st st' : RenderState}
    (h : engine.resolve name offset st = .ok t st') :
    ∃ templates, st' = { st with templates } ∧ engine.provide st.templates name = some t ∧
      engine.provide templates = engine.provide st.templates := by
  cases ht : engine.provide st.templates name with
  | none =>
      obtain ⟨fault, _, hr⟩ := engine.resolve_of_none ht offset
      rw [hr] at h
      cases h
  | some found =>
      obtain ⟨templates, hr, hk⟩ := engine.resolve_of_some ht offset
      rw [hr] at h
      cases h
      exact ⟨templates, rfl, rfl, hk⟩

theorem of_resolve_error {name : String} {offset : Nat} {halt : Halt} {st st' : RenderState}
    (h : engine.resolve name offset st = .error halt st') :
    engine.provide st.templates name = none ∧
      ∃ fault, Loader.search name engine.loaders = .error fault ∧ halt = .failed (EvalFault.at fault offset) := by
  cases ht : engine.provide st.templates name with
  | some t =>
      obtain ⟨templates, hok, -⟩ := engine.resolve_of_some ht offset
      rw [hok] at h
      cases h
  | none =>
      obtain ⟨fault, hf, hr⟩ := engine.resolve_refused ht offset
      rw [hr] at h
      cases h
      exact ⟨rfl, fault, hf, rfl⟩

end Engine

/-- The nodes may assign the name in this scope. A template assigns names in the scope of those that
include it, and in the global one. -/
inductive Node.Assigns (provide : String → Option Template) : AssignTarget → String → List Node → Prop
  | later {target name n rest} (h : Assigns provide target name rest) :
      Assigns provide target name (n :: rest)
  | assign {target name e k rest} : Assigns provide target name (.assign name e target k :: rest)
  | captured {name body k rest} : Assigns provide .here name (.capture name body k :: rest)
  | capture {target name x body k rest} (h : Assigns provide target name body) :
      Assigns provide target name (.capture x body k :: rest)
  | loop {target name x e body k rest} (h : Assigns provide target name body) :
      Assigns provide target name (.loop x e body k :: rest)
  | branch {target name c body arms k rest} (hb : (c, body) ∈ arms) (h : Assigns provide target name body) :
      Assigns provide target name (.branch arms k :: rest)
  | fromIncluded {name file t arguments k rest} (ht : provide file = some t)
      (h : Assigns provide .includer name t.nodes) :
      Assigns provide .here name (.embed file arguments k :: rest)
  | throughIncluded {name file t arguments k rest} (ht : provide file = some t)
      (h : Assigns provide .everywhere name t.nodes) :
      Assigns provide .everywhere name (.embed file arguments k :: rest)

theorem Node.Assigns.of_single {provide : String → Option Template} {target : AssignTarget} {name : String}
    {n : Node} (rest : List Node) (h : Assigns provide target name [n]) :
    Assigns provide target name (n :: rest) := by
  cases h with
  | later h => cases h
  | assign => exact .assign
  | captured => exact .captured
  | capture h => exact .capture h
  | loop h => exact .loop h
  | branch hb h => exact .branch hb h
  | fromIncluded ht h => exact .fromIncluded ht h
  | throughIncluded ht h => exact .throughIncluded ht h

namespace Template

def Includes (provide : String → Option Template) (t u : Template) : Prop :=
  ∃ name ∈ Node.includedInAll t.nodes, provide name = some u

def Reaches (provide : String → Option Template) : Template → Template → Prop :=
  Relation.ReflTransGen (Includes provide)

end Template

end Stencil

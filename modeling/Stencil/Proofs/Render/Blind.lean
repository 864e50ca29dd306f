import Stencil.Proofs.Render.Paired

namespace Stencil

structure RenderState.Twins (engine : Engine) (st st' : RenderState) : Prop where
  scope : st'.scope = st.scope
  output : st'.output = st.output
  provide : engine.provide st'.templates = engine.provide st.templates

theorem RenderState.Related.twins {engine : Engine} {provide : String → Option Template} {st st' : RenderState}
    (h : Related Eq engine provide st st') : st.Twins engine st' :=
  ⟨h.scope.symm, h.output, h.provide_right.trans h.provide_left.symm⟩

theorem Scope.congruence_eq (filters : FilterRegistry) : Congruence Eq filters fun _ => True where
  signals := by
    rintro s _ rfl
    rfl
  withSignals := by
    rintro s _ signals rfl
    rfl
  push := by
    rintro s _ kind rfl
    rfl
  pop := by
    rintro s _ rfl
    rfl
  set := by
    rintro s _ name v rfl
    cases s.set name v with
    | ok => exact .ok rfl
    | error => exact .error
  assign := by
    rintro s _ target name v rfl
    cases s.assign target name v with
    | ok => exact .ok rfl
    | error => exact .error
  eval := by
    rintro s _ e rfl _
    rfl

namespace Rendering

variable {α : Type} {engine : Engine}

inductive TwinResults (engine : Engine) :
    EStateM.Result Halt RenderState α → EStateM.Result Halt RenderState α → Prop
  | ok {a st st'} (h : st.Twins engine st') : TwinResults engine (.ok a st) (.ok a st')
  | error {e st st'} (h : st.Twins engine st') : TwinResults engine (.error e st) (.error e st')

def Blind (engine : Engine) (act : Rendering α) : Prop :=
  ∀ st st', st.Twins engine st' → TwinResults engine (act st) (act st')

theorem TwinResults.cases {res res' : EStateM.Result Halt RenderState α}
    (h : TwinResults engine res res') :
    (∃ a st st', res = .ok a st ∧ res' = .ok a st' ∧ st.Twins engine st') ∨
    ∃ e st st', res = .error e st ∧ res' = .error e st' ∧ st.Twins engine st' := by
  cases h with
  | ok ht => exact .inl ⟨_, _, _, rfl, rfl, ht⟩
  | error ht => exact .inr ⟨_, _, _, rfl, rfl, ht⟩

theorem Blind.processAll (engine : Engine) (depth : Nat) (t : Template) :
    Blind engine (Node.processAll engine (engine.includer depth) t.nodes) := by
  have hS := Scope.congruence_eq engine.filters
  intro st st' ht
  have hpairs := hS.ofNodes (fun _ => True) (fun _ _ _ _ => trivial) (fun _ _ _ _ _ _ => trivial) depth
    (t := t) trivial st st' ⟨ht.scope.symm, ht.output, rfl, ht.provide⟩
  obtain ⟨a, st₁, st₁', hr, hr', h₁⟩ | ⟨e, st₁, st₁', hr, hr', -, h₁⟩ := hpairs.cases
  · rw [hr, hr']
    exact .ok h₁.twins
  · rw [hr, hr']
    exact .error h₁.twins

end Rendering

end Stencil

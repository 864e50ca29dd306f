import Stencil.Proofs.Render.Provided

namespace Stencil

/-- The names that may be assigned in each scope. -/
abbrev Writes := AssignTarget → String → Prop

namespace Rendering

variable {α : Type}

/-- What holds of the failure, if there is one, and of the last state. -/
def Ended (r : EStateM.Result Halt RenderState α) (Q : Option Halt → RenderState → Prop) : Prop :=
  match r with
  | .ok _ st => Q none st
  | .error h st => Q (some h) st

theorem Ended.imp {r : EStateM.Result Halt RenderState α} {Q R : Option Halt → RenderState → Prop}
    (h : Ended r Q) (himp : ∀ h st, Q h st → R h st) : Ended r R := by
  cases r with
  | ok a st => exact himp none st h
  | error e st => exact himp (some e) st h

end Rendering

def Scope.kinds (s : Scope) : List FrameKind :=
  s.frames.map Frame.kind

theorem RenderState.kinds_openRound (st : RenderState) (name : String) (item : Value) (index length : Nat) :
    (st.openRound name item index length).scope.kinds = st.scope.kinds := by
  show (st.scope.frames.modifyHead _).map Frame.kind = st.scope.frames.map Frame.kind
  cases st.scope.frames <;> rfl

structure RenderState.Keeps (engine : Engine) (st st' : RenderState) : Prop where
  kinds : st'.scope.kinds = st.scope.kinds
  provide : engine.provide st'.templates = engine.provide st.templates

namespace RenderState.Keeps

variable {engine : Engine} {st st' st'' : RenderState}

theorem refl : Keeps engine st st :=
  ⟨rfl, rfl⟩

theorem trans (h : Keeps engine st st') (h' : Keeps engine st' st'') : Keeps engine st st'' :=
  ⟨h'.kinds.trans h.kinds, h'.provide.trans h.provide⟩

theorem leave {kind : FrameKind} {d : Dict Value} (h : Keeps engine (st.enter kind d) st') :
    Keeps engine st st'.leave := by
  refine ⟨?_, h.provide⟩
  have hk : st'.scope.kinds = kind :: st.scope.kinds := h.kinds
  show (st'.scope.frames.drop 1).map Frame.kind = st.scope.kinds
  rw [List.map_drop]
  show st'.scope.kinds.drop 1 = _
  rw [hk]
  rfl

theorem openRound (name : String) (item : Value) (index length : Nat) :
    Keeps engine st (st.openRound name item index length) :=
  ⟨st.kinds_openRound name item index length, rfl⟩

end RenderState.Keeps

/-- A frame of a loop was entered before: with it gone the state is as outside the loop. -/
theorem RenderState.enter_leave {st : RenderState} {kinds : List FrameKind} {kind : FrameKind}
    (h : st.scope.kinds = kind :: kinds) : ∃ d, st = st.leave.enter kind d := by
  obtain ⟨⟨frames, signals⟩, output, templates⟩ := st
  cases frames with
  | nil => cases h
  | cons f fs =>
      obtain ⟨k, d⟩ := f
      injection h with hk
      obtain rfl : k = kind := hk
      exact ⟨d, rfl⟩

end Stencil

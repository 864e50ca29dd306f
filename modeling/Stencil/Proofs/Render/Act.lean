import Stencil.Render.Renderer

namespace Stencil

namespace Rendering

variable {α β : Type}

@[simp]
theorem bind_apply (x : Rendering α) (f : α → Rendering β) (st : RenderState) :
    (x >>= f) st = match x st with
      | .ok a st' => f a st'
      | .error h st' => .error h st' := by
  show EStateM.bind x f st = _
  rw [EStateM.bind]
  cases x st <;> rfl

@[simp]
theorem get_apply (st : RenderState) : (get : Rendering RenderState) st = .ok st st := rfl

@[simp]
theorem updateScope_apply (f : Scope → Except Failure Scope) (st : RenderState) :
    updateScope f st = match f st.scope with
      | .ok scope => .ok () { st with scope }
      | .error _ => .error (.failed EvalFault.noActiveScope.nowhere) st := by
  rw [updateScope, bind_apply, get_apply]
  dsimp only
  cases f st.scope <;> rfl

@[simp]
theorem withFrame_apply (kind : FrameKind) (act : Rendering α) (st : RenderState) :
    withFrame kind act st = match act { st with scope := st.scope.push kind [] } with
      | .ok a st' => .ok a (popFrame st')
      | .error h st' => .error h (popFrame st') := rfl

@[simp]
theorem mapHalt_apply (f : EvalError → EvalError) (act : Rendering α) (st : RenderState) :
    mapHalt f act st = match act st with
      | .ok a st' => .ok a st'
      | .error (.failed e) st' => .error (.failed (f e)) st'
      | .error .tooDeep st' => .error .tooDeep st' := by
  rw [mapHalt]
  cases act st with
  | ok a st' => rfl
  | error h st' => cases h <;> rfl

end Rendering

namespace RenderState

def write (st : RenderState) (s : String) : RenderState :=
  { st with output := st.output ++ s }

def enter (st : RenderState) (kind : FrameKind) (bindings : Dict Value) : RenderState :=
  { st with scope := st.scope.push kind bindings }

def leave (st : RenderState) : RenderState :=
  Rendering.popFrame st

def clear (st : RenderState) : RenderState :=
  { st with scope := st.scope.clearSignals }

def cut (st : RenderState) (length : Nat) : RenderState :=
  { st with output := String.ofList (st.output.toList.take length) }

def writtenSince (st : RenderState) (length : Nat) : String :=
  String.ofList (st.output.toList.drop length)

end RenderState

def roundBindings (name : String) (item : Value) (index length : Nat) (d : Dict Value) : Dict Value :=
  (d.insert "forloop" (loopInfo index length)).insert name item

def RenderState.openRound (st : RenderState) (name : String) (item : Value) (index length : Nat) :
    RenderState :=
  { st with scope := { st.scope with frames := st.scope.frames.modifyHead fun f =>
      { f with bindings := roundBindings name item index length f.bindings } } }

namespace Rendering

theorem updateScope_set (name : String) (v : Value) (st : RenderState) {f : Frame} {fs : List Frame}
    (h : st.scope.frames = f :: fs) :
    updateScope (·.set name v) st =
      .ok () { st with scope := { st.scope with frames := Scope.bind name v f :: fs } } := by
  have hs : st.scope.set name v = .ok { st.scope with frames := Scope.bind name v f :: fs } := by
    simp [Scope.set, Scope.withFrames, Scope.bindWhere, h]
  simp [hs]

@[simp]
theorem updateScope_include (v : Value) (st : RenderState) :
    updateScope (·.set "include" v) { st with scope := st.scope.push .file [] } =
      .ok () (st.enter .file [("include", v)]) := rfl

end Rendering

end Stencil

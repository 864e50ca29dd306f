import Stencil.Proofs.Expr.Fault
import Stencil.Proofs.Render.Assignment
import Stencil.Proofs.Render.Effect

namespace Stencil

def Effect.onFrames (engine : Engine) (w : Writes) : Effect := fun st h st' =>
  st.scope.Stacked →
    Frame.Changed w 0 st.scope.frames st'.scope.frames ∧
    ∀ e, h = some (.failed e) → e.fault = .noActiveScope →
      ∃ inner, engine.filters.Raises inner ∧ inner.fault = .noActiveScope

namespace Effect.onFrames

variable {engine : Engine} {w w' : Writes} {st st' : RenderState} {h : Option Halt}

theorem of_frames_eq (hf : st'.scope.frames = st.scope.frames) : onFrames engine w st none st' := by
  intro _
  rw [hf]
  exact ⟨.refl 0 _, fun _ he => nomatch he⟩

theorem stacked (he : onFrames engine w st h st') (hs : st.scope.Stacked) : st'.scope.Stacked :=
  hs.of_kinds_eq (he hs).1.kinds_eq

theorem leave_control {d : Dict Value} (he : onFrames engine w (st.enter .control d) h st') :
    onFrames engine w st h st'.leave := by
  intro hs
  obtain ⟨hc, hf⟩ := he (hs.push (by simp) d)
  exact ⟨hc.drop_one, hf⟩

theorem leave_file {d : Dict Value} (hhere : ∀ name, w' .includer name → w .here name)
    (hall : ∀ name, w' .everywhere name → w .everywhere name)
    (he : onFrames engine w' (st.enter .file d) h st') : onFrames engine w st h st'.leave := by
  intro hs
  obtain ⟨hc, hf⟩ := he (hs.push (by simp) d)
  exact ⟨hc.drop_one.of_passed hhere hall hs.fileFound, hf⟩

theorem assign (target : AssignTarget) (name : String) (v : Value) (hw : w target name) :
    Rendering.Ended (Rendering.updateScope (·.assign target name v) st) fun h st' =>
      RenderState.Keeps engine st st' ∧ onFrames engine w st h st' := by
  rw [Rendering.updateScope_apply]
  cases hs : st.scope.assign target name v with
  | ok s' =>
      have hc := (Scope.changed_of_assign hs hw).1
      exact ⟨⟨hc.kinds_eq, rfl⟩, fun _ => ⟨hc, fun _ he => nomatch he⟩⟩
  | error f =>
      refine ⟨.refl, ?_⟩
      intro hstack
      obtain ⟨s', hok⟩ := hstack.assign_ok target name v
      rw [hok] at hs
      cases hs

theorem closed (engine : Engine) : Closed engine (onFrames engine) where
  refl w st := of_frames_eq rfl
  trans := by
    intro w st st' h st'' he he' hs
    obtain ⟨hc', hf⟩ := he' (he.stacked hs)
    exact ⟨(he hs).1.trans hc', hf⟩
  write w st s := of_frames_eq rfl
  raise w st signals := of_frames_eq rfl
  clear w st := of_frames_eq rfl
  keep w st templates := of_frames_eq rfl
  assign w st target name v hw := assign target name v hw
  evaluation := by
    intro w st e x hx _
    refine ⟨.refl 0 _, ?_⟩
    rintro _ ⟨⟩ hf
    exact (Expr.explains_of_eval e hx).raises_of_noActiveScope hf
  missing := by
    intro w st fault offset hne _
    refine ⟨.refl 0 _, ?_⟩
    rintro _ ⟨⟩ hf
    exact absurd hf hne
  tooDeep := by
    intro w st _
    exact ⟨.refl 0 _, fun _ he => nomatch he⟩
  locate := by
    intro w st e st' name t he hs
    refine ⟨(he hs).1, ?_⟩
    rintro _ ⟨⟩ hf
    apply (he hs).2 e rfl
    rw [Engine.locate] at hf
    split at hf <;> exact hf
  control := leave_control
  capture := by
    intro w st st' he
    exact leave_control he
  file := leave_file

end Effect.onFrames

end Stencil

import Stencil.Proofs.Render.Reached
import Stencil.Proofs.Render.Reference

namespace Stencil

open Rendering

/-- The register that tells how nodes ended. -/
def Reference.Outcome.signals : Reference.Outcome → Signals
  | .normal => .none
  | .stopLoop => .of .stopLoop
  | .nextRound => .of .nextRound
  | .eject => .of .eject
  | .discard => .of .discard

theorem Reference.Outcome.isNone_signals (o : Reference.Outcome) : o.signals.isNone ↔ o = .normal := by
  cases o <;> decide

def Engine.setting (engine : Engine) (provide : String → Option Template) : Reference.Setting :=
  ⟨engine.stringify, engine.filters, provide⟩

def Reference.Agrees (engine : Engine) (st : RenderState) :
    EStateM.Result Halt RenderState Unit → Option Reference.Result → Prop
  | .ok _ st', some r =>
      st'.scope = ⟨r.env, r.outcome.signals⟩ ∧ st'.output = st.output ++ r.text ∧
        engine.provide st'.templates = engine.provide st.templates
  | .error _ _, none => True
  | _, _ => False

namespace Reference

variable {engine : Engine} {provide : String → Option Template} {st : RenderState} {env : Env}

theorem evaluate_eq (hs : st.scope = ⟨env, .none⟩) (e : Expr) :
    evaluate (engine.setting provide) env e = (e.eval ⟨st.scope, engine.filters⟩).toOption := by
  rw [hs]
  rfl

theorem evaluateArguments_eq (hs : st.scope = ⟨env, .none⟩) (arguments : List (String × Expr)) :
    evaluateArguments (engine.setting provide) env arguments =
      (Expr.evalArguments ⟨st.scope, engine.filters⟩ arguments [("__", .bool true)]).toOption := by
  rw [hs]
  rfl

/-- Assignments do not look at the register. -/
theorem assign_cases {signals : Signals} (hs : st.scope = ⟨env, signals⟩) (target : AssignTarget)
    (name : String) (v : Value) :
    (∃ env', assign target name v env = some env' ∧
      updateScope (·.assign target name v) st = .ok () { st with scope := ⟨env', signals⟩ }) ∨
    (assign target name v env = none ∧ ∃ h, updateScope (·.assign target name v) st = .error h st) := by
  have found : ∀ o : Option Env,
      (∃ env', (Scope.withFrames ⟨env, .none⟩ o).toOption.map Scope.frames = some env' ∧
        Scope.withFrames ⟨env, signals⟩ o = .ok ⟨env', signals⟩) ∨
      ((Scope.withFrames ⟨env, .none⟩ o).toOption.map Scope.frames = none ∧
        ∃ f, Scope.withFrames ⟨env, signals⟩ o = .error f) := by
    intro o
    cases o with
    | none => exact .inr ⟨rfl, _, rfl⟩
    | some fs => exact .inl ⟨fs, rfl, rfl⟩
  have both : (∃ env', assign target name v env = some env' ∧
      Scope.assign ⟨env, signals⟩ target name v = .ok ⟨env', signals⟩) ∨
      (assign target name v env = none ∧ ∃ f, Scope.assign ⟨env, signals⟩ target name v = .error f) := by
    cases target with
    | here => exact found _
    | everywhere => exact found _
    | includer =>
        have hi : Scope.hasIncluder ⟨env, signals⟩ = Scope.hasIncluder ⟨env, .none⟩ := rfl
        by_cases h : Scope.hasIncluder ⟨env, .none⟩
        · simp only [assign, Scope.assign, hi, h, if_true]
          exact found _
        · simp only [assign, Scope.assign, hi, h, if_false, Bool.false_eq_true]
          exact found _
  rw [updateScope_apply, hs]
  obtain ⟨env', he, hok⟩ | ⟨hn, f, hf⟩ := both
  · exact .inl ⟨env', he, by rw [hok]⟩
  · exact .inr ⟨hn, .failed EvalFault.noActiveScope.nowhere, by rw [hf]⟩

theorem writtenSince_append {st st' : RenderState} {s : String} (h : st'.output = st.output ++ s) :
    st'.writtenSince st.output.length = s := by
  simp [RenderState.writtenSince, h, ← String.length_toList]

theorem cut_append {st st' : RenderState} {s : String} (h : st'.output = st.output ++ s) :
    (st'.cut st.output.length).output = st.output := by
  simp [RenderState.cut, h, ← String.length_toList]

/-- The bindings of a round leave nothing behind for the next. -/
def Settled (name : String) (d : Dict Value) : Prop :=
  ∀ item index length, roundBindings name item index length d = roundBindings name item index length []

theorem settled_nil (name : String) : Settled name [] := fun _ _ _ => rfl

theorem settled_roundBindings (name : String) (item : Value) (index length : Nat) :
    Settled name (roundBindings name item index length []) := by
  intro item' index' length'
  simp only [roundBindings]
  cases h : compare name "forloop" with
  | lt =>
      have h' : compare "forloop" name = .gt := Std.OrientedCmp.gt_of_lt h
      simp [Dict.insert, h, h', Std.ReflCmp.compare_self]
  | eq =>
      obtain rfl : name = "forloop" := Std.LawfulEqCmp.eq_of_compare h
      simp [Dict.insert]
  | gt =>
      simp [Dict.insert, h, Std.ReflCmp.compare_self]

end Reference

end Stencil

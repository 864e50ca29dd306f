import Stencil.Filter
import Stencil.Proofs.Bind
import Stencil.Proofs.Dict

namespace Stencil

namespace Filter

inductive Complaint (name : String) : EvalFault → Prop
  | count (least most got : Nat) : Complaint name (.argumentCount name least most got)
  | list (got : String) : Complaint name (.filterNeedsArray name got)
  | field (got : String) : Complaint name (.fieldNotString got)

def Blames (name : String) (e : EvalError) : Prop :=
  ∃ fault, Complaint name fault ∧ e = fault.nowhere

def Complains (name : String) (f : Filter) : Prop :=
  ∀ v arguments e, f v arguments = .error e → Blames name e

variable {name : String} {least most : Nat} {v : Value} {arguments : List Value} {e : EvalError}

theorem Blames.fault_ne (h : Blames name e) : e.fault ≠ .noActiveScope := by
  obtain ⟨fault, hc, rfl⟩ := h
  cases hc <;> exact nofun

theorem blames_of_expectArguments (h : expectArguments name least most arguments = .error e) :
    Blames name e := by
  rw [expectArguments] at h
  split at h
  · cases h
  · exact ⟨_, .count _ _ _, (Except.error.inj h).symm⟩

theorem blames_of_expectArray (h : expectArray name v = .error e) : Blames name e := by
  rw [expectArray] at h
  split at h
  · cases h
  · exact ⟨_, .list _, (Except.error.inj h).symm⟩

namespace Complains

theorem onList {f : List Value → List Value → Evaluated Value}
    (hf : ∀ items arguments e, f items arguments = .error e → Blames name e) :
    Complains name (onList name least most f) := by
  intro v arguments e h
  rcases Except.of_bind_error h with h | ⟨_, _, h⟩
  · exact blames_of_expectArguments h
  split at h
  · cases h
  rcases Except.of_bind_error h with h | ⟨items, _, h⟩
  · exact blames_of_expectArray h
  · exact hf items arguments e h

theorem concat : Complains "concat" concat := by
  refine onList ?_
  intro items arguments e h
  rcases Except.of_bind_error h with h | ⟨more, _, h⟩
  · exact blames_of_expectArray h
  · cases h

theorem map : Complains "map" map := by
  intro v arguments e h
  rcases Except.of_bind_error h with h | ⟨_, _, h⟩
  · exact blames_of_expectArguments h
  split at h
  · cases h
  split at h
  · rcases Except.of_bind_error h with h | ⟨items, _, h⟩
    · exact blames_of_expectArray h
    · cases h
  · exact ⟨_, .field _, (Except.error.inj h).symm⟩

theorem size : Complains "size" size := by
  intro v arguments e h
  rcases Except.of_bind_error h with h | ⟨_, _, h⟩
  · exact blames_of_expectArguments h
  split at h <;> cases h

end Complains

end Filter

/-- The filters that are always there blame themselves, and nothing else. -/
theorem FilterRegistry.complains_of_builtins {name : String} {f : Filter}
    (h : builtins.filters.get? name = some f) : f.Complains name := by
  have hm := Dict.mem_of_get?_ofList h
  simp only [List.mem_cons, Prod.mk.injEq, List.not_mem_nil, or_false] at hm
  rcases hm with ⟨rfl, rfl⟩ | ⟨rfl, rfl⟩ | ⟨rfl, rfl⟩ | ⟨rfl, rfl⟩ | ⟨rfl, rfl⟩ | ⟨rfl, rfl⟩ |
    ⟨rfl, rfl⟩ | ⟨rfl, rfl⟩
  case inr.inl => exact .concat
  case inr.inr.inr.inr.inl => exact .map
  case inr.inr.inr.inr.inr.inr.inr => exact .size
  all_goals exact .onList fun _ _ _ h => nomatch h

end Stencil

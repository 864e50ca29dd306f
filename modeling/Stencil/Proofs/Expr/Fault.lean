import Stencil.Expr.Eval
import Stencil.Proofs.Bind

namespace Stencil

namespace Expr

mutual

def offsets : Expr → List Nat
  | .literal _ n => [n]
  | .array items n => n :: offsetsAll items
  | .variable _ n => [n]
  | .member target _ n => n :: target.offsets
  | .index target key n => n :: (target.offsets ++ key.offsets)
  | .binary _ left right n => n :: (left.offsets ++ right.offsets)
  | .negation operand n => n :: operand.offsets
  | .pipe target _ _ n => n :: target.offsets

def offsetsAll : List Expr → List Nat
  | [] => []
  | e :: rest => e.offsets ++ offsetsAll rest

end

theorem offset_mem_offsets (e : Expr) : e.offset ∈ e.offsets := by
  cases e <;> simp [offset, offsets]

end Expr

def FilterRegistry.Raises (r : FilterRegistry) (e : EvalError) : Prop :=
  ∃ name f v arguments, r.filters.get? name = some f ∧ f v arguments = .error e

/-- How an expression with these offsets fails that is evaluated with these filters. -/
def FilterRegistry.Explains (r : FilterRegistry) (offsets : List Nat) (e : EvalError) : Prop :=
  ∃ offset ∈ offsets,
    (∃ fault, fault ≠ EvalFault.noActiveScope ∧ e = EvalFault.at fault offset) ∨
      ∃ inner, r.Raises inner ∧ e = inner.withOffset offset

namespace FilterRegistry.Explains

variable {r : FilterRegistry} {offsets : List Nat}

theorem own (fault : EvalFault) {offset : Nat} (ho : offset ∈ offsets) (h : fault ≠ .noActiveScope) :
    r.Explains offsets (EvalFault.at fault offset) :=
  ⟨offset, ho, .inl ⟨fault, h, rfl⟩⟩

theorem mono {more : List Nat} {e : EvalError} (h : r.Explains offsets e) (hs : offsets ⊆ more) :
    r.Explains more e := by
  obtain ⟨offset, ho, he⟩ := h
  exact ⟨offset, hs ho, he⟩

/-- An expression says that there is no scope only if a filter said so. -/
theorem raises_of_noActiveScope {e : EvalError} (h : r.Explains offsets e) (he : e.fault = .noActiveScope) :
    ∃ inner, r.Raises inner ∧ inner.fault = .noActiveScope := by
  obtain ⟨offset, -, ⟨fault, hf, rfl⟩ | ⟨inner, hr, rfl⟩⟩ := h
  · exact absurd he hf
  · exact ⟨inner, hr, he⟩

theorem apply {name : String} {v : Value} {arguments : List Value} {e : EvalError} {offset : Nat}
    (ho : offset ∈ offsets)
    (h : (r.apply name v arguments).mapError (·.withOffset offset) = .error e) : r.Explains offsets e := by
  rw [FilterRegistry.apply] at h
  split at h
  next f hf =>
    cases hv : f v arguments with
    | ok a =>
        rw [hv] at h
        cases h
    | error inner =>
        rw [hv] at h
        cases h
        exact ⟨offset, ho, .inr ⟨inner, ⟨name, f, v, arguments, hf, hv⟩, rfl⟩⟩
  next =>
    cases h
    exact own (.unknownFilter name) ho (by simp)

theorem member {v : Value} {name : String} {offset : Nat} {e : EvalError} (ho : offset ∈ offsets)
    (h : v.member name offset = .error e) : r.Explains offsets e := by
  simp only [Value.member] at h
  repeat' split at h
  all_goals cases h
  exact own .noMembers ho (by simp)

theorem index {v key : Value} {offset keyOffset : Nat} {e : EvalError} (ho : offset ∈ offsets)
    (hk : keyOffset ∈ offsets) (h : v.index key offset keyOffset = .error e) : r.Explains offsets e := by
  simp only [Value.index] at h
  repeat' split at h
  all_goals cases h
  · exact own .notAnArray ho (by simp)
  · exact own .notAnObject ho (by simp)
  · exact own .badIndex hk (by simp)

theorem fitting {n : Int} {offset : Nat} {e : EvalError} (ho : offset ∈ offsets)
    (h : Value.fitting n offset = .error e) : r.Explains offsets e := by
  rw [Value.fitting] at h
  split at h
  · cases h
  · cases h
    exact own .overflow ho (by simp)

theorem arithmetic {op : Value.Arithmetic} {symbol : String} {a b : Value} {offset : Nat} {e : EvalError}
    (ho : offset ∈ offsets) (h : Value.arithmetic op symbol a b offset = .error e) :
    r.Explains offsets e := by
  simp only [Value.arithmetic] at h
  split at h
  next m n =>
    cases op with
    | add | subtract | multiply => exact fitting ho h
    | divide =>
        unfold Value.onIntegers at h
        dsimp only at h
        split at h
        · cases h
          exact own .divisionByZero ho (by simp)
        · exact fitting ho h
  next => cases h
  next => cases h
  next =>
    split at h
    next x y =>
      cases op with
      | add | subtract | multiply => cases h
      | divide =>
          unfold Value.onDoubles at h
          dsimp only at h
          split at h
          · cases h
            exact own .divisionByZero ho (by simp)
          · cases h
    next =>
      cases h
      exact own _ ho (by simp)

end FilterRegistry.Explains

namespace Expr

open FilterRegistry

variable {env : Environment}

mutual

theorem explains_of_eval : (e : Expr) → {x : EvalError} → e.eval env = .error x →
    env.filters.Explains e.offsets x
  | .literal v n, x, h => by
      rw [eval] at h
      cases h
  | .array items n, x, h => by
      rw [eval] at h
      rcases Except.of_bind_error h with h | ⟨vs, _, h⟩
      · exact (explains_of_evalAll items h).mono (List.subset_cons_self ..)
      · cases h
  | .variable name n, x, h => by
      rw [eval] at h
      cases h
  | .member target name n, x, h => by
      rw [eval] at h
      have htarget : target.offsets ⊆ n :: target.offsets := List.subset_cons_self ..
      rcases Except.of_bind_error h with h | ⟨v, _, h⟩
      · exact (explains_of_eval target h).mono htarget
      · exact Explains.member (htarget target.offset_mem_offsets) h
  | .index target key n, x, h => by
      rw [eval] at h
      have htarget : target.offsets ⊆ (index target key n).offsets := by simp [offsets]
      have hkey : key.offsets ⊆ (index target key n).offsets := by simp [offsets]
      rcases Except.of_bind_bind_error h with h | h | ⟨v, k, h⟩
      · exact (explains_of_eval target h).mono htarget
      · exact (explains_of_eval key h).mono hkey
      · exact Explains.index (htarget target.offset_mem_offsets) (hkey key.offset_mem_offsets) h
  | .binary op left right n, x, h => by
      rw [eval] at h
      have hleft : left.offsets ⊆ (binary op left right n).offsets := by simp [offsets]
      have hright : right.offsets ⊆ (binary op left right n).offsets := by simp [offsets]
      cases hm : op.meaning with
      | either | both =>
          rw [hm] at h
          rcases Except.of_bind_error h with h | ⟨v, _, h⟩
          · exact (explains_of_eval left h).mono hleft
          · split at h
            · cases h
            · rcases Except.of_bind_error h with h | ⟨u, _, h⟩
              · exact (explains_of_eval right h).mono hright
              · cases h
      | differing | ordering holds =>
          rw [hm] at h
          rcases Except.of_bind_bind_error h with h | h | ⟨v, u, h⟩
          · exact (explains_of_eval left h).mono hleft
          · exact (explains_of_eval right h).mono hright
          · cases h
      | arithmetic f =>
          rw [hm] at h
          rcases Except.of_bind_bind_error h with h | h | ⟨v, u, h⟩
          · exact (explains_of_eval left h).mono hleft
          · exact (explains_of_eval right h).mono hright
          · exact Explains.arithmetic (offset_mem_offsets _) h
  | .negation operand n, x, h => by
      rw [eval] at h
      rcases Except.of_bind_error h with h | ⟨v, _, h⟩
      · exact (explains_of_eval operand h).mono (List.subset_cons_self ..)
      · cases h
  | .pipe target filter arguments n, x, h => by
      rw [eval] at h
      rcases Except.of_bind_error h with h | ⟨v, _, h⟩
      · exact (explains_of_eval target h).mono (List.subset_cons_self ..)
      · exact Explains.apply (offset_mem_offsets _) h

theorem explains_of_evalAll : (items : List Expr) → {x : EvalError} → evalAll env items = .error x →
    env.filters.Explains (offsetsAll items) x
  | [], x, h => by
      rw [evalAll] at h
      cases h
  | e :: rest, x, h => by
      rw [evalAll] at h
      rcases Except.of_bind_bind_error h with h | h | ⟨v, vs, h⟩
      · exact (explains_of_eval e h).mono (List.subset_append_left ..)
      · exact (explains_of_evalAll rest h).mono (List.subset_append_right ..)
      · cases h

end

end Expr

end Stencil

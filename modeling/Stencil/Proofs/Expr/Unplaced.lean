import Stencil.Expr.Eval
import Stencil.Proofs.Bind
import Stencil.Proofs.Expr.Placement

namespace Stencil

variable {α β : Type}

def Evaluated.Matches (x y : Evaluated α) : Prop :=
  x.mapError EvalError.fault = y.mapError EvalError.fault

namespace Evaluated.Matches

theorem refl (x : Evaluated α) : Matches x x :=
  rfl

theorem symm {x y : Evaluated α} (h : Matches x y) : Matches y x :=
  Eq.symm h

theorem trans {x y z : Evaluated α} (h : Matches x y) (h' : Matches y z) : Matches x z :=
  Eq.trans h h'

theorem bind {x y : Evaluated α} {f g : α → Evaluated β} (h : Matches x y) (hfg : ∀ a, Matches (f a) (g a)) :
    Matches (x >>= f) (y >>= g) := by
  cases x with
  | ok a =>
      obtain rfl := Except.mapError_eq_ok_iff.1 h.symm
      exact hfg a
  | error e =>
      cases y with
      | ok a => cases h
      | error e' => exact congrArg Except.error (Except.error.inj h)

theorem withOffset (x : Evaluated α) (n n' : Nat) :
    @Matches α (x.mapError (·.withOffset n)) (x.mapError (·.withOffset n')) := by
  cases x <;> rfl

theorem cases {x y : Evaluated α} (h : Matches x y) : (∃ a, x = .ok a ∧ y = .ok a) ∨
    ∃ e e', x = .error e ∧ y = .error e' ∧ e.message = e'.message := by
  cases x with
  | ok a => exact .inl ⟨a, rfl, Except.mapError_eq_ok_iff.1 h.symm⟩
  | error e =>
      cases y with
      | ok a => cases h
      | error e' => exact .inr ⟨e, e', rfl, rfl, congrArg EvalFault.message (Except.error.inj h)⟩

end Evaluated.Matches

open Evaluated (Matches)

namespace Value

theorem member_matches (v : Value) (name : String) (n n' : Nat) : Matches (v.member name n) (v.member name n') := by
  unfold member
  by_cases ha : v.isArrayLike
  · rw [if_pos ha, if_pos ha]
    exact .refl _
  rw [if_neg ha, if_neg ha]
  by_cases hm : v.isMapLike
  · rw [if_pos hm, if_pos hm]
    exact .refl _
  rw [if_neg hm, if_neg hm]
  cases v <;> rfl

theorem index_matches (v key : Value) (n n' m m' : Nat) : Matches (v.index key n m) (v.index key n' m') := by
  cases key with
  | int i | string k =>
      rw [index, index]
      split <;> rfl
  | _ => rfl

theorem fitting_matches (i : Int) (n n' : Nat) : Matches (fitting i n) (fitting i n') := by
  rw [fitting, fitting]
  split <;> rfl

theorem onIntegers_matches (op : Arithmetic) (a b : Int) (n n' : Nat) :
    Matches (onIntegers op a b n) (onIntegers op a b n') := by
  cases op with
  | add | subtract | multiply => exact fitting_matches ..
  | divide =>
      rw [onIntegers, onIntegers]
      split
      · rfl
      · exact fitting_matches ..

theorem onDoubles_matches (op : Arithmetic) (a b : Float) (n n' : Nat) :
    Matches (onDoubles op a b n) (onDoubles op a b n') := by
  cases op with
  | add | subtract | multiply => rfl
  | divide =>
      rw [onDoubles, onDoubles]
      split <;> rfl

theorem arithmetic_matches (op : Arithmetic) (symbol : String) (a b : Value) (n n' : Nat) :
    Matches (arithmetic op symbol a b n) (arithmetic op symbol a b n') := by
  unfold arithmetic
  split
  · exact onIntegers_matches ..
  · rfl
  · rfl
  · split
    · exact onDoubles_matches ..
    · rfl

end Value

namespace Expr

variable (env : Environment)

mutual

theorem eval_unplaced : (e : Expr) → Matches (e.eval env) (e.unplaced.eval env)
  | .literal v n => by
      rw [unplaced, eval, eval]
      rfl
  | .array items n => by
      rw [unplaced, eval, eval]
      exact .bind (evalAll_unplaced items) fun vs => .refl _
  | .variable name n => by
      rw [unplaced, eval, eval]
      rfl
  | .member target name n => by
      rw [unplaced, eval, eval]
      exact .bind (eval_unplaced target) fun v => v.member_matches ..
  | .index target key n => by
      rw [unplaced, eval, eval]
      exact .bind (eval_unplaced target) fun v => .bind (eval_unplaced key) fun k => v.index_matches ..
  | .binary op left right n => by
      rw [unplaced, eval, eval]
      cases op.meaning with
      | either | both =>
          refine .bind (eval_unplaced left) fun a => ?_
          split
          · rfl
          · exact .bind (eval_unplaced right) fun b => .refl _
      | differing | ordering =>
          exact .bind (eval_unplaced left) fun a => .bind (eval_unplaced right) fun b => .refl _
      | arithmetic f =>
          exact .bind (eval_unplaced left) fun a => .bind (eval_unplaced right) fun b =>
            Value.arithmetic_matches ..
  | .negation operand n => by
      rw [unplaced, eval, eval]
      exact .bind (eval_unplaced operand) fun v => .refl _
  | .pipe target filter arguments n => by
      rw [unplaced, eval, eval]
      exact .bind (eval_unplaced target) fun v => .withOffset ..

theorem evalAll_unplaced : (items : List Expr) → Matches (evalAll env items) (evalAll env (unplacedAll items))
  | [] => by
      rw [unplacedAll, evalAll]
      rfl
  | e :: rest => by
      rw [unplacedAll, evalAll, evalAll]
      exact .bind (eval_unplaced e) fun v => .bind (evalAll_unplaced rest) fun vs => .refl _

end

/-- Where two expressions differ in offsets only, so do their failures. -/
theorem eval_matches {e f : Expr} (h : f.unplaced = e.unplaced) : Matches (f.eval env) (e.eval env) := by
  refine (eval_unplaced env f).trans ?_
  rw [h]
  exact (eval_unplaced env e).symm

end Expr

end Stencil

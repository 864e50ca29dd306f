import Mathlib.Data.List.TakeWhile
import Stencil.Expr.Eval
import Stencil.Proofs.Expr.Precedence

namespace Stencil

def Fits (n : Int) : Prop :=
  -9223372036854775808 ≤ n ∧ n ≤ 9223372036854775807

instance (n : Int) : Decidable (Fits n) :=
  inferInstanceAs (Decidable (_ ∧ _))

theorem integer?_of_fits {n : Int} (h : Fits n) : integer? n = some (Int64.ofInt n) :=
  if_pos h

theorem integer?_of_not_fits {n : Int} (h : ¬Fits n) : integer? n = none :=
  if_neg h

theorem toInt_ofInt_of_fits {n : Int} (h : Fits n) : (Int64.ofInt n).toInt = n :=
  Int64.toInt_ofInt_of_le h.1 (Int.lt_add_one_of_le h.2)

namespace Value.Arithmetic

def exact : Arithmetic → Int → Int → Int
  | add, a, b => a + b
  | subtract, a, b => a - b
  | multiply, a, b => a * b
  | divide, a, b => a.tdiv b

def isFactor : Arithmetic → Bool
  | add => false
  | subtract => false
  | multiply => true
  | divide => true

def operator : Arithmetic → BinaryOp
  | add => .add
  | subtract => .subtract
  | multiply => .multiply
  | divide => .divide

theorem meaning_operator (f : Arithmetic) : f.operator.meaning = .arithmetic f := by
  cases f <;> rfl

theorem looseness_operator (f : Arithmetic) : f.operator.looseness = if f.isFactor then -1 else 0 := by
  cases f <;> rfl

end Value.Arithmetic

namespace Calculation

open Value (Arithmetic)

structure Term where
  op : Arithmetic
  offset : Nat
  value : Int
  place : Nat

structure Step where
  op : Arithmetic
  offset : Nat
  left : Int
  right : Int

def Step.result (s : Step) : Int :=
  s.op.exact s.left s.right

def Step.failure? (s : Step) : Option EvalError :=
  if s.op = .divide ∧ s.right = 0 then some (EvalFault.divisionByZero.at s.offset)
  else if Fits s.result then none
  else some (EvalFault.overflow.at s.offset)

def Term.isFactor (t : Term) : Bool :=
  t.op.isFactor

def Term.operation (t : Term) : Operation :=
  ⟨t.op.operator, t.offset, .literal (.int (Int64.ofInt t.value)) t.place⟩

def product (a : Int) : List Term → Int
  | [] => a
  | t :: ts => product (t.op.exact a t.value) ts

def productSteps (a : Int) : List Term → List Step
  | [] => []
  | t :: ts => ⟨t.op, t.offset, a, t.value⟩ :: productSteps (t.op.exact a t.value) ts

def sum (a : Int) (ts : List Term) : Int :=
  match ts with
  | [] => a
  | t :: ts =>
      have := length_dropWhile_le Term.isFactor ts
      sum (t.op.exact a (product t.value (ts.takeWhile Term.isFactor))) (ts.dropWhile Term.isFactor)
termination_by ts.length
decreasing_by simp only [List.length_cons]; omega

def sumSteps (a : Int) (ts : List Term) : List Step :=
  match ts with
  | [] => []
  | t :: ts =>
      have := length_dropWhile_le Term.isFactor ts
      let b := product t.value (ts.takeWhile Term.isFactor)
      productSteps t.value (ts.takeWhile Term.isFactor) ++
        ⟨t.op, t.offset, a, b⟩ :: sumSteps (t.op.exact a b) (ts.dropWhile Term.isFactor)
termination_by ts.length
decreasing_by simp only [List.length_cons]; omega

/-- The exact value of a chain, with a quotient by zero taken as zero. -/
def value (first : Int) (ts : List Term) : Int :=
  sum (product first (ts.takeWhile Term.isFactor)) (ts.dropWhile Term.isFactor)

def steps (first : Int) (ts : List Term) : List Step :=
  productSteps first (ts.takeWhile Term.isFactor) ++
    sumSteps (product first (ts.takeWhile Term.isFactor)) (ts.dropWhile Term.isFactor)

def failure? (ss : List Step) : Option EvalError :=
  ss.findSome? Step.failure?

variable {env : Environment} {e l r : Expr} {ss ss' : List Step} {a b : Int} {ts : List Term}

def outcome (ss : List Step) (a : Int) : Evaluated Value :=
  match failure? ss with
  | some x => .error x
  | none => .ok (.int (Int64.ofInt a))

structure Computes (env : Environment) (e : Expr) (ss : List Step) (a : Int) : Prop where
  eval_eq : e.eval env = outcome ss a
  fits : failure? ss = none → Fits a

theorem Computes.literal (env : Environment) (h : Fits a) (n : Nat) :
    Computes env (.literal (.int (Int64.ofInt a)) n) [] a :=
  ⟨rfl, fun _ => h⟩

@[simp]
theorem failure?_append : failure? (ss ++ ss') = (failure? ss).or (failure? ss') :=
  List.findSome?_append

theorem failure?_singleton (s : Step) : failure? [s] = s.failure? := by
  rw [failure?, List.findSome?_cons]
  cases s.failure? <;> rfl

theorem Step.fits_of_failure? {s : Step} (h : s.failure? = none) : Fits s.result := by
  rw [Step.failure?] at h
  split at h
  · cases h
  split at h
  next hf => exact hf
  next => cases h

theorem fitting_eq (s : Step) (hz : s.op = .divide → s.right ≠ 0) :
    Value.fitting s.result s.offset = outcome [s] s.result := by
  rw [outcome, failure?_singleton, Step.failure?, if_neg fun h => hz h.1 h.2, Value.fitting]
  by_cases h : Fits s.result
  · rw [integer?_of_fits h, if_pos h]
  · rw [integer?_of_not_fits h, if_neg h]

theorem onIntegers_eq (s : Step) : Value.onIntegers s.op s.left s.right s.offset = outcome [s] s.result := by
  obtain ⟨op, offset, left, right⟩ := s
  cases op with
  | add => exact fitting_eq ⟨.add, offset, left, right⟩ nofun
  | subtract => exact fitting_eq ⟨.subtract, offset, left, right⟩ nofun
  | multiply => exact fitting_eq ⟨.multiply, offset, left, right⟩ nofun
  | divide =>
      by_cases hz : right = 0
      · rw [outcome, failure?_singleton, Step.failure?, if_pos ⟨rfl, hz⟩]
        exact if_pos hz
      · rw [Value.onIntegers, if_neg hz]
        exact fitting_eq ⟨.divide, offset, left, right⟩ fun _ => hz

theorem Computes.binary (hl : Computes env l ss a) (hr : Computes env r ss' b) (op : Arithmetic) (n : Nat) :
    Computes env (.binary op.operator l r n) (ss ++ (ss' ++ [⟨op, n, a, b⟩])) (op.exact a b) := by
  constructor
  · rw [Expr.eval, op.meaning_operator, hl.eval_eq, hr.eval_eq, outcome, outcome, outcome, failure?_append,
      failure?_append]
    cases hs : failure? ss with
    | some x => rfl
    | none =>
        cases hs' : failure? ss' with
        | some x => rfl
        | none =>
            have hstep := onIntegers_eq ⟨op, n, a, b⟩
            dsimp only [bind, Except.bind]
            rw [Value.arithmetic, toInt_ofInt_of_fits (hl.fits hs), toInt_ofInt_of_fits (hr.fits hs')]
            exact hstep
  · intro h
    rw [failure?_append, failure?_append, Option.or_eq_none_iff, Option.or_eq_none_iff,
      failure?_singleton] at h
    exact Step.fits_of_failure? h.2.2

def productTree (e : Expr) : List Term → Expr
  | [] => e
  | t :: ts => productTree (.binary t.op.operator e t.operation.operand t.offset) ts

def sumTree (e : Expr) (ts : List Term) : Expr :=
  match ts with
  | [] => e
  | t :: ts =>
      have := length_dropWhile_le Term.isFactor ts
      sumTree (.binary t.op.operator e (productTree t.operation.operand (ts.takeWhile Term.isFactor)) t.offset)
        (ts.dropWhile Term.isFactor)
termination_by ts.length
decreasing_by simp only [List.length_cons]; omega

theorem computes_productTree (hts : ∀ t ∈ ts, Fits t.value) (h : Computes env e ss a) :
    Computes env (productTree e ts) (ss ++ productSteps a ts) (product a ts) := by
  induction ts generalizing e ss a with
  | nil =>
      rw [productSteps, List.append_nil]
      exact h
  | cons t ts ih =>
      obtain ⟨ht, hts⟩ := List.forall_mem_cons.1 hts
      have hnext := ih hts (h.binary (.literal env ht t.place) t.op t.offset)
      rw [List.nil_append, List.append_assoc, List.singleton_append] at hnext
      exact hnext

theorem computes_sumTree (hts : ∀ t ∈ ts, Fits t.value) (h : Computes env e ss a) :
    Computes env (sumTree e ts) (ss ++ sumSteps a ts) (sum a ts) := by
  induction e, ts using sumTree.induct generalizing ss a with
  | case1 e =>
      rw [sumSteps, List.append_nil, sumTree, sum]
      exact h
  | case2 e t ts _ ih =>
      obtain ⟨ht, hts⟩ := List.forall_mem_cons.1 hts
      have hfactors : ∀ u ∈ ts.takeWhile Term.isFactor, Fits u.value := fun u hu =>
        hts u (List.takeWhile_subset _ hu)
      have hrest : ∀ u ∈ ts.dropWhile Term.isFactor, Fits u.value := fun u hu =>
        hts u (List.dropWhile_subset _ hu)
      have hright := computes_productTree hfactors (.literal env ht t.place)
      have hnext := ih hrest (h.binary hright t.op t.offset)
      rw [sumTree, sumSteps, sum]
      simpa using hnext

theorem looseness_factor {t : Term} (h : t.isFactor) : t.op.operator.looseness = -1 :=
  t.op.looseness_operator.trans (if_pos h)

theorem looseness_summand {t : Term} (h : ¬t.isFactor) : t.op.operator.looseness = 0 :=
  t.op.looseness_operator.trans (if_neg h)

theorem not_isFactor_of_head? (ts : List Term) : ∀ t ∈ (ts.dropWhile Term.isFactor).head?, ¬t.isFactor := by
  intro t ht
  have hnot := List.head?_dropWhile_not Term.isFactor ts
  rw [ht] at hnot
  simpa using hnot

theorem firstOperand_productTree : (productTree e ts).firstOperand = e.firstOperand := by
  induction ts generalizing e with
  | nil => rfl
  | cons t ts ih => exact ih

theorem chain_productTree : (productTree e ts).chain = e.chain ++ ts.map Term.operation := by
  induction ts generalizing e with
  | nil => exact (List.append_nil _).symm
  | cons t ts ih =>
      rw [productTree, ih, Expr.chain, List.append_assoc]
      rfl

theorem followsPrecedence_productTree (hts : ∀ t ∈ ts, t.isFactor) (he : e.FollowsPrecedence)
    (hroot : ∀ p ∈ e.root?, p.looseness ≤ -1) :
    (productTree e ts).FollowsPrecedence ∧ ∀ p ∈ (productTree e ts).root?, p.looseness ≤ -1 := by
  induction ts generalizing e with
  | nil => exact ⟨he, hroot⟩
  | cons t ts ih =>
      obtain ⟨ht, hts⟩ := List.forall_mem_cons.1 hts
      have hop := looseness_factor ht
      have hright : ∀ p ∈ t.operation.operand.root?, p.looseness < t.op.operator.looseness := nofun
      refine ih hts ⟨fun p hp => hop ▸ hroot p hp, hright, he, trivial⟩ ?_
      rintro p ⟨⟩
      exact Int.le_of_eq hop

theorem firstOperand_sumTree : (sumTree e ts).firstOperand = e.firstOperand := by
  induction e, ts using sumTree.induct with
  | case1 e => rw [sumTree]
  | case2 e t ts _ ih =>
      rw [sumTree, ih]
      rfl

theorem chain_sumTree : (sumTree e ts).chain = e.chain ++ ts.map Term.operation := by
  induction e, ts using sumTree.induct with
  | case1 e => rw [sumTree, List.map_nil, List.append_nil]
  | case2 e t ts _ ih =>
      rw [sumTree, ih, Expr.chain, firstOperand_productTree, chain_productTree, List.append_assoc,
        List.cons_append, List.append_assoc, ← List.map_append, List.takeWhile_append_dropWhile]
      rfl

theorem followsPrecedence_sumTree (hts : ∀ t ∈ ts.head?, ¬t.isFactor) (he : e.FollowsPrecedence)
    (hroot : ∀ p ∈ e.root?, p.looseness ≤ 0) : (sumTree e ts).FollowsPrecedence := by
  induction e, ts using sumTree.induct with
  | case1 e =>
      rw [sumTree]
      exact he
  | case2 e t ts _ ih =>
      have hop := looseness_summand (hts t rfl)
      obtain ⟨hproduct, htight⟩ := followsPrecedence_productTree (e := t.operation.operand)
        (fun u hu => List.mem_takeWhile_imp hu) trivial nofun
      rw [sumTree]
      refine ih (not_isFactor_of_head? ts) ⟨fun p hp => hop ▸ hroot p hp, fun p hp => ?_, he, hproduct⟩ ?_
      · rw [hop]
        exact Int.lt_of_le_of_lt (htight p hp) (by decide)
      · rintro p ⟨⟩
        exact Int.le_of_eq hop

/-- A chain of whole numbers is folded into a sum of products, and its value is exact if no step fails. -/
theorem computes_fold {first : Int} (hfirst : Fits first) (hts : ∀ t ∈ ts, Fits t.value) (n : Nat) :
    Computes env (Operation.fold (.literal (.int (Int64.ofInt first)) n) (ts.map Term.operation))
      (steps first ts) (value first ts) := by
  have hfactors : ∀ t ∈ ts.takeWhile Term.isFactor, Fits t.value := fun t ht =>
    hts t (List.takeWhile_subset _ ht)
  have hrest : ∀ t ∈ ts.dropWhile Term.isFactor, Fits t.value := fun t ht =>
    hts t (List.dropWhile_subset _ ht)
  have hcomputes := computes_sumTree hrest (computes_productTree hfactors (.literal env hfirst n))
  have hfactor : ∀ t ∈ ts.takeWhile Term.isFactor, t.isFactor := fun t ht => List.mem_takeWhile_imp ht
  obtain ⟨hproduct, htight⟩ := followsPrecedence_productTree (e := .literal (.int (Int64.ofInt first)) n)
    hfactor trivial nofun
  have hfollows := followsPrecedence_sumTree (not_isFactor_of_head? ts) hproduct
    fun p hp => Int.le_trans (htight p hp) (by decide)
  have hfold := Operation.fold_of_followsPrecedence hfollows
  rw [firstOperand_sumTree, firstOperand_productTree, chain_sumTree, chain_productTree, List.append_assoc,
    ← List.map_append, List.takeWhile_append_dropWhile] at hfold
  exact hfold ▸ hcomputes

end Calculation

end Stencil

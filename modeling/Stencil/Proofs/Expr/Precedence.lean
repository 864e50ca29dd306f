import Stencil.Proofs.Expr.Soundness
import Stencil.Proofs.Expr.Fold

namespace Stencil

namespace Expr

def root? : Expr → Option BinaryOp
  | .binary op _ _ _ => some op
  | _ => none

def firstOperand : Expr → Expr
  | .binary _ left _ _ => left.firstOperand
  | e => e

def chain : Expr → List Operation
  | .binary op left right n => left.chain ++ ⟨op, n, right.firstOperand⟩ :: right.chain
  | _ => []

/-- On the left of an operator stands one that binds at least as tightly, on its right one that binds more
tightly, if any. -/
def FollowsPrecedence : Expr → Prop
  | .binary op left right _ =>
      (∀ p ∈ left.root?, p.looseness ≤ op.looseness) ∧ (∀ p ∈ right.root?, p.looseness < op.looseness) ∧
        left.FollowsPrecedence ∧ right.FollowsPrecedence
  | _ => True

variable {e : Expr}

theorem root?_eq_none (h : ∀ op left right n, e = .binary op left right n → False) : e.root? = none := by
  cases e with
  | binary op left right n => exact (h op left right n rfl).elim
  | _ => rfl

theorem firstOperand_eq (h : e.root? = none) : e.firstOperand = e := by
  cases e with
  | binary => cases h
  | _ => rfl

theorem chain_eq_nil (h : e.root? = none) : e.chain = [] := by
  cases e with
  | binary => cases h
  | _ => rfl

theorem FollowsPrecedence.of_root? (h : e.root? = none) : e.FollowsPrecedence := by
  cases e with
  | binary => cases h
  | _ => trivial

theorem FollowsPrecedence.chain_le (h : e.FollowsPrecedence) {limit : Int}
    (hroot : ∀ p ∈ e.root?, p.looseness ≤ limit) : ∀ o ∈ e.chain, o.op.looseness ≤ limit := by
  induction e using chain.induct generalizing limit with
  | case1 op left right n ihl ihr =>
      obtain ⟨hl, hr, hleft, hright⟩ := h
      have hop : op.looseness ≤ limit := hroot op rfl
      rw [chain, List.forall_mem_append, List.forall_mem_cons]
      refine ⟨ihl hleft fun p hp => ?_, hop, ihr hright fun p hp => ?_⟩
      · exact Int.le_trans (hl p hp) hop
      · exact Int.le_trans (Int.le_of_lt (hr p hp)) hop
  | case2 e he =>
      rw [chain_eq_nil (root?_eq_none he)]
      exact List.forall_mem_nil _

end Expr

namespace Operation

variable {chain before after : List Operation} {pivot : Operation} {first : Expr}

/-- The pivot is the last of the loosest operators. -/
theorem splitLoosest_eq_some_iff : splitLoosest chain = some (before, pivot, after) ↔
    chain = before ++ pivot :: after ∧ (∀ o ∈ before, o.op.looseness ≤ pivot.op.looseness) ∧
      ∀ o ∈ after, o.op.looseness < pivot.op.looseness := by
  constructor
  · intro h
    refine ⟨eq_append_of_splitLoosest h, ?_⟩
    induction chain generalizing before pivot after with
    | nil => cases h
    | cons o rest ih =>
        rw [splitLoosest] at h
        split at h
        next hnone =>
          obtain rfl := eq_nil_of_splitLoosest hnone
          cases h
          exact ⟨List.forall_mem_nil _, List.forall_mem_nil _⟩
        next b p a hsome =>
          obtain ⟨hb, ha⟩ := ih hsome
          split at h
          next hlt =>
            cases h
            refine ⟨List.forall_mem_nil _, ?_⟩
            rw [eq_append_of_splitLoosest hsome, List.forall_mem_append, List.forall_mem_cons]
            exact ⟨fun o ho => Int.lt_of_le_of_lt (hb o ho) hlt, hlt, fun o ho => Int.lt_trans (ha o ho) hlt⟩
          next hle =>
            cases h
            exact ⟨List.forall_mem_cons.2 ⟨Int.not_lt.1 hle, hb⟩, ha⟩
  · rintro ⟨rfl, hb, ha⟩
    induction before with
    | nil =>
        rw [List.nil_append, splitLoosest]
        split
        next hnone => rw [eq_nil_of_splitLoosest hnone]
        next b p a hsome =>
          have hp : p ∈ after := by
            rw [eq_append_of_splitLoosest hsome]
            exact List.mem_append_right b List.mem_cons_self
          rw [if_pos (ha p hp)]
    | cons o before ih =>
        obtain ⟨ho, hb⟩ := List.forall_mem_cons.1 hb
        rw [List.cons_append, splitLoosest, ih hb]
        exact if_neg (Int.not_lt.2 ho)

/-- A fold has an operator of its chain at the root, if it has one at all. -/
theorem exists_of_root?_fold (hfirst : first.root? = none) {p : BinaryOp} (hp : p ∈ (fold first chain).root?) :
    ∃ o ∈ chain, o.op = p := by
  cases hs : splitLoosest chain with
  | none =>
      rw [fold_of_none hs, hfirst] at hp
      cases hp
  | some parts =>
      obtain ⟨before, pivot, after⟩ := parts
      rw [fold_of_some hs] at hp
      refine ⟨pivot, ?_, Option.some.inj hp⟩
      rw [eq_append_of_splitLoosest hs]
      exact List.mem_append_right before List.mem_cons_self

theorem firstOperand_fold (hfirst : first.root? = none) : (fold first chain).firstOperand = first := by
  induction first, chain using fold.induct with
  | case1 first chain h => rw [fold_of_none h, Expr.firstOperand_eq hfirst]
  | case2 first chain before pivot after h _ ih_before ih_after =>
      rw [fold_of_some h, Expr.firstOperand, ih_before hfirst]

theorem chain_fold (hfirst : first.root? = none) (hchain : ∀ o ∈ chain, o.operand.root? = none) :
    (fold first chain).chain = chain := by
  induction first, chain using fold.induct with
  | case1 first chain h => rw [fold_of_none h, Expr.chain_eq_nil hfirst, eq_nil_of_splitLoosest h]
  | case2 first chain before pivot after h _ ih_before ih_after =>
      have he := eq_append_of_splitLoosest h
      rw [he, List.forall_mem_append, List.forall_mem_cons] at hchain
      obtain ⟨hbefore, hpivot, hafter⟩ := hchain
      rw [fold_of_some h, Expr.chain, ih_before hfirst hbefore, ih_after hpivot hafter,
        firstOperand_fold hpivot, he]

theorem followsPrecedence_fold (hfirst : first.root? = none) (hchain : ∀ o ∈ chain, o.operand.root? = none) :
    (fold first chain).FollowsPrecedence := by
  induction first, chain using fold.induct with
  | case1 first chain h =>
      rw [fold_of_none h]
      exact .of_root? hfirst
  | case2 first chain before pivot after h _ ih_before ih_after =>
      obtain ⟨he, hb, ha⟩ := splitLoosest_eq_some_iff.1 h
      rw [he, List.forall_mem_append, List.forall_mem_cons] at hchain
      obtain ⟨hbefore, hpivot, hafter⟩ := hchain
      rw [fold_of_some h]
      refine ⟨fun p hp => ?_, fun p hp => ?_, ih_before hfirst hbefore, ih_after hpivot hafter⟩
      · obtain ⟨o, ho, rfl⟩ := exists_of_root?_fold hfirst hp
        exact hb o ho
      · obtain ⟨o, ho, rfl⟩ := exists_of_root?_fold hpivot hp
        exact ha o ho

/-- A tree that follows precedence is split where its root is. -/
theorem fold_of_followsPrecedence {e : Expr} (h : e.FollowsPrecedence) : fold e.firstOperand e.chain = e := by
  induction e using Expr.chain.induct with
  | case1 op left right n ihl ihr =>
      obtain ⟨hl, hr, hleft, hright⟩ := h
      have hsplit : splitLoosest (Expr.binary op left right n).chain =
          some (left.chain, ⟨op, n, right.firstOperand⟩, right.chain) := by
        refine splitLoosest_eq_some_iff.2 ⟨rfl, hleft.chain_le hl, fun o ho => ?_⟩
        have hle : o.op.looseness ≤ op.looseness - 1 :=
          hright.chain_le (fun p hp => Int.le_sub_one_of_lt (hr p hp)) o ho
        exact Int.lt_of_le_sub_one hle
      rw [fold_of_some hsplit, ihr hright]
      show Expr.binary op (fold left.firstOperand left.chain) right n = _
      rw [ihl hleft]
  | case2 e he =>
      have hnone := Expr.root?_eq_none he
      rw [Expr.chain_eq_nil hnone, Expr.firstOperand_eq hnone, fold_of_none rfl]

/-- Precedence climbing. An operand takes the operators behind it that are not looser than `limit`, each with
what its own right operand takes of the operators that bind more tightly. -/
def climb (limit : Int) (left : Expr) (chain : List Operation) : Expr × NotLonger chain :=
  match chain with
  | [] => (left, ⟨[], Nat.le_refl _⟩)
  | o :: rest =>
      if o.op.looseness ≤ limit then
        let (right, ⟨more, hm⟩) := climb (o.op.looseness - 1) o.operand rest
        let (e, ⟨kept, hk⟩) := climb limit (.binary o.op left right o.offset) more
        (e, ⟨kept, Nat.le_succ_of_le (Nat.le_trans hk hm)⟩)
      else (left, ⟨o :: rest, Nat.le_refl _⟩)
termination_by chain.length
decreasing_by all_goals (simp only [List.length_cons]; omega)

structure Climbed (limit : Int) (left : Expr) (chain : List Operation) (e : Expr) (rest : List Operation) :
    Prop where
  followsPrecedence : e.FollowsPrecedence
  firstOperand_eq : e.firstOperand = left.firstOperand
  chain_eq : e.chain ++ rest = left.chain ++ chain
  root_le : ∀ p ∈ e.root?, p.looseness ≤ limit
  lt_rest : ∀ o ∈ rest.head?, limit < o.op.looseness

/-- The induction carries that the operator at the root of what is there already is not looser than the next. -/
theorem climbed_climb (limit : Int) {left : Expr} (hleft : left.FollowsPrecedence)
    (hchain : ∀ o ∈ chain, o.operand.root? = none) (hlimit : ∀ p ∈ left.root?, p.looseness ≤ limit)
    (hnext : ∀ o ∈ chain.head?, ∀ p ∈ left.root?, p.looseness ≤ o.op.looseness) :
    Climbed limit left chain (climb limit left chain).1 (climb limit left chain).2.1 := by
  induction limit, left, chain using climb.induct with
  | case1 limit left =>
      rw [climb]
      exact ⟨hleft, rfl, rfl, hlimit, fun o ho => nomatch ho⟩
  | case2 limit left o rest hle right more hm hclimb e kept hk hclimb' ihr ihe =>
      obtain ⟨hoperand, hrest⟩ := List.forall_mem_cons.1 hchain
      have hright : Climbed (o.op.looseness - 1) o.operand rest right more := by
        rw [hclimb] at ihr
        exact ihr (.of_root? hoperand) hrest (by simp [hoperand]) (by simp [hoperand])
      have hrest_eq : right.chain ++ more = rest := by
        rw [hright.chain_eq, Expr.chain_eq_nil hoperand, List.nil_append]
      have hmore : ∀ o ∈ more, o.operand.root? = none := by
        rw [← hrest_eq] at hrest
        exact (List.forall_mem_append.1 hrest).2
      have hnode : (Expr.binary o.op left right o.offset).FollowsPrecedence :=
        ⟨hnext o rfl, fun p hp => Int.lt_of_le_sub_one (hright.root_le p hp), hleft,
          hright.followsPrecedence⟩
      have hfit : ∀ q ∈ more.head?, ∀ p ∈ (Expr.binary o.op left right o.offset).root?,
          p.looseness ≤ q.op.looseness := by
        rintro q hq p ⟨⟩
        exact Int.le_of_sub_one_lt (hright.lt_rest q hq)
      have he : Climbed limit (.binary o.op left right o.offset) more e kept := by
        rw [hclimb'] at ihe
        refine ihe hnode hmore ?_ hfit
        rintro p ⟨⟩
        exact hle
      rw [climb, if_pos hle, hclimb]
      dsimp only
      rw [hclimb']
      refine ⟨he.followsPrecedence, he.firstOperand_eq, ?_, he.root_le, he.lt_rest⟩
      rw [he.chain_eq, Expr.chain, List.append_assoc, List.cons_append, hrest_eq,
        hright.firstOperand_eq, Expr.firstOperand_eq hoperand]
  | case3 limit left o rest hgt =>
      rw [climb, if_neg hgt]
      refine ⟨hleft, rfl, rfl, hlimit, fun p hp => ?_⟩
      cases hp
      exact Int.not_le.1 hgt

theorem climb_or (hfirst : first.root? = none) (hchain : ∀ o ∈ chain, o.operand.root? = none) :
    (climb BinaryOp.or.looseness first chain).1 = fold first chain ∧
      (climb BinaryOp.or.looseness first chain).2.1 = [] := by
  have hclimbed := climbed_climb BinaryOp.or.looseness (.of_root? hfirst) hchain
    (by simp [hfirst]) (by simp [hfirst])
  have hrest : (climb BinaryOp.or.looseness first chain).2.1 = [] := by
    cases h : (climb BinaryOp.or.looseness first chain).2.1 with
    | nil => rfl
    | cons o rest =>
        have hlt := hclimbed.lt_rest o (by rw [h]; rfl)
        have hle : o.op.looseness ≤ BinaryOp.or.looseness := by cases o.op <;> decide
        exact absurd hle (Int.not_le.2 hlt)
  refine ⟨?_, hrest⟩
  have he := fold_of_followsPrecedence hclimbed.followsPrecedence
  have hops := hclimbed.chain_eq
  rw [hrest, List.append_nil, Expr.chain_eq_nil hfirst, List.nil_append] at hops
  rw [hclimbed.firstOperand_eq, Expr.firstOperand_eq hfirst, hops] at he
  exact he.symm

end Operation

namespace Expr

theorem Accesses.root?_eq_none {ts : List Token} {e e' : Expr} (h : Accesses e ts e') (he : e.root? = none) :
    e'.root? = none := by
  induction hlen : ts.length using Nat.strongRecOn generalizing ts e with
  | ind n ih =>
      subst hlen
      cases h with
      | nil => exact he
      | member _ _ hr => exact ih _ (by simp only [List.length_cons]; omega) hr rfl rfl
      | index _ _ _ hr =>
          exact ih _ (by simp only [List.length_cons, List.length_append]; omega) hr rfl rfl

/-- There are no parentheses, so an operand is never a tree of operators. -/
theorem root?_of_operand {ts : List Token} {stop : Nat} {e : Expr} {rest : Shorter ts}
    (h : operand ts stop = .ok (e, rest)) : e.root? = none := by
  obtain ⟨front, -, hoperand⟩ := operand_sound ts stop e rest h
  cases hoperand with
  | negation => rfl
  | primary hp ha =>
      refine ha.root?_eq_none ?_
      cases hp <;> rfl

end Expr

namespace Operation

variable {chain : List Operation} {first : Expr}

/-- A chain of operands that are no trees of operators themselves, as all operands that are read, is folded into
the one tree that has these operands and operators in their order, an operator that binds at least as tightly
on the left of each operator and one that binds more tightly on its right. Precedence climbing gives the same
tree and leaves nothing of the chain. -/
theorem fold_precedence (hfirst : first.root? = none) (hchain : ∀ o ∈ chain, o.operand.root? = none) :
    (fold first chain).firstOperand = first ∧ (fold first chain).chain = chain ∧
      (fold first chain).FollowsPrecedence ∧
        (∀ e : Expr, e.firstOperand = first → e.chain = chain → e.FollowsPrecedence → e = fold first chain) ∧
          (climb BinaryOp.or.looseness first chain).1 = fold first chain ∧
            (climb BinaryOp.or.looseness first chain).2.1 = [] ∧
              ∀ ts stop e rest, Expr.operand ts stop = .ok (e, rest) → e.root? = none := by
  obtain ⟨hclimb, hrest⟩ := climb_or hfirst hchain
  refine ⟨firstOperand_fold hfirst, chain_fold hfirst hchain, followsPrecedence_fold hfirst hchain, ?_,
    hclimb, hrest, fun _ _ _ _ => Expr.root?_of_operand⟩
  rintro e rfl rfl he
  exact (fold_of_followsPrecedence he).symm

def mixedChain : List Operation :=
  [⟨.subtract, 2, .literal (.int 2) 4⟩, ⟨.multiply, 6, .variable "x" 8⟩,
    ⟨.subtract, 10, .literal (.int 4) 12⟩, ⟨.less, 14, .literal (.int 5) 16⟩,
    ⟨.equal, 18, .variable "y" 21⟩, ⟨.and, 23, .literal (.int 7) 27⟩, ⟨.xor, 29, .literal (.int 8) 33⟩]

def mixedTree : Expr :=
  .binary .xor
    (.binary .and
      (.binary .equal
        (.binary .less
          (.binary .subtract
            (.binary .subtract (.literal (.int 1) 0)
              (.binary .multiply (.literal (.int 2) 4) (.variable "x" 8) 6) 2)
            (.literal (.int 4) 12) 10)
          (.literal (.int 5) 16) 14)
        (.variable "y" 21) 18)
      (.literal (.int 7) 27) 23)
    (.literal (.int 8) 33) 29

theorem fold_precedence_mixed :
    (Expr.literal (.int 1) 0).root? = none ∧ (∀ o ∈ mixedChain, o.operand.root? = none) ∧
      mixedTree.FollowsPrecedence ∧
        (climb BinaryOp.or.looseness (.literal (.int 1) 0) mixedChain).1 = mixedTree := by
  have hchain : ∀ o ∈ mixedChain, o.operand.root? = none := by simp [mixedChain, Expr.root?]
  have hfold : fold (.literal (.int 1) 0) mixedChain = mixedTree := by cbv
  have hfirst : (Expr.literal (.int 1) 0).root? = none := rfl
  obtain ⟨-, -, hfollows, -, hclimb, -⟩ := fold_precedence hfirst hchain
  rw [hfold] at hfollows hclimb
  exact ⟨hfirst, hchain, hfollows, hclimb⟩

end Operation

end Stencil

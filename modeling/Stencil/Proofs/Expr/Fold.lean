import Mathlib.Data.List.Forall2
import Stencil.Expr.Fold

namespace Stencil.Operation

theorem eq_nil_of_splitLoosest {chain : List Operation} (h : splitLoosest chain = none) : chain = [] := by
  cases chain with
  | nil => rfl
  | cons o rest =>
      rw [splitLoosest] at h
      split at h
      next => cases h
      next => split at h <;> cases h

theorem fold_of_none {first : Expr} {chain : List Operation} (h : splitLoosest chain = none) :
    fold first chain = first := by
  rw [fold]
  split
  next => rfl
  next h' => rw [h] at h'; cases h'

theorem fold_of_some {first : Expr} {chain before after : List Operation} {pivot : Operation}
    (h : splitLoosest chain = some (before, pivot, after)) : fold first chain =
      .binary pivot.op (fold first before) (fold pivot.operand after) pivot.offset := by
  rw [fold]
  split
  next h' => rw [h] at h'; cases h'
  next h' =>
    rw [h] at h'
    cases h'
    rfl

section

variable {R : Operation → Operation → Prop} {S : Expr → Expr → Prop} {chain chain' : List Operation}

theorem splitLoosest_related (hop : ∀ {o o'}, R o o' → o'.op = o.op) (h : List.Forall₂ R chain chain') :
    Option.Rel (fun p p' => List.Forall₂ R p.1 p'.1 ∧ R p.2.1 p'.2.1 ∧ List.Forall₂ R p.2.2 p'.2.2)
      (splitLoosest chain) (splitLoosest chain') := by
  induction h with
  | nil => exact .none
  | @cons o o' rest rest' ho hrest ih =>
      rw [splitLoosest, splitLoosest]
      generalize splitLoosest rest = parts, splitLoosest rest' = parts' at ih
      cases ih with
      | none => exact .some ⟨.nil, ho, .nil⟩
      | some hparts =>
          obtain ⟨hbefore, hpivot, hafter⟩ := hparts
          dsimp only
          rw [hop hpivot, hop ho]
          split
          · exact .some ⟨.nil, ho, hrest⟩
          · exact .some ⟨.cons ho hbefore, hpivot, hafter⟩

/-- Chains of related operations are folded alike. -/
theorem fold_related (hop : ∀ {o o'}, R o o' → o'.op = o.op) (hoperand : ∀ {o o'}, R o o' → S o.operand o'.operand)
    (hbinary : ∀ {o o' l l' r r'}, R o o' → S l l' → S r r' →
      S (.binary o.op l r o.offset) (.binary o'.op l' r' o'.offset))
    {first first' : Expr} (hfirst : S first first') (h : List.Forall₂ R chain chain') :
    S (fold first chain) (fold first' chain') := by
  have hsplit := splitLoosest_related hop h
  induction first, chain using fold.induct generalizing first' chain' with
  | case1 first chain hnone =>
      rw [hnone] at hsplit
      generalize hnone' : splitLoosest chain' = parts' at hsplit
      cases hsplit
      rwa [fold_of_none hnone, fold_of_none hnone']
  | case2 first chain before pivot after hsome _ ih_before ih_after =>
      rw [hsome] at hsplit
      generalize hsome' : splitLoosest chain' = parts' at hsplit
      cases hsplit with
      | some hparts =>
          obtain ⟨hbefore, hpivot, hafter⟩ := hparts
          rw [fold_of_some hsome, fold_of_some hsome']
          exact hbinary hpivot (ih_before hfirst hbefore (splitLoosest_related hop hbefore))
            (ih_after (hoperand hpivot) hafter (splitLoosest_related hop hafter))

end

end Stencil.Operation

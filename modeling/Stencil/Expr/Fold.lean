import Stencil.Expr.Basic

namespace Stencil

/-- An operator with the operand on its right. -/
structure Operation where
  op : BinaryOp
  offset : Nat
  operand : Expr
deriving Repr

namespace Operation

def splitLoosest : List Operation → Option (List Operation × Operation × List Operation)
  | [] => none
  | o :: rest =>
      match splitLoosest rest with
      | none => some ([], o, [])
      | some (before, pivot, after) =>
          if pivot.op.looseness < o.op.looseness then some ([], o, rest)
          else some (o :: before, pivot, after)

theorem eq_append_of_splitLoosest {chain before after : List Operation} {pivot : Operation}
    (h : splitLoosest chain = some (before, pivot, after)) : chain = before ++ pivot :: after := by
  induction chain generalizing before pivot after with
  | nil => simp [splitLoosest] at h
  | cons o rest ih =>
      unfold splitLoosest at h
      split at h
      next hn =>
        cases rest with
        | nil =>
            simp only [Option.some.injEq, Prod.mk.injEq] at h
            obtain ⟨rfl, rfl, rfl⟩ := h
            rfl
        | cons p ps =>
            unfold splitLoosest at hn
            split at hn
            · simp at hn
            · split at hn <;> simp at hn
      next b p a hs =>
        split at h
        · simp only [Option.some.injEq, Prod.mk.injEq] at h
          obtain ⟨rfl, rfl, rfl⟩ := h
          rfl
        · simp only [Option.some.injEq, Prod.mk.injEq] at h
          obtain ⟨rfl, rfl, rfl⟩ := h
          simp [ih hs]

def fold (first : Expr) (chain : List Operation) : Expr :=
  match h : splitLoosest chain with
  | none => first
  | some (before, pivot, after) =>
      have : chain.length = before.length + (after.length + 1) := by
        rw [eq_append_of_splitLoosest h]
        simp
      .binary pivot.op (fold first before) (fold pivot.operand after) pivot.offset
termination_by chain.length
decreasing_by all_goals omega

end Operation

end Stencil

import Stencil.Proofs.Node.Building

namespace Stencil

open Instruction (Fresh mark)

namespace Draft

variable {is js : List Instruction} {i : Instruction} {d d' : Draft}

theorem place_eq (d : Draft) (n : Node) : d.place n = match d.levels with
    | [] => ⟨[], d.nodes ++ [n]⟩
    | l :: rest => ⟨{ l with body := l.body ++ [n] } :: rest, d.nodes⟩ := by
  obtain ⟨levels, nodes⟩ := d
  cases levels <;> rfl

theorem foldl_place_outside (before ns : List Node) :
    ns.foldl place ⟨[], before⟩ = ⟨[], before ++ ns⟩ := by
  induction ns generalizing before with
  | nil => rw [List.append_nil, List.foldl_nil]
  | cons n ns ih =>
      rw [List.foldl_cons, place_eq, ih, List.append_assoc]
      rfl

theorem foldl_place_inside (l : Level) (rest : List Level) (before ns : List Node) :
    ns.foldl place ⟨l :: rest, before⟩ = ⟨{ l with body := l.body ++ ns } :: rest, before⟩ := by
  induction ns generalizing l with
  | nil => rw [List.append_nil, List.foldl_nil]
  | cons n ns ih =>
      rw [List.foldl_cons, place_eq, ih, List.append_assoc]
      rfl

theorem run_block {block : Block} {l : Level} {o o' : Nat} {inner rest : List Instruction} {kind : BlockKind}
    (hinner : inner.foldlM apply ⟨⟨block, o, []⟩ :: d.levels, d.nodes⟩ = .ok ⟨l :: d.levels, d.nodes⟩)
    (hl : l.block.kind = kind) :
    (.begin block o :: (inner ++ .finish kind o' :: rest)).foldlM apply d =
      rest.foldlM apply (d.place l.toNode) := by
  rw [List.foldlM_cons]
  show List.foldlM apply (⟨⟨block, o, []⟩ :: d.levels, d.nodes⟩ : Draft) _ = _
  rw [List.foldlM_append, hinner]
  show List.foldlM apply (⟨l :: d.levels, d.nodes⟩ : Draft) _ = _
  have hclose : close ⟨l :: d.levels, d.nodes⟩ kind = some (d.place l.toNode) := if_pos hl
  rw [List.foldlM_cons, apply, hclose]
  rfl

end Draft

open Draft (apply place)

mutual

theorem Derives.run {is : List Instruction} {ns : List Node} :
    Derives is ns → ∀ d : Draft, is.foldlM apply d = .ok (ns.foldl place d)
  | .nil => fun d => rfl
  | .place hr => fun d => hr.run (d.place _)
  | @Derives.capture name o _ _ _ _ _ hb hr => by
      intro d
      have hinner := hb.run ⟨⟨.capture name, o, []⟩ :: d.levels, d.nodes⟩
      rw [Draft.foldl_place_inside] at hinner
      exact (Draft.run_block hinner rfl).trans (hr.run _)
  | @Derives.loop name source o _ _ _ _ _ hb hr => by
      intro d
      have hinner := hb.run ⟨⟨.loop name source, o, []⟩ :: d.levels, d.nodes⟩
      rw [Draft.foldl_place_inside] at hinner
      exact (Draft.run_block hinner rfl).trans (hr.run _)
  | .branch ha hr => by
      intro d
      exact (Draft.run_block (ha.run _ d) rfl).trans (hr.run _)

theorem DerivesArms.run {first last : Expr} {hasElse : Bool} {is : List Instruction}
    {arms : List (Expr × List Node)} {body : List Node} :
    DerivesArms first hasElse is arms last body → ∀ (o : Nat) (d : Draft),
      is.foldlM apply ⟨⟨.branch [] first false, o, []⟩ :: d.levels, d.nodes⟩ =
        .ok ⟨⟨.branch arms last hasElse, o, body⟩ :: d.levels, d.nodes⟩
  | .first hb => by
      intro o d
      rw [hb.run, Draft.foldl_place_inside]
      rfl
  | .elsif ha hb => by
      intro o d
      rw [List.foldlM_append, ha.run o d]
      exact (hb.run _).trans (congrArg Except.ok (Draft.foldl_place_inside _ _ _ _))
  | .otherwise ha hb => by
      intro o d
      rw [List.foldlM_append, ha.run o d]
      exact (hb.run _).trans (congrArg Except.ok (Draft.foldl_place_inside _ _ _ _))

end

/-- The nodes of a derivation are the only ones. -/
theorem run_empty_iff {is : List Instruction} {ns : List Node} (hf : ∀ i ∈ is, Fresh i) :
    is.foldlM apply Draft.empty = .ok ⟨[], ns⟩ ↔ Derives is ns := by
  constructor
  · intro h
    have hb := (Built.outside Derives.nil).run hf h
    cases hb with
    | outside h => exact h
  · intro h
    rw [h.run, Draft.empty, Draft.foldl_place_outside]
    rfl

end Stencil

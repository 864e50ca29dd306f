import Stencil.Proofs.Node.Derivation

namespace Stencil

open Instruction (Fresh mark)

inductive Filled : Block → List Instruction → Level → Prop
  | capture {name : String} {o : Nat} {is : List Instruction} {body : List Node} :
      Derives is body → Filled (.capture name) is ⟨.capture name, o, body⟩
  | loop {name : String} {source : Expr} {o : Nat} {is : List Instruction} {body : List Node} :
      Derives is body → Filled (.loop name source) is ⟨.loop name source, o, body⟩
  | branch {first last : Expr} {hasElse : Bool} {o : Nat} {is : List Instruction}
      {arms : List (Expr × List Node)} {body : List Node} :
      DerivesArms first hasElse is arms last body →
        Filled (.branch [] first false) is ⟨.branch arms last hasElse, o, body⟩

inductive Built : List Instruction → Draft → Prop
  | outside {is : List Instruction} {ns : List Node} : Derives is ns → Built is ⟨[], ns⟩
  | inside {is inner : List Instruction} {block : Block} {l : Level} {levels : List Level}
      {ns : List Node} :
      Built is ⟨levels, ns⟩ → Filled block inner l →
        Built (is ++ .begin block l.offset :: inner) ⟨l :: levels, ns⟩

variable {is js : List Instruction} {ns : List Node} {block : Block} {l : Level} {d d' : Draft}
  {i : Instruction}

theorem Filled.begun {o : Nat} (h : Fresh (.begin block o)) : Filled block [] ⟨block, o, []⟩ := by
  cases block with
  | capture name => exact .capture .nil
  | loop name source => exact .loop .nil
  | branch arms condition hasElse =>
      obtain ⟨rfl, rfl⟩ := h
      exact .branch (.first .nil)

theorem DerivesArms.append {first last : Expr} {hasElse : Bool} {arms : List (Expr × List Node)}
    {body : List Node} (h : DerivesArms first hasElse is arms last body) (hj : Derives js ns) :
    DerivesArms first hasElse (is ++ js) arms last (body ++ ns) := by
  cases h with
  | first hb => exact .first (hb.append hj)
  | elsif ha hb =>
      rw [List.append_assoc, List.cons_append]
      exact .elsif ha (hb.append hj)
  | otherwise ha hb =>
      rw [List.append_assoc, List.cons_append]
      exact .otherwise ha (hb.append hj)

theorem Filled.append (h : Filled block is l) (hj : Derives js ns) :
    Filled block (is ++ js) { l with body := l.body ++ ns } := by
  cases h with
  | capture hb => exact .capture (hb.append hj)
  | loop hb => exact .loop (hb.append hj)
  | branch ha => exact .branch (ha.append hj)

theorem Filled.derives (h : Filled block is l) (o : Nat) :
    Derives (.begin block l.offset :: (is ++ [.finish l.block.kind o])) [l.toNode] := by
  cases h with
  | capture hb => exact .capture hb .nil
  | loop hb => exact .loop hb .nil
  | branch ha => exact .branch ha .nil

theorem Built.place {n : Node} (h : Built is d) (hj : Derives js [n]) : Built (is ++ js) (d.place n) := by
  cases h with
  | outside h => exact .outside (h.append hj)
  | inside h hl =>
      rw [List.append_assoc, List.cons_append]
      exact .inside h (hl.append hj)

theorem Built.nextArm {condition : Expr} {hasElse : Bool} (h : Built is d)
    (hd : d.nextArm condition hasElse = some d')
    (hi : ∀ {first last : Expr} {is : List Instruction} {arms : List (Expr × List Node)} {body : List Node},
      DerivesArms first false is arms last body →
        DerivesArms first hasElse (is ++ [i]) (arms ++ [(last, body)]) condition []) :
    Built (is ++ [i]) d' := by
  rw [Draft.nextArm] at hd
  split at hd
  next arms current o body rest hlevels =>
    obtain rfl := Option.some.inj hd
    cases h with
    | outside h => cases hlevels
    | inside h hl =>
        obtain ⟨rfl, rfl⟩ := List.cons.inj hlevels
        cases hl with
        | branch ha =>
            rw [List.append_assoc, List.cons_append]
            exact .inside h (.branch (hi ha))
  next => cases hd

theorem Built.close {kind : BlockKind} {o : Nat} (h : Built is d) (hd : d.close kind = some d') :
    Built (is ++ [.finish kind o]) d' := by
  rw [Draft.close] at hd
  split at hd
  next l rest hlevels =>
    split at hd
    next hk =>
      obtain rfl := Option.some.inj hd
      cases h with
      | outside h => cases hlevels
      | inside h hl =>
          obtain ⟨rfl, rfl⟩ := List.cons.inj hlevels
          rw [List.append_assoc, ← hk]
          exact h.place (hl.derives o)
    next => cases hd
  next => cases hd

theorem Draft.of_orUnexpected_ok {keyword : String} {o : Nat} {d? : Option Draft}
    (h : orUnexpected keyword o d? = .ok d) : d? = some d := by
  cases d? with
  | none => cases h
  | some d' => exact congrArg some (Except.ok.inj h)

theorem Built.apply (h : Built is d) (hi : Fresh i) (hd : d.apply i = .ok d') : Built (is ++ [i]) d' := by
  cases i with
  | place n =>
      obtain rfl := Except.ok.inj hd
      exact h.place (.place .nil)
  | begin block o =>
      obtain rfl := Except.ok.inj hd
      exact .inside h (.begun hi)
  | otherwiseIf condition o =>
      exact h.nextArm (Draft.of_orUnexpected_ok hd) fun ha => .elsif ha .nil
  | otherwise o =>
      exact h.nextArm (Draft.of_orUnexpected_ok hd) fun ha => .otherwise ha .nil
  | finish kind o => exact h.close (Draft.of_orUnexpected_ok hd)

/-- The induction is on the instructions still to come. -/
theorem Built.run (h : Built is d) (hf : ∀ i ∈ js, Fresh i) (hd : js.foldlM Draft.apply d = .ok d') :
    Built (is ++ js) d' := by
  induction js generalizing is d with
  | nil =>
      obtain rfl := Except.ok.inj hd
      rw [List.append_nil]
      exact h
  | cons j js ih =>
      rw [List.foldlM_cons] at hd
      obtain ⟨d₁, hj, hd⟩ := Except.of_bind_ok hd
      obtain ⟨hfj, hf⟩ := List.forall_mem_cons.1 hf
      have hmore := ih (h.apply hfj hj) hf hd
      rw [List.append_assoc] at hmore
      exact hmore

end Stencil

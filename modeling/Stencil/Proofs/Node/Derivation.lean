import Stencil.Proofs.Node.Spelling

namespace Stencil

open Instruction (mark)

theorem Derives.append {is js : List Instruction} {ns ms : List Node} :
    Derives is ns → Derives js ms → Derives (is ++ js) (ns ++ ms)
  | .nil, h => h
  | .place hr, h => .place (hr.append h)
  | .capture hb hr, h => by
      rw [List.cons_append, List.append_assoc, List.cons_append]
      exact .capture hb (hr.append h)
  | .loop hb hr, h => by
      rw [List.cons_append, List.append_assoc, List.cons_append]
      exact .loop hb (hr.append h)
  | .branch ha hr, h => by
      rw [List.cons_append, List.append_assoc, List.cons_append]
      exact .branch ha (hr.append h)

mutual

theorem Derives.sentence {is : List Instruction} {ns : List Node} :
    Derives is ns → Mark.Sentence (is.map mark)
  | .nil => .nil
  | .place hr => .plain hr.sentence
  | .capture hb hr => by
      rw [List.map_cons, List.map_append, List.map_cons]
      exact .block (.body hb.sentence) hr.sentence
  | .loop hb hr => by
      rw [List.map_cons, List.map_append, List.map_cons]
      exact .block (.body hb.sentence) hr.sentence
  | .branch ha hr => by
      rw [List.map_cons, List.map_append, List.map_cons]
      exact .block ha.inside hr.sentence

theorem DerivesArms.inside {first last : Expr} {hasElse : Bool} {is : List Instruction}
    {arms : List (Expr × List Node)} {body : List Node} :
    DerivesArms first hasElse is arms last body → Mark.Inside .branch hasElse (is.map mark)
  | .first hb => .body hb.sentence
  | .elsif ha hb => by
      rw [List.map_append, List.map_cons]
      exact .elsif ha.inside hb.sentence
  | .otherwise ha hb => by
      rw [List.map_append, List.map_cons]
      exact .otherwise ha.inside hb.sentence

end

namespace Instruction

theorem exists_begin_of_mark {i : Instruction} {kind : BlockKind} (h : i.mark = .opens kind) :
    ∃ block o, i = .begin block o ∧ block.kind = kind := by
  cases i with
  | begin block o => exact ⟨block, o, rfl, Mark.opens.inj h⟩
  | place | otherwiseIf | otherwise | finish => cases h

theorem exists_finish_of_mark {i : Instruction} {kind : BlockKind} (h : i.mark = .closes kind) :
    ∃ o, i = .finish kind o := by
  cases i with
  | finish k o =>
      obtain rfl : k = kind := Mark.closes.inj h
      exact ⟨o, rfl⟩
  | place | begin | otherwiseIf | otherwise => cases h

theorem exists_place_of_mark {i : Instruction} (h : i.mark = .plain) : ∃ n, i = .place n := by
  cases i with
  | place n => exact ⟨n, rfl⟩
  | begin | otherwiseIf | otherwise | finish => cases h

theorem exists_otherwiseIf_of_mark {i : Instruction} (h : i.mark = .elsif) :
    ∃ condition o, i = .otherwiseIf condition o := by
  cases i with
  | otherwiseIf condition o => exact ⟨condition, o, rfl⟩
  | place | begin | otherwise | finish => cases h

theorem exists_otherwise_of_mark {i : Instruction} (h : i.mark = .otherwise) : ∃ o, i = .otherwise o := by
  cases i with
  | otherwise o => exact ⟨o, rfl⟩
  | place | begin | otherwiseIf | finish => cases h

end Instruction

open Instruction

def Fills (kind : BlockKind) (hasElse : Bool) (is : List Instruction) : Prop :=
  match kind with
  | .branch => ∀ first, ∃ arms last body, DerivesArms first hasElse is arms last body
  | .capture => ∃ ns, Derives is ns
  | .loop => ∃ ns, Derives is ns

theorem Derives.exists_block {block : Block} {hasElse : Bool} {o o' : Nat} {inner rest : List Instruction}
    {ns : List Node} (hfresh : Fresh (.begin block o)) (hinner : Fills block.kind hasElse inner)
    (hrest : Derives rest ns) :
    ∃ ns, Derives (.begin block o :: (inner ++ .finish block.kind o' :: rest)) ns := by
  cases block with
  | capture name =>
      obtain ⟨body, hb⟩ := hinner
      exact ⟨_, .capture hb hrest⟩
  | loop name source =>
      obtain ⟨body, hb⟩ := hinner
      exact ⟨_, .loop hb hrest⟩
  | branch before condition hasElse =>
      obtain ⟨rfl, rfl⟩ := hfresh
      obtain ⟨arms, last, body, ha⟩ := hinner condition
      exact ⟨_, .branch ha hrest⟩

theorem exists_split {is : List Instruction} {ms ms' : List Mark} {m : Mark}
    (h : is.map mark = ms ++ m :: ms') (hf : ∀ i ∈ is, Fresh i) :
    ∃ before j more, is = before ++ j :: more ∧ j.mark = m ∧
      (before.map mark = ms ∧ ∀ i ∈ before, Fresh i) ∧ more.map mark = ms' ∧ ∀ i ∈ more, Fresh i := by
  obtain ⟨before, tail, rfl, hbefore, htail⟩ := List.map_eq_append_iff.1 h
  obtain ⟨j, more, rfl, hj, hmore⟩ := List.map_eq_cons_iff.1 htail
  obtain ⟨hf, hf'⟩ := List.forall_mem_append.1 hf
  exact ⟨before, j, more, rfl, hj, ⟨hbefore, hf⟩, hmore, (List.forall_mem_cons.1 hf').2⟩

mutual

theorem exists_derives {ms : List Mark} : Mark.Sentence ms → ∀ is : List Instruction,
    is.map mark = ms → (∀ i ∈ is, Fresh i) → ∃ ns, Derives is ns
  | .nil => by
      intro is he _
      rw [List.map_eq_nil_iff] at he
      subst he
      exact ⟨[], .nil⟩
  | .plain hr => by
      have ih := exists_derives hr
      intro is he hf
      obtain ⟨i, rest, rfl, hi, hrest⟩ := List.map_eq_cons_iff.1 he
      obtain ⟨n, rfl⟩ := exists_place_of_mark hi
      obtain ⟨ns, h⟩ := ih rest hrest (List.forall_mem_cons.1 hf).2
      exact ⟨n :: ns, .place h⟩
  | .block hi hr => by
      have ih := exists_derives hr
      have ih_inner := fills_of_inside hi
      intro is he hf
      obtain ⟨i, tail, rfl, hb, he⟩ := List.map_eq_cons_iff.1 he
      obtain ⟨hbegin, hf⟩ := List.forall_mem_cons.1 hf
      obtain ⟨inner, j, rest, rfl, hj, ⟨hinner, hfi⟩, hrest, hfr⟩ := exists_split he hf
      obtain ⟨block, o, rfl, rfl⟩ := exists_begin_of_mark hb
      obtain ⟨o', rfl⟩ := exists_finish_of_mark hj
      obtain ⟨ns, h⟩ := ih rest hrest hfr
      exact Derives.exists_block hbegin (ih_inner inner hinner hfi) h

theorem fills_of_inside {kind : BlockKind} {hasElse : Bool} {ms : List Mark} :
    Mark.Inside kind hasElse ms → ∀ is : List Instruction,
      is.map mark = ms → (∀ i ∈ is, Fresh i) → Fills kind hasElse is
  | .body hs => by
      intro is he hf
      obtain ⟨ns, h⟩ := exists_derives hs is he hf
      cases kind with
      | branch => exact fun condition => ⟨[], condition, ns, .first h⟩
      | capture => exact ⟨ns, h⟩
      | loop => exact ⟨ns, h⟩
  | .elsif hi hs => by
      have ih := exists_derives hs
      have ih_before := fills_of_inside hi
      intro is he hf
      obtain ⟨before, j, more, rfl, hj, ⟨hbefore, hfb⟩, hmore, hfm⟩ := exists_split he hf
      obtain ⟨next, o, rfl⟩ := exists_otherwiseIf_of_mark hj
      obtain ⟨ns, h⟩ := ih more hmore hfm
      intro first
      obtain ⟨arms, last, body, ha⟩ := ih_before before hbefore hfb first
      exact ⟨_, _, _, .elsif ha h⟩
  | .otherwise hi hs => by
      have ih := exists_derives hs
      have ih_before := fills_of_inside hi
      intro is he hf
      obtain ⟨before, j, more, rfl, hj, ⟨hbefore, hfb⟩, hmore, hfm⟩ := exists_split he hf
      obtain ⟨o, rfl⟩ := exists_otherwise_of_mark hj
      obtain ⟨ns, h⟩ := ih more hmore hfm
      intro first
      obtain ⟨arms, last, body, ha⟩ := ih_before before hbefore hfb first
      exact ⟨_, _, _, .otherwise ha h⟩

end

theorem sentence_iff_exists_derives {is : List Instruction} (hf : ∀ i ∈ is, Fresh i) :
    Mark.Sentence (is.map mark) ↔ ∃ ns, Derives is ns := by
  constructor
  · intro h
    exact exists_derives h is rfl hf
  · rintro ⟨ns, h⟩
    exact h.sentence

end Stencil

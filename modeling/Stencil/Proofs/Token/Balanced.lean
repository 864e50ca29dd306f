import Stencil.Expr.Bracket

namespace Stencil.Token

inductive Balanced : List Token → Prop
  | nil : Balanced []
  | cons {t : Token} {ts : List Token} :
      t.kind ≠ .leftBracket → t.kind ≠ .rightBracket → Balanced ts → Balanced (t :: ts)
  | group {opening closing : Token} {inner ts : List Token} :
      opening.kind = .leftBracket → closing.kind = .rightBracket → Balanced inner → Balanced ts →
        Balanced (opening :: (inner ++ closing :: ts))

/-- Balanced, and every comma is inside brackets. -/
inductive Whole : List Token → Prop
  | nil : Whole []
  | cons {t : Token} {ts : List Token} : t.kind ≠ .leftBracket → t.kind ≠ .rightBracket →
      t.kind ≠ .comma → Whole ts → Whole (t :: ts)
  | group {opening closing : Token} {inner ts : List Token} :
      opening.kind = .leftBracket → closing.kind = .rightBracket → Balanced inner → Whole ts →
        Whole (opening :: (inner ++ closing :: ts))

variable {ts us inner rest : List Token} {close : Token} {separator : TokenKind}

theorem Balanced.append (h : Balanced ts) (hu : Balanced us) : Balanced (ts ++ us) := by
  induction h with
  | nil => exact hu
  | cons hl hr _ ih => exact .cons hl hr ih
  | group ho hc hi _ _ ih =>
      rw [List.cons_append, List.append_assoc, List.cons_append]
      exact .group ho hc hi ih

theorem Whole.append (h : Whole ts) (hu : Whole us) : Whole (ts ++ us) := by
  induction h with
  | nil => exact hu
  | cons hl hr hc _ ih => exact .cons hl hr hc ih
  | group ho hc hi _ ih =>
      rw [List.cons_append, List.append_assoc, List.cons_append]
      exact .group ho hc hi ih

theorem Whole.plain {t : Token} {kind : TokenKind} (ht : t.kind = kind)
    (hk : kind ≠ .leftBracket ∧ kind ≠ .rightBracket ∧ kind ≠ .comma) (h : Whole ts) : Whole (t :: ts) := by
  subst ht
  exact .cons hk.1 hk.2.1 hk.2.2 h

theorem Whole.balanced (h : Whole ts) : Balanced ts := by
  induction h with
  | nil => exact .nil
  | cons hl hr _ _ ih => exact .cons hl hr ih
  | group ho hc hi _ ih => exact .group ho hc hi ih

theorem Balanced.comma {t : Token} (ht : t.kind = .comma) (h : Balanced ts) : Balanced (t :: ts) := by
  apply Balanced.cons
  · rw [ht]
    decide
  · rw [ht]
    decide
  · exact h

section

variable {t : Token} (depth : Nat)

@[simp]
theorem takeBracketed_opening (h : t.kind = .leftBracket) : takeBracketed depth (t :: ts) =
    (takeBracketed (depth + 1) ts).map fun (inner, close, rest) => (t :: inner, close, rest) := by
  rw [takeBracketed.eq_def]
  simp only [h]

@[simp]
theorem takeBracketed_closing (h : t.kind = .rightBracket) : takeBracketed (depth + 1) (t :: ts) =
    (takeBracketed depth ts).map fun (inner, close, rest) => (t :: inner, close, rest) := by
  rw [takeBracketed.eq_def]
  simp only [h]

@[simp]
theorem takeBracketed_last (h : t.kind = .rightBracket) : takeBracketed 0 (t :: ts) = some ([], t, ts) := by
  rw [takeBracketed.eq_def]
  simp only [h]

@[simp]
theorem takeBracketed_plain (hl : t.kind ≠ .leftBracket) (hr : t.kind ≠ .rightBracket) :
    takeBracketed depth (t :: ts) =
      (takeBracketed depth ts).map fun (inner, close, rest) => (t :: inner, close, rest) := by
  rw [takeBracketed.eq_def]
  dsimp only
  split
  next h => exact absurd h hl
  next h => exact absurd h hr
  next => rfl

@[simp]
theorem depthAfter_opening (h : t.kind = .leftBracket) : depthAfter depth t = depth + 1 := by
  simp only [depthAfter, h]

@[simp]
theorem depthAfter_closing (h : t.kind = .rightBracket) : depthAfter depth t = depth - 1 := by
  simp only [depthAfter, h]

@[simp]
theorem depthAfter_plain (hl : t.kind ≠ .leftBracket) (hr : t.kind ≠ .rightBracket) :
    depthAfter depth t = depth := by
  rw [depthAfter]
  split
  next h => exact absurd h hl
  next h => exact absurd h hr
  next => rfl

end

theorem takeBracketed_append (h : Balanced ts) (depth : Nat) (rest : List Token) :
    takeBracketed depth (ts ++ rest) =
      (takeBracketed depth rest).map fun (inner, close, left) => (ts ++ inner, close, left) := by
  induction h generalizing depth rest with
  | nil =>
      rw [List.nil_append]
      cases takeBracketed depth rest <;> rfl
  | cons hl hr _ ih =>
      rw [List.cons_append, takeBracketed_plain depth hl hr, ih, Option.map_map]
      rfl
  | group ho hc _ _ ih_inner ih =>
      rw [List.cons_append, List.append_assoc, List.cons_append, takeBracketed_opening depth ho, ih_inner,
        takeBracketed_closing depth hc, ih, Option.map_map, Option.map_map, Option.map_map]
      congr 1
      funext ⟨i, c, r⟩
      simp

theorem takeBracketed_of_balanced (h : Balanced inner) (hc : close.kind = .rightBracket) :
    takeBracketed 0 (inner ++ close :: rest) = some (inner, close, rest) := by
  rw [takeBracketed_append h, takeBracketed_last hc]
  simp

theorem close_kind_of_takeBracketed {depth : Nat} (h : takeBracketed depth ts = some (inner, close, rest)) :
    close.kind = .rightBracket := by
  induction ts generalizing depth inner with
  | nil => cases h
  | cons t ts ih =>
      simp only [takeBracketed] at h
      split at h
      · obtain ⟨⟨i, c, r⟩, hr, he⟩ := Option.map_eq_some_iff.1 h
        cases he
        exact ih hr
      next hk =>
        split at h
        · cases h
          exact hk
        · obtain ⟨⟨i, c, r⟩, hr, he⟩ := Option.map_eq_some_iff.1 h
          cases he
          exact ih hr
      · obtain ⟨⟨i, c, r⟩, hr, he⟩ := Option.map_eq_some_iff.1 h
        cases he
        exact ih hr

theorem foldl_depthAfter (h : Balanced ts) (depth : Nat) : ts.foldl depthAfter depth = depth := by
  induction h generalizing depth with
  | nil => rfl
  | cons hl hr _ ih => simp [hl, hr, ih]
  | group ho hc _ _ ih_inner ih =>
      rw [List.foldl_cons, depthAfter_opening depth ho, List.foldl_append, ih_inner, List.foldl_cons,
        depthAfter_closing _ hc, Nat.add_sub_cancel, ih]

theorem splitAtDepth_ne_nil (separator : TokenKind) (depth : Nat) (ts : List Token) :
    splitAtDepth separator depth ts ≠ [] := by
  induction ts generalizing depth with
  | nil => exact List.cons_ne_nil _ _
  | cons t ts ih =>
      rw [splitAtDepth]
      split
      · exact List.cons_ne_nil _ _
      · generalize hp : splitAtDepth separator (depthAfter depth t) ts = pieces
        cases pieces with
        | nil => exact absurd hp (ih _)
        | cons p ps => exact List.cons_ne_nil _ _

theorem splitTopLevel_of_ne_nil {separator : TokenKind} {ts : List Token} (h : ts ≠ []) :
    splitTopLevel separator ts = splitAtDepth separator 0 ts := by
  rw [splitTopLevel, if_neg (by simpa using h)]

/-- What is not split does not keep what follows it from being split. -/
theorem splitAtDepth_append {depth : Nat} (h : splitAtDepth separator depth ts = [ts]) (rest : List Token) :
    splitAtDepth separator depth (ts ++ rest) =
      (splitAtDepth separator (ts.foldl depthAfter depth) rest).modifyHead (ts ++ ·) := by
  induction ts generalizing depth with
  | nil =>
      rw [List.nil_append, List.foldl_nil]
      cases splitAtDepth separator depth rest <;> rfl
  | cons t ts ih =>
      rw [splitAtDepth] at h
      rw [List.cons_append, splitAtDepth]
      split at h
      next hs => cases h
      next hs =>
        rw [if_neg hs]
        have hts : splitAtDepth separator (depthAfter depth t) ts = [ts] := by
          generalize splitAtDepth separator (depthAfter depth t) ts = pieces at h
          cases pieces with
          | nil => cases h
          | cons p ps =>
              obtain ⟨hp, rfl⟩ := List.cons.inj h
              rw [(List.cons.inj hp).2]
        rw [ih hts, List.modifyHead_modifyHead]
        rfl

theorem splitAtDepth_of_balanced (h : Balanced ts) (depth : Nat) :
    splitAtDepth separator (depth + 1) ts = [ts] := by
  induction h generalizing depth with
  | nil => rfl
  | cons hl hr _ ih =>
      rw [splitAtDepth, if_neg (fun hs => absurd hs.1 (Nat.succ_ne_zero _)), depthAfter_plain _ hl hr, ih]
      rfl
  | group ho hc hi _ ih_inner ih =>
      rw [splitAtDepth, if_neg (fun hs => absurd hs.1 (Nat.succ_ne_zero _)), depthAfter_opening _ ho,
        splitAtDepth_append (ih_inner _), foldl_depthAfter hi, splitAtDepth,
        if_neg (fun hs => absurd hs.1 (Nat.succ_ne_zero _)), depthAfter_closing _ hc, Nat.add_sub_cancel, ih]
      rfl

theorem splitAtDepth_of_whole (h : Whole ts) : splitAtDepth .comma 0 ts = [ts] := by
  induction h with
  | nil => rfl
  | cons hl hr hc _ ih =>
      rw [splitAtDepth, if_neg (fun hs => hc hs.2), depthAfter_plain _ hl hr, ih]
      rfl
  | @group opening closing inner ts ho hc hi _ ih =>
      have hopen : ¬((0 : Nat) = 0 ∧ opening.kind = .comma) := by
        rw [ho]
        decide
      rw [splitAtDepth, if_neg hopen, depthAfter_opening _ ho,
        splitAtDepth_append (splitAtDepth_of_balanced hi 0), foldl_depthAfter hi, splitAtDepth,
        if_neg (fun hs => absurd hs.1 (Nat.succ_ne_zero _)), depthAfter_closing _ hc, Nat.add_sub_cancel, ih]
      rfl

/-- A whole piece is split off at the comma behind it. -/
theorem splitAtDepth_cons {comma : Token} (h : Whole ts) (hc : comma.kind = .comma) :
    splitAtDepth .comma 0 (ts ++ comma :: rest) = ts :: splitAtDepth .comma 0 rest := by
  rw [splitAtDepth_append (splitAtDepth_of_whole h), foldl_depthAfter h.balanced, splitAtDepth,
    if_pos ⟨rfl, hc⟩, List.modifyHead_cons, List.append_nil]

/-- The first piece is not split further. It is everything, or a separator outside brackets follows it. -/
theorem of_splitAtDepth {depth : Nat} {piece : List Token} {pieces : List (List Token)}
    (h : splitAtDepth separator depth ts = piece :: pieces) :
    splitAtDepth separator depth piece = [piece] ∧
      (pieces = [] ∧ ts = piece ∨ ∃ s rest, s.kind = separator ∧ ts = piece ++ s :: rest ∧
        splitAtDepth separator 0 rest = pieces) := by
  induction ts generalizing depth piece with
  | nil =>
      obtain ⟨rfl, rfl⟩ := List.cons.inj h
      exact ⟨rfl, .inl ⟨rfl, rfl⟩⟩
  | cons t ts ih =>
      rw [splitAtDepth] at h
      split at h
      next hs =>
        obtain ⟨rfl, rfl⟩ := List.cons.inj h
        refine ⟨rfl, .inr ⟨t, ts, hs.2, rfl, ?_⟩⟩
        rw [hs.1]
      next hs =>
        generalize hp : splitAtDepth separator (depthAfter depth t) ts = all at h
        cases all with
        | nil => cases h
        | cons p ps =>
            obtain ⟨rfl, rfl⟩ := List.cons.inj h
            obtain ⟨hone, hrest⟩ := ih hp
            refine ⟨?_, ?_⟩
            · rw [splitAtDepth, if_neg hs, hone]
              rfl
            · rcases hrest with ⟨hps, rfl⟩ | ⟨s, rest, hk, rfl, hps⟩
              · exact .inl ⟨hps, rfl⟩
              · exact .inr ⟨s, rest, hk, rfl, hps⟩

end Stencil.Token

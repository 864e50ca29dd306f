import Stencil.Text.Basic

namespace Stencil.Text

@[simp]
theorem byteLength_append (cs ds : List Char) : byteLength (cs ++ ds) = byteLength cs + byteLength ds := by
  induction cs with
  | nil => exact (Nat.zero_add _).symm
  | cons c cs ih => rw [List.cons_append, byteLength, byteLength, ih, Nat.add_assoc]

theorem byteLength_marked {a b c d : Char} (ha : a.utf8Size = 1) (hb : b.utf8Size = 1) (hc : c.utf8Size = 1)
    (hd : d.utf8Size = 1) (before body : List Char) :
    byteLength (before ++ a :: b :: body ++ [c, d]) = byteLength before + 4 + byteLength body := by
  simp only [byteLength_append, byteLength, ha, hb, hc, hd]
  omega

@[simp]
theorem upTo_zero (cs : List Char) : upTo cs 0 = [] := by
  cases cs with
  | nil => rfl
  | cons c cs => exact if_neg (Nat.not_le.2 c.utf8Size_pos)

@[simp]
theorem upTo_append (before after : List Char) : upTo (before ++ after) (byteLength before) = before := by
  induction before with
  | nil => exact upTo_zero after
  | cons c before ih =>
      rw [List.cons_append, byteLength, upTo, if_pos (Nat.le_add_right _ _), Nat.add_sub_cancel_left, ih]

@[simp]
theorem beginningIn_append (cs after : List Char) : beginningIn (cs ++ after) (byteLength cs) = cs := by
  induction cs with
  | nil =>
      cases after with
      | nil => rfl
      | cons c after => exact if_pos rfl
  | cons c cs ih =>
      have hpos : c.utf8Size + byteLength cs ≠ 0 := by
        have := c.utf8Size_pos
        omega
      rw [List.cons_append, byteLength, beginningIn, if_neg hpos, Nat.add_sub_cancel_left, ih]

@[simp]
theorem span_append (before cs after : List Char) :
    span (before ++ (cs ++ after)) (byteLength before) (byteLength before + byteLength cs) = cs := by
  simp [span]

theorem span_all (cs : List Char) : span cs 0 (byteLength cs) = cs := by
  simpa [byteLength] using span_append [] cs []

/-- Here a character begins, or the text ends. -/
def IsBoundary (cs : List Char) (n : Nat) : Prop :=
  ∃ before after, cs = before ++ after ∧ byteLength before = n

def StandsAt (cs : List Char) (n : Nat) (piece : List Char) : Prop :=
  ∃ before after, cs = before ++ (piece ++ after) ∧ byteLength before = n

variable {cs piece : List Char} {n m : Nat}

theorem eq_nil_of_byteLength (h : byteLength cs = 0) : cs = [] := by
  cases cs with
  | nil => rfl
  | cons c cs =>
      have := c.utf8Size_pos
      rw [byteLength] at h
      omega

theorem IsBoundary.le (h : IsBoundary cs n) : n ≤ byteLength cs := by
  obtain ⟨before, after, rfl, rfl⟩ := h
  rw [byteLength_append]
  exact Nat.le_add_right _ _

/-- Of two fronts of a text the shorter one is in front of the longer one. -/
theorem exists_append_of_le {before after before' after' : List Char}
    (h : before ++ after = before' ++ after') (hle : byteLength before ≤ byteLength before') :
    ∃ piece, before' = before ++ piece ∧ after = piece ++ after' := by
  rcases List.append_eq_append_iff.1 h with ⟨piece, hb, ha⟩ | ⟨piece, rfl, rfl⟩
  · exact ⟨piece, hb, ha⟩
  · rw [byteLength_append] at hle
    obtain rfl := eq_nil_of_byteLength (show byteLength piece = 0 by omega)
    exact ⟨[], by simp, rfl⟩

/-- Two boundaries cut a text into three pieces. -/
theorem IsBoundary.exists_between (hn : IsBoundary cs n) (hm : IsBoundary cs m) (hle : n ≤ m) :
    ∃ before piece after, cs = before ++ (piece ++ after) ∧ byteLength before = n ∧
      n + byteLength piece = m := by
  obtain ⟨before, after, rfl, rfl⟩ := hn
  obtain ⟨before', after', he, rfl⟩ := hm
  obtain ⟨piece, rfl, rfl⟩ := exists_append_of_le he hle
  exact ⟨before, piece, after', rfl, rfl, (byteLength_append ..).symm⟩

namespace StandsAt

theorem isBoundary (h : StandsAt cs n piece) : IsBoundary cs n := by
  obtain ⟨before, after, hcs, hn⟩ := h
  exact ⟨before, piece ++ after, hcs, hn⟩

theorem isBoundary_end (h : StandsAt cs n piece) : IsBoundary cs (n + byteLength piece) := by
  obtain ⟨before, after, rfl, rfl⟩ := h
  exact ⟨before ++ piece, after, by simp, byteLength_append before piece⟩

theorem span_eq (h : StandsAt cs n piece) : span cs n (n + byteLength piece) = piece := by
  obtain ⟨before, after, rfl, rfl⟩ := h
  exact span_append before piece after

theorem inner {before inner after : List Char} (h : StandsAt cs n (before ++ (inner ++ after))) :
    StandsAt cs (n + byteLength before) inner := by
  obtain ⟨front, back, rfl, rfl⟩ := h
  exact ⟨front ++ before, after ++ back, by simp, byteLength_append front before⟩

theorem front {rest : List Char} (h : StandsAt cs n (piece ++ rest)) : StandsAt cs n piece := by
  rw [← List.nil_append (piece ++ rest)] at h
  exact h.inner

theorem back {front : List Char} (h : StandsAt cs n (front ++ piece)) :
    StandsAt cs (n + byteLength front) piece := by
  rw [← List.append_nil piece] at h
  exact h.inner

theorem tail {c : Char} (h : StandsAt cs n (c :: piece)) : StandsAt cs (n + c.utf8Size) piece := by
  rw [← List.singleton_append] at h
  exact h.back

/-- A character that begins inside the middle piece is in it. -/
theorem exists_within {before after : List Char} {c : Char}
    (h : StandsAt (before ++ (piece ++ after)) n [c]) (hfrom : byteLength before ≤ n)
    (hto : n < byteLength before + byteLength piece) :
    ∃ front back, piece = front ++ c :: back ∧ n = byteLength before + byteLength front := by
  obtain ⟨before', after', he, rfl⟩ := h
  obtain ⟨front, rfl, hpiece⟩ := exists_append_of_le he hfrom
  rw [byteLength_append] at hto
  obtain ⟨inner, rfl, hrest⟩ := exists_append_of_le hpiece.symm (Nat.le_of_lt (Nat.lt_of_add_lt_add_left hto))
  cases inner with
  | nil =>
      rw [List.append_nil] at hto
      exact absurd hto (Nat.lt_irrefl _)
  | cons d back =>
      cases hrest
      exact ⟨front, back, rfl, byteLength_append before front⟩

end StandsAt

/-- What begins at a boundary stands there up to the end of the text. -/
theorem IsBoundary.standsAt_rest (h : IsBoundary cs n) : StandsAt cs n (span cs n (byteLength cs)) := by
  obtain ⟨before, after, rfl, rfl⟩ := h
  have hspan := span_append before after []
  rw [List.append_nil] at hspan
  rw [byteLength_append, hspan]
  exact ⟨before, [], by rw [List.append_nil], rfl⟩

theorem upTo_prefix (cs : List Char) (n : Nat) : upTo cs n <+: cs := by
  fun_induction upTo cs n with
  | case1 => exact List.prefix_refl []
  | case2 n c cs _ ih => exact List.cons_prefix_cons.2 ⟨rfl, ih⟩
  | case3 => exact List.nil_prefix

def cutAt? (cs : List Char) (n : Nat) : Option (List Char × List Char) :=
  let before := upTo cs n
  if byteLength before = n then some (before, cs.drop before.length) else none

theorem cutAt?_eq_some_iff {before after : List Char} :
    cutAt? cs n = some (before, after) ↔ cs = before ++ after ∧ byteLength before = n := by
  constructor
  · intro h
    rw [cutAt?, Option.ite_none_right_eq_some] at h
    obtain ⟨hn, hcut⟩ := h
    cases hcut
    have hfront := upTo_prefix cs n
    exact ⟨(List.prefix_iff_eq_append.1 hfront).symm, hn⟩
  · rintro ⟨rfl, rfl⟩
    rw [cutAt?, upTo_append, if_pos rfl, List.drop_left]

theorem isSome_cutAt?_iff : (cutAt? cs n).isSome ↔ IsBoundary cs n := by
  rw [Option.isSome_iff_exists, Prod.exists]
  simp only [cutAt?_eq_some_iff, IsBoundary]

/-- One more than the newlines before the offset, and one more than the characters since the last of them. -/
def IsPosition (cs : List Char) (n : Nat) (p : Position) : Prop :=
  ∃ before after, cs = before ++ after ∧ byteLength before = n ∧ p.line = before.count '\n' + 1 ∧
    p.column = (before.reverse.takeWhile (· ≠ '\n')).length + 1

theorem foldr_advance (cs : List Char) : cs.foldr (fun c p => Position.advance p c) Position.first =
    ⟨cs.count '\n' + 1, (cs.takeWhile (· ≠ '\n')).length + 1⟩ := by
  induction cs with
  | nil => rfl
  | cons c cs ih =>
      rw [List.foldr_cons, ih, Position.advance]
      split
      next hc =>
        subst hc
        rw [List.takeWhile_cons_of_neg (by simp), List.count_cons_self]
        rfl
      next hc => rw [List.takeWhile_cons_of_pos (by simpa using hc), List.count_cons_of_ne hc, List.length_cons]

theorem IsBoundary.isPosition {source : String} (h : IsBoundary source.toList n) :
    IsPosition source.toList n (position source n) := by
  obtain ⟨before, after, hsource, rfl⟩ := h
  have hposition := foldr_advance before.reverse
  rw [List.foldr_reverse] at hposition
  refine ⟨before, after, hsource, rfl, ?_, ?_⟩
  · simp [position, hsource, hposition]
  · simp [position, hsource, hposition]

end Stencil.Text

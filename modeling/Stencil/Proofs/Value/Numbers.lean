import Stencil.Proofs.Number.DoubleOrder

namespace Stencil.Value

open Content (compareDoubles)
open Binary64 Rounding

variable {a b c : Value} {x y z : Float} {i j : Int64}

/-- Two different integers, and a double between them that equals both. -/
def Blurred (a b c : Value) : Prop :=
  ∃ i y j, a = .int i ∧ b = .double y ∧ c = .int j ∧ i ≠ j ∧ a.compare b = .eq ∧ b.compare c = .eq

theorem compare_toInt (i j : Int64) : Ord.compare i j = Ord.compare i.toInt j.toInt := by
  have hi : Ord.compare i j = compareOfLessAndEq i j := rfl
  have hn : Ord.compare i.toInt j.toInt = compareOfLessAndEq i.toInt j.toInt := rfl
  rw [hi, hn, compareOfLessAndEq, compareOfLessAndEq]
  simp only [Int64.lt_iff_toInt_lt, Int64.toInt_inj]

theorem compareDoubles_of_ne (h : compareDoubles (intToDouble i) (intToDouble j) ≠ .eq) :
    compareDoubles (intToDouble i) (intToDouble j) = Ord.compare i j := by
  rw [compareDoubles_intToDouble] at h ⊢
  rw [compare_toInt]
  rcases Int.lt_trichotomy i.toInt j.toInt with hlt | heq | hgt
  · have hne : roundedInt i.toInt ≠ roundedInt j.toInt := fun he => h (by rw [he, Std.ReflOrd.compare_self])
    have hle := roundedInt_mono (Int.le_of_lt hlt)
    rw [compare_lt_iff_lt.2 hlt, compare_lt_iff_lt.2 (by omega)]
  · rw [heq, Std.ReflOrd.compare_self, Std.ReflOrd.compare_self]
  · have hne : roundedInt i.toInt ≠ roundedInt j.toInt := fun he => h (by rw [he, Std.ReflOrd.compare_self])
    have hle := roundedInt_mono (Int.le_of_lt hgt)
    rw [compare_gt_iff_gt.2 hgt, compare_gt_iff_gt.2 (by omega)]

/-- Numbers compare as their doubles do. Only two different integers that become equal doubles are still
told apart. -/
theorem compare_cases (ha : a.double? = some x) (hb : b.double? = some y) :
    a.compare b = compareDoubles x y ∨
      compareDoubles x y = .eq ∧ ∃ i j, a = .int i ∧ b = .int j ∧ i ≠ j := by
  cases a with
  | int i =>
      obtain rfl := Option.some.inj ha
      cases b with
      | int j =>
          obtain rfl := Option.some.inj hb
          by_cases h : compareDoubles (intToDouble i) (intToDouble j) = .eq
          · by_cases hij : i = j
            · subst hij
              rw [h]
              exact .inl Std.ReflOrd.compare_self
            · exact .inr ⟨h, i, j, rfl, rfl, hij⟩
          · exact .inl (compareDoubles_of_ne h).symm
      | double y =>
          obtain rfl := Option.some.inj hb
          exact .inl rfl
      | _ => cases hb
  | double x =>
      obtain rfl := Option.some.inj ha
      cases b with
      | int j =>
          obtain rfl := Option.some.inj hb
          exact .inl rfl
      | double y =>
          obtain rfl := Option.some.inj hb
          exact .inl rfl
      | _ => cases hb
  | _ => cases ha

theorem compareDoubles_ne_gt (ha : a.double? = some x) (hb : b.double? = some y)
    (h : a.compare b ≠ .gt) : compareDoubles x y ≠ .gt := by
  rcases compare_cases ha hb with he | ⟨he, -⟩
  · rw [← he]
    exact h
  · rw [he]
    decide

theorem compareDoubles_eq_eq (ha : a.double? = some x) (hb : b.double? = some y)
    (h : a.compare b = .eq) : compareDoubles x y = .eq := by
  rcases compare_cases ha hb with he | ⟨he, -⟩
  · rw [← he, h]
  · exact he

theorem trans_of_not_blurred (ha : a.double? = some x) (hb : b.double? = some y) (hc : c.double? = some z)
    (h : ¬Blurred a b c) :
    (a.compare b ≠ .gt → b.compare c ≠ .gt → a.compare c ≠ .gt) ∧
      (a.compare b = .eq → b.compare c = .eq → a.compare c = .eq) := by
  have hchain := chain_compareDoubles x y z
  rcases compare_cases ha hc with hac | ⟨hxz, i, j, rfl, rfl, hij⟩
  · rw [hac]
    constructor
    · intro hab hbc
      exact hchain.ne_gt (compareDoubles_ne_gt ha hb hab) (compareDoubles_ne_gt hb hc hbc)
    · intro hab hbc
      exact hchain.eq_trans (compareDoubles_eq_eq ha hb hab) (compareDoubles_eq_eq hb hc hbc)
  · cases b with
    | int k =>
        have hints : Chain (compare (.int i) (.int k)) (compare (.int k) (.int j))
            (compare (.int i) (.int j)) := by
          show Chain (Ord.compare i k) (Ord.compare k j) (Ord.compare i j)
          exact .of_transCmp ..
        exact ⟨hints.ne_gt, hints.eq_trans⟩
    | double y =>
        -- The doubles of the ends are equal, so the one between them is their double, or it is outside.
        have hout (hab : compare (.int i) (.double y) ≠ .gt) (hbc : compare (.double y) (.int j) ≠ .gt) :
            False := by
          obtain rfl := Option.some.inj ha
          obtain rfl := Option.some.inj hb
          obtain rfl := Option.some.inj hc
          rw [hxz] at hchain
          obtain ⟨hxy, hyz⟩ := hchain.eq_of_ne_gt hab hbc
          exact h ⟨i, y, j, rfl, rfl, rfl, hij, hxy, hyz⟩
        constructor
        · intro hab hbc
          exact (hout hab hbc).elim
        · intro hab hbc
          exact (hout (by rw [hab]; decide) (by rw [hbc]; decide)).elim
    | _ => cases hb

theorem Blurred.rounded_eq (h : Blurred a b c) :
    ∃ i j, a = .int i ∧ c = .int j ∧ i ≠ j ∧ roundedInt i.toInt = roundedInt j.toInt := by
  obtain ⟨i, y, j, rfl, rfl, rfl, hij, hab, hbc⟩ := h
  refine ⟨i, j, rfl, rfl, hij, ?_⟩
  have hchain := chain_compareDoubles (intToDouble i) y (intToDouble j)
  have heq := hchain.eq_trans hab hbc
  rw [compareDoubles_intToDouble] at heq
  exact Std.LawfulEqOrd.eq_of_compare heq

theorem compare_self_of_number (ha : a.double? = some x) : a.compare a = .eq := by
  cases a with
  | int i => exact Std.ReflOrd.compare_self
  | double x => exact compareDoubles_self x
  | _ => cases ha

theorem compare_swap_of_numbers (ha : a.double? = some x) (hb : b.double? = some y) :
    b.compare a = (a.compare b).swap := by
  cases a with
  | int i =>
      cases b with
      | int j => exact Std.OrientedOrd.eq_swap
      | double y => exact compareDoubles_swap ..
      | _ => cases hb
  | double x =>
      cases b with
      | int j => exact compareDoubles_swap ..
      | double y => exact compareDoubles_swap ..
      | _ => cases hb
  | _ => cases ha

/-- Comparing numbers is reflexive and turns around. It is transitive, both as an order and as an
equality, exactly unless a double stands between two different integers and equals both. Such integers
are equal when they are rounded to 53 significant bits, so one of them is greater than `2 ^ 53` in size. -/
theorem compare_numbers {a b c : Value} (ha : a.double?.isSome) (hb : b.double?.isSome)
    (hc : c.double?.isSome) :
    a.compare a = .eq ∧ b.compare a = (a.compare b).swap ∧
      (((a.compare b ≠ .gt → b.compare c ≠ .gt → a.compare c ≠ .gt) ∧
        (a.compare b = .eq → b.compare c = .eq → a.compare c = .eq)) ↔ ¬Blurred a b c) ∧
        (Blurred a b c → ∃ i j, a = .int i ∧ c = .int j ∧ i ≠ j ∧
          roundedInt i.toInt = roundedInt j.toInt ∧
            (2 ^ 53 < i.toInt.natAbs ∨ 2 ^ 53 < j.toInt.natAbs)) := by
  obtain ⟨x, hx⟩ := Option.isSome_iff_exists.1 ha
  obtain ⟨y, hy⟩ := Option.isSome_iff_exists.1 hb
  obtain ⟨z, hz⟩ := Option.isSome_iff_exists.1 hc
  refine ⟨compare_self_of_number hx, compare_swap_of_numbers hx hy,
    ⟨?_, trans_of_not_blurred hx hy hz⟩, ?_⟩
  · rintro ⟨-, heq⟩ ⟨i, y, j, rfl, rfl, rfl, hij, hab, hbc⟩
    exact hij (Std.LawfulEqOrd.eq_of_compare (heq hab hbc))
  · intro h
    obtain ⟨i, j, rfl, rfl, hij, hr⟩ := h.rounded_eq
    refine ⟨i, j, rfl, rfl, hij, hr, ?_⟩
    by_contra hsmall
    rw [not_or, Nat.not_lt, Nat.not_lt] at hsmall
    rw [roundedInt_of_le hsmall.1, roundedInt_of_le hsmall.2] at hr
    exact hij (Int64.toInt_inj.1 hr)

def brink : Value :=
  .double (Float.ofBits 0x4340000000000000)

/-- Two integers beyond it are told apart, though both equal it. -/
theorem not_trans_beyond_brink :
    compare (.int 9007199254740993) brink = .eq ∧ compare brink (.int 9007199254740992) = .eq ∧
      compare (.int 9007199254740993) (.int 9007199254740992) = .gt := by
  decide +kernel

theorem compare_numbers_brink :
    ¬Blurred (.int 9007199254740991) brink (.int 9007199254740992) ∧
      compare (.int 9007199254740991) (.int 9007199254740992) ≠ .gt := by
  obtain ⟨-, -, htrans, hblurred⟩ := compare_numbers (a := .int 9007199254740991) (b := brink)
    (c := .int 9007199254740992) rfl rfl rfl
  have hn : ¬Blurred (.int 9007199254740991) brink (.int 9007199254740992) := by
    intro h
    obtain ⟨i, j, hi, hj, -, -, hsize⟩ := hblurred h
    cases hi
    cases hj
    revert hsize
    decide +kernel
  refine ⟨hn, (htrans.2 hn).1 ?_ ?_⟩
  · decide +kernel
  · decide +kernel

end Stencil.Value

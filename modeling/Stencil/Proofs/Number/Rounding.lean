import Mathlib.Data.Nat.Log
import Mathlib.Tactic.Ring

namespace Stencil.Rounding

variable {m n k : Nat}

def nearest (n k : Nat) : Nat :=
  match compare (2 * (n % 2 ^ k)) (2 ^ k) with
  | .lt => n / 2 ^ k
  | .eq => n / 2 ^ k + n / 2 ^ k % 2
  | .gt => n / 2 ^ k + 1

@[simp]
theorem nearest_zero (n : Nat) : nearest n 0 = n := by
  simp [nearest, Nat.mod_one, Nat.compare_eq_ite_lt]

theorem le_nearest (n k : Nat) : n / 2 ^ k ≤ nearest n k := by
  unfold nearest
  split <;> omega

theorem nearest_le (n k : Nat) : nearest n k ≤ n / 2 ^ k + 1 := by
  unfold nearest
  split <;> omega

theorem nearest_mono (h : m ≤ n) : nearest m k ≤ nearest n k := by
  rcases Nat.lt_or_eq_of_le (Nat.div_le_div_right (c := 2 ^ k) h) with hlt | heq
  · exact (nearest_le m k).trans (Nat.le_trans hlt (le_nearest n k))
  · have hmod : m % 2 ^ k ≤ n % 2 ^ k := by
      have hm := Nat.div_add_mod m (2 ^ k)
      have hn := Nat.div_add_mod n (2 ^ k)
      rw [heq] at hm
      omega
    unfold nearest
    rw [heq]
    split <;> split <;> simp_all [Nat.compare_eq_lt, Nat.compare_eq_gt] <;> omega

def rounded (n : Nat) : Nat :=
  nearest n (n.log2 - 52) * 2 ^ (n.log2 - 52)

theorem rounded_of_log2_le (h : n.log2 ≤ 52) : rounded n = n := by
  rw [rounded, Nat.sub_eq_zero_of_le h, nearest_zero, Nat.pow_zero, Nat.mul_one]

theorem rounded_of_le (h : n ≤ 2 ^ 53) : rounded n = n := by
  rcases Nat.lt_or_eq_of_le h with hlt | rfl
  · apply rounded_of_log2_le
    by_cases hn : n = 0
    · simp [hn]
    · exact Nat.le_of_lt_succ ((Nat.log2_lt hn).2 hlt)
  · decide +kernel

theorem rounded_bounds (hn : n ≠ 0) : 2 ^ n.log2 ≤ rounded n ∧ rounded n ≤ 2 ^ (n.log2 + 1) := by
  have hlow := Nat.log2_self_le hn
  have hhigh := Nat.lt_log2_self (n := n)
  by_cases hl : n.log2 ≤ 52
  · rw [rounded_of_log2_le hl]
    omega
  · obtain ⟨k, hk⟩ : ∃ k, n.log2 = 52 + k := ⟨n.log2 - 52, by omega⟩
    rw [rounded, hk, Nat.add_sub_cancel_left]
    rw [hk] at hlow hhigh
    have hq : 2 ^ 52 ≤ n / 2 ^ k := by
      rw [Nat.le_div_iff_mul_le (Nat.two_pow_pos k), ← Nat.pow_add]
      exact hlow
    have hq' : n / 2 ^ k < 2 ^ 53 := by
      rw [Nat.div_lt_iff_lt_mul (Nat.two_pow_pos k), ← Nat.pow_add]
      exact hhigh.trans_eq (by ring)
    constructor
    · rw [Nat.pow_add]
      exact Nat.mul_le_mul_right _ (hq.trans (le_nearest n k))
    · calc nearest n k * 2 ^ k ≤ 2 ^ 53 * 2 ^ k :=
            Nat.mul_le_mul_right _ ((nearest_le n k).trans hq')
        _ = 2 ^ (52 + k + 1) := by ring

theorem log2_mono (hm : m ≠ 0) (h : m ≤ n) : m.log2 ≤ n.log2 := by
  have hn : n ≠ 0 := by omega
  exact (Nat.le_log2 hn).2 ((Nat.log2_self_le hm).trans h)

theorem rounded_mono (h : m ≤ n) : rounded m ≤ rounded n := by
  by_cases hm : m = 0
  · rw [hm, rounded_of_le (Nat.zero_le _)]
    exact Nat.zero_le _
  have hn : n ≠ 0 := by omega
  rcases Nat.lt_or_eq_of_le (log2_mono hm h) with hlt | heq
  · calc rounded m ≤ 2 ^ (m.log2 + 1) := (rounded_bounds hm).2
      _ ≤ 2 ^ n.log2 := Nat.pow_le_pow_right (by decide) hlt
      _ ≤ rounded n := (rounded_bounds hn).1
  · rw [rounded, rounded, heq]
    exact Nat.mul_le_mul_right _ (nearest_mono h)

def bits (n : Nat) : Nat :=
  nearest (n <<< (52 - n.log2)) (n.log2 - 52)

theorem bits_mul (n : Nat) : bits n * 2 ^ n.log2 = 2 ^ 52 * rounded n := by
  rcases Nat.le_total n.log2 52 with h | h
  · rw [bits, rounded_of_log2_le h, Nat.sub_eq_zero_of_le h, nearest_zero, Nat.shiftLeft_eq,
      Nat.mul_assoc, ← Nat.pow_add, Nat.sub_add_cancel h, Nat.mul_comm]
  · obtain ⟨k, hk⟩ : ∃ k, n.log2 = 52 + k := ⟨n.log2 - 52, by omega⟩
    rw [bits, rounded, hk, Nat.sub_eq_zero_of_le (Nat.le_add_right 52 k), Nat.shiftLeft_zero,
      Nat.add_sub_cancel_left]
    ring

theorem bits_bounds (hn : n ≠ 0) : 2 ^ 52 ≤ bits n ∧ bits n ≤ 2 ^ 53 := by
  obtain ⟨hlow, hhigh⟩ := rounded_bounds hn
  have hmul := bits_mul n
  have hpos := Nat.two_pow_pos n.log2
  constructor
  · apply Nat.le_of_mul_le_mul_right _ hpos
    rw [hmul]
    exact Nat.mul_le_mul_left _ hlow
  · apply Nat.le_of_mul_le_mul_right _ hpos
    rw [hmul]
    exact (Nat.mul_le_mul_left _ hhigh).trans_eq (by ring)

def significand (n : Nat) : Nat :=
  if bits n = 2 ^ 53 then 2 ^ 52 else bits n

def weight (n : Nat) : Nat :=
  if bits n = 2 ^ 53 then n.log2 + 1 else n.log2

theorem significand_bounds (hn : n ≠ 0) : 2 ^ 52 ≤ significand n ∧ significand n < 2 ^ 53 := by
  have h := bits_bounds hn
  unfold significand
  split <;> omega

theorem significand_mul (n : Nat) : significand n * 2 ^ weight n = 2 ^ 52 * rounded n := by
  rw [← bits_mul, significand, weight]
  split
  next h =>
    rw [h]
    ring
  next => rfl

theorem compare_mul {a b p q : Nat} (ha : 2 ^ 52 ≤ a ∧ a < 2 ^ 53) (hb : 2 ^ 52 ≤ b ∧ b < 2 ^ 53) :
    compare (a * 2 ^ p) (b * 2 ^ q) = (compare p q).then (compare a b) := by
  have hless {a b p q : Nat} (ha : a < 2 ^ 53) (hb : 2 ^ 52 ≤ b) (h : p < q) : a * 2 ^ p < b * 2 ^ q := by
    calc a * 2 ^ p < 2 ^ 53 * 2 ^ p := Nat.mul_lt_mul_of_pos_right ha (Nat.two_pow_pos p)
      _ = 2 ^ 52 * 2 ^ (p + 1) := by ring
      _ ≤ b * 2 ^ q := Nat.mul_le_mul hb (Nat.pow_le_pow_right (by decide) h)
  rcases Nat.lt_trichotomy p q with h | rfl | h
  · rw [Nat.compare_eq_lt.2 h, Nat.compare_eq_lt.2 (hless ha.2 hb.1 h)]
    rfl
  · rw [Nat.compare_eq_eq.2 rfl]
    rcases Nat.lt_trichotomy a b with h | rfl | h
    · rw [Nat.compare_eq_lt.2 h, Nat.compare_eq_lt.2 (Nat.mul_lt_mul_of_pos_right h (Nat.two_pow_pos p))]
      rfl
    · rw [Nat.compare_eq_eq.2 rfl, Nat.compare_eq_eq.2 rfl]
      rfl
    · rw [Nat.compare_eq_gt.2 h, Nat.compare_eq_gt.2 (Nat.mul_lt_mul_of_pos_right h (Nat.two_pow_pos p))]
      rfl
  · rw [Nat.compare_eq_gt.2 h, Nat.compare_eq_gt.2 (hless hb.2 ha.1 h)]
    rfl

/-- Weight and significand compare as the rounded numbers do. -/
theorem compare_rounded (hm : m ≠ 0) (hn : n ≠ 0) :
    (compare (weight m) (weight n)).then (compare (significand m) (significand n)) =
      compare (rounded m) (rounded n) := by
  rw [← compare_mul (significand_bounds hm) (significand_bounds hn), significand_mul, significand_mul]
  have hpos : 0 < 2 ^ 52 := Nat.two_pow_pos 52
  rcases Nat.lt_trichotomy (rounded m) (rounded n) with h | h | h
  · rw [Nat.compare_eq_lt.2 h, Nat.compare_eq_lt.2 (Nat.mul_lt_mul_of_pos_left h hpos)]
  · rw [h, Nat.compare_eq_eq.2 rfl, Nat.compare_eq_eq.2 rfl]
  · rw [Nat.compare_eq_gt.2 h, Nat.compare_eq_gt.2 (Nat.mul_lt_mul_of_pos_left h hpos)]

theorem rounded_pos (hn : n ≠ 0) : 0 < rounded n :=
  Nat.lt_of_lt_of_le (Nat.two_pow_pos _) (rounded_bounds hn).1

def roundedInt (i : Int) : Int :=
  if i < 0 then -rounded i.natAbs else rounded i.natAbs

theorem roundedInt_of_le {i : Int} (h : i.natAbs ≤ 2 ^ 53) : roundedInt i = i := by
  rw [roundedInt, rounded_of_le h]
  split <;> omega

theorem roundedInt_mono {i j : Int} (h : i ≤ j) : roundedInt i ≤ roundedInt j := by
  unfold roundedInt
  split <;> split
  · have := rounded_mono (m := j.natAbs) (n := i.natAbs) (by omega)
    omega
  · omega
  · omega
  · have := rounded_mono (m := i.natAbs) (n := j.natAbs) (by omega)
    omega

end Stencil.Rounding

import Stencil.Proofs.Number.Binary64
import Stencil.Proofs.Value.Order

namespace Stencil.Binary64

open Content (compareDoubles)
open Float.Model UnpackedFloat Rounding

/-- Where a double stands among the others: its kind and sign, then its exponent, then its significand. -/
def place : UnpackedFloat → List Int
  | .infinity .negative => [-2, 0, 0]
  | .finite .negative m e _ => [-1, -e, -m]
  | .zero _ => [0, 0, 0]
  | .finite .positive m e _ => [1, e, m]
  | .infinity .positive => [2, 0, 0]
  | .notANumber => [3, 0, 0]

theorem lt_iff (x y : Float) : x < y ↔ x.toModel.unpack.compare y.toModel.unpack = some .lt :=
  Iff.trans (decide_eq_true_iff (p := x.toModel < y.toModel)) beq_iff_eq

theorem beq_iff (x y : Float) : (x == y) = true ↔ x.toModel.unpack.compare y.toModel.unpack = some .eq := by
  show (x.toModel.unpack.compare y.toModel.unpack == some .eq) = true ↔ _
  exact beq_iff_eq

theorem compare_neg (a b : Int) : compare (-a) (-b) = (compare a b).swap := by
  rcases Int.lt_trichotomy a b with h | rfl | h
  · rw [compare_lt_iff_lt.2 h, compare_gt_iff_gt.2 (Int.neg_lt_neg h)]
    rfl
  · simp
  · rw [compare_gt_iff_gt.2 h, compare_lt_iff_lt.2 (Int.neg_lt_neg h)]
    rfl

theorem compare_natCast (m n : Nat) : compare (m : Int) n = compare m n := by
  simp [compare, compareOfLessAndEq]

@[simp]
theorem then_eq_self (o : Ordering) : o.then .eq = o := by
  cases o <;> rfl

theorem compareEach_of_kind (r a b a' b' : Int) :
    compareEach compare [r, a, b] [r, a', b'] = (compare a a').then (compare b b') := by
  show (compare r r).then ((compare a a').then ((compare b b').then .eq)) = _
  simp [Std.ReflOrd.compare_self]

theorem compare_place (u v : UnpackedFloat) : compareEach compare (place u) (place v) =
    (u.compare v).getD (compare u.isNaN v.isNaN) := by
  rcases u with (_ | _) | _ | (_ | _) | ⟨_ | _, m, e, hm⟩ <;>
    rcases v with (_ | _) | _ | (_ | _) | ⟨_ | _, m', e', hm'⟩ <;> try rfl
  · rw [place, place, compareEach_of_kind, compare_neg, compare_neg, compare_natCast, ← Ordering.swap_then]
    rfl
  · rw [place, place, compareEach_of_kind, compare_natCast]
    rfl

theorem compare_swap (u v : UnpackedFloat) : v.compare u = (u.compare v).map Ordering.swap := by
  rcases u with (_ | _) | _ | (_ | _) | ⟨_ | _, m, e, hm⟩ <;>
    rcases v with (_ | _) | _ | (_ | _) | ⟨_ | _, m', e', hm'⟩ <;> try rfl
  · show some ((compare e' e).then (compare m' m)).swap =
      some ((compare e e').then (compare m m')).swap.swap
    rw [Ordering.swap_then, ← Std.OrientedOrd.eq_swap, ← Std.OrientedOrd.eq_swap, Ordering.swap_swap]
  · show some ((compare e' e).then (compare m' m)) = some ((compare e e').then (compare m m')).swap
    rw [Ordering.swap_then, ← Std.OrientedOrd.eq_swap, ← Std.OrientedOrd.eq_swap]

theorem compareDoubles_eq (x y : Float) : compareDoubles x y =
    compareEach compare (place x.toModel.unpack) (place y.toModel.unpack) := by
  rw [compare_place]
  have hgt : y < x ↔ x.toModel.unpack.compare y.toModel.unpack = some .gt := by
    rw [lt_iff, compare_swap]
    cases x.toModel.unpack.compare y.toModel.unpack with
    | none => simp
    | some o => cases o <;> simp
  simp only [compareDoubles, gt_iff_lt, hgt, lt_iff, beq_iff]
  cases x.toModel.unpack.compare y.toModel.unpack with
  | none => rfl
  | some o => cases o <;> rfl

theorem length_place (u : UnpackedFloat) : (place u).length = 3 := by
  rcases u with (_ | _) | _ | (_ | _) | ⟨_ | _, m, e, hm⟩ <;> rfl

theorem compareDoubles_swap (x y : Float) :
    compareDoubles y x = (compareDoubles x y).swap := by
  rw [compareDoubles_eq, compareDoubles_eq]
  exact compareEach_swap fun _ _ _ _ => Std.OrientedOrd.eq_swap

@[simp]
theorem compareDoubles_self (x : Float) : compareDoubles x x = .eq := by
  rw [compareDoubles_eq]
  exact compareEach_self fun _ _ => Std.ReflOrd.compare_self

theorem chain_compareDoubles (x y z : Float) :
    Chain (compareDoubles x y) (compareDoubles y z) (compareDoubles x z) := by
  rw [compareDoubles_eq, compareDoubles_eq, compareDoubles_eq]
  apply chain_compareEach
  · rw [length_place, length_place]
  · rw [length_place, length_place]
  · exact fun _ _ _ _ _ _ => .of_transCmp ..

theorem toNat_natAbs (n : Int64) : n.toInt.natAbs.toUInt64.toNat = n.toInt.natAbs := by
  have hlow := n.le_toInt
  have hhigh := n.toInt_lt
  apply UInt64.toNat_ofNat_of_lt'
  show _ < 2 ^ 64
  omega

theorem place_of_pos {n : Int64} (h : 0 < n.toInt) : place (Value.intToDouble n).toModel.unpack =
    [1, (weight n.toInt.natAbs : Int) - 52, significand n.toInt.natAbs] := by
  have hn : n.toInt.natAbs.toUInt64.toNat ≠ 0 := by
    rw [toNat_natAbs]
    omega
  obtain ⟨hpos, hu⟩ := unpack_toFloat hn
  rw [Value.intToDouble, if_neg (by omega), hu, place, toNat_natAbs]

theorem place_of_neg {n : Int64} (h : n.toInt < 0) : place (Value.intToDouble n).toModel.unpack =
    [-1, -((weight n.toInt.natAbs : Int) - 52), -significand n.toInt.natAbs] := by
  have hn : n.toInt.natAbs.toUInt64.toNat ≠ 0 := by
    rw [toNat_natAbs]
    omega
  obtain ⟨hpos, hu⟩ := unpack_neg_toFloat hn
  rw [Value.intToDouble, if_pos h, hu, place, toNat_natAbs]

theorem place_of_zero {n : Int64} (h : n.toInt = 0) :
    place (Value.intToDouble n).toModel.unpack = [0, 0, 0] := by
  have hn : n.toInt.natAbs.toUInt64.toNat = 0 := by
    rw [toNat_natAbs, h]
    rfl
  rw [Value.intToDouble, if_neg (by omega), unpack_toFloat_zero hn, place]

theorem compare_significand {m n : Nat} (hm : m ≠ 0) (hn : n ≠ 0) :
    (compare ((weight m : Int) - 52) ((weight n : Int) - 52)).then
      (compare (significand m : Int) (significand n)) = compare (rounded m : Int) (rounded n) := by
  have hweight : compare ((weight m : Int) - 52) ((weight n : Int) - 52) = compare (weight m) (weight n) := by
    rw [← compare_natCast]
    simp [compare, compareOfLessAndEq]
  rw [hweight, compare_natCast, compare_natCast, compare_rounded hm hn]

/-- Integers become doubles that compare as the rounded integers do. -/
theorem compareDoubles_intToDouble (i j : Int64) :
    compareDoubles (Value.intToDouble i) (Value.intToDouble j) =
      compare (roundedInt i.toInt) (roundedInt j.toInt) := by
  wlog h : i.toInt ≤ j.toInt generalizing i j
  · rw [compareDoubles_swap, this j i (by omega), ← Std.OrientedOrd.eq_swap]
  have hpos {k : Int} (hk : k ≠ 0) : 0 < rounded k.natAbs := rounded_pos (by omega)
  rw [compareDoubles_eq]
  rcases Int.lt_trichotomy i.toInt 0 with hi | hi | hi
  · rw [place_of_neg hi, roundedInt, if_pos hi]
    have hi' := hpos (k := i.toInt) (by omega)
    rcases Int.lt_trichotomy j.toInt 0 with hj | hj | hj
    · rw [place_of_neg hj, roundedInt, if_pos hj, compareEach_of_kind, compare_neg, compare_neg, compare_neg,
        ← Ordering.swap_then, compare_significand (by omega) (by omega)]
    · rw [place_of_zero hj, hj, compare_lt_iff_lt.2]
      · rfl
      · show -(rounded i.toInt.natAbs : Int) < 0
        omega
    · rw [place_of_pos hj, roundedInt, if_neg (by omega), compare_lt_iff_lt.2]
      · rfl
      · have hj' := hpos (k := j.toInt) (by omega)
        omega
  · rw [place_of_zero hi, hi]
    rcases Int.lt_or_eq_of_le (hi ▸ h) with hj | hj
    · have hzero : roundedInt 0 = 0 := roundedInt_of_le (Nat.zero_le _)
      rw [place_of_pos hj, hzero, roundedInt, if_neg (by omega), compare_lt_iff_lt.2]
      · rfl
      · have hj' := hpos (k := j.toInt) (by omega)
        omega
    · rw [place_of_zero hj.symm, ← hj]
      rfl
  · have hj : 0 < j.toInt := by omega
    rw [place_of_pos hi, place_of_pos hj, roundedInt, roundedInt, if_neg (by omega), if_neg (by omega),
      compareEach_of_kind, compare_significand (by omega) (by omega)]

end Stencil.Binary64

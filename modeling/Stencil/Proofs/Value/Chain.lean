
namespace Stencil

/-- The comparisons of a first thing with a second, of that with a third and of the first with the third
agree: things that are equal compare alike with everything, and what holds twice holds through. -/
structure Chain (ab bc ac : Ordering) : Prop where
  left : ab = .eq → ac = bc
  right : bc = .eq → ac = ab
  through : ab = bc → ac = ab

namespace Chain

variable {ab bc ac ab' bc' ac' : Ordering}

theorem of_transCmp {α : Type} {cmp : α → α → Ordering} [Std.TransCmp cmp] (a b c : α) :
    Chain (cmp a b) (cmp b c) (cmp a c) := by
  refine ⟨Std.TransCmp.congr_left, fun h => (Std.TransCmp.congr_right h).symm, fun h => ?_⟩
  cases hab : cmp a b with
  | lt => exact Std.TransCmp.lt_trans hab (h.symm.trans hab)
  | eq => rw [Std.TransCmp.congr_left hab, ← h, hab]
  | gt => exact Std.TransCmp.gt_trans hab (h.symm.trans hab)

/-- A second comparison counts only where the first ones are equal. -/
theorem andThen (h : Chain ab bc ac) (h' : ab = .eq → bc = .eq → Chain ab' bc' ac') :
    Chain (ab.then ab') (bc.then bc') (ac.then ac') := by
  cases ab with
  | eq =>
      obtain rfl := h.left rfl
      cases ac with
      | eq => exact h' rfl rfl
      | lt => exact ⟨fun _ => rfl, nofun, fun he => he.symm⟩
      | gt => exact ⟨fun _ => rfl, nofun, fun he => he.symm⟩
  | lt =>
      cases bc with
      | eq =>
          obtain rfl := h.right rfl
          exact ⟨nofun, fun _ => rfl, fun _ => rfl⟩
      | gt => exact ⟨nofun, nofun, nofun⟩
      | lt =>
          rw [h.through rfl]
          exact ⟨nofun, nofun, fun _ => rfl⟩
  | gt =>
      cases bc with
      | eq =>
          obtain rfl := h.right rfl
          exact ⟨nofun, fun _ => rfl, fun _ => rfl⟩
      | lt => exact ⟨nofun, nofun, nofun⟩
      | gt =>
          rw [h.through rfl]
          exact ⟨nofun, nofun, fun _ => rfl⟩

theorem ne_gt (h : Chain ab bc ac) (hab : ab ≠ .gt) (hbc : bc ≠ .gt) : ac ≠ .gt := by
  cases ab with
  | gt => exact absurd rfl hab
  | eq =>
      rw [h.left rfl]
      exact hbc
  | lt =>
      cases bc with
      | gt => exact absurd rfl hbc
      | eq =>
          rw [h.right rfl]
          exact hab
      | lt =>
          rw [h.through rfl]
          exact hab

theorem eq_trans (h : Chain ab bc ac) (hab : ab = .eq) (hbc : bc = .eq) : ac = .eq :=
  (h.left hab).trans hbc

theorem eq_of_ne_gt (h : Chain ab bc .eq) (hab : ab ≠ .gt) (hbc : bc ≠ .gt) : ab = .eq ∧ bc = .eq := by
  cases ab with
  | gt => exact absurd rfl hab
  | eq => exact ⟨rfl, (h.left rfl).symm⟩
  | lt =>
      cases bc with
      | gt => exact absurd rfl hbc
      | eq => cases h.right rfl
      | lt => cases h.through rfl

end Chain

def compareEach {α : Type} (cmp : α → α → Ordering) : List α → List α → Ordering
  | x :: xs, y :: ys => (cmp x y).then (compareEach cmp xs ys)
  | _, _ => .eq

section

variable {α : Type} {cmp : α → α → Ordering} {xs ys zs : List α}

theorem compareEach_self (h : ∀ x ∈ xs, cmp x x = .eq) : compareEach cmp xs xs = .eq := by
  induction xs with
  | nil => rfl
  | cons x xs ih =>
      obtain ⟨hx, h⟩ := List.forall_mem_cons.1 h
      rw [compareEach, hx, ih h]
      rfl

theorem compareEach_swap (h : ∀ x ∈ xs, ∀ y ∈ ys, cmp y x = (cmp x y).swap) :
    compareEach cmp ys xs = (compareEach cmp xs ys).swap := by
  induction xs generalizing ys with
  | nil => cases ys <;> rfl
  | cons x xs ih =>
      cases ys with
      | nil => rfl
      | cons y ys =>
          rw [compareEach, compareEach, Ordering.swap_then, h x (by simp) y (by simp), ih]
          intro x' hx y' hy
          exact h x' (by simp [hx]) y' (by simp [hy])

theorem chain_compareEach (hxy : xs.length = ys.length) (hyz : ys.length = zs.length)
    (h : ∀ x ∈ xs, ∀ y ∈ ys, ∀ z ∈ zs, Chain (cmp x y) (cmp y z) (cmp x z)) :
    Chain (compareEach cmp xs ys) (compareEach cmp ys zs) (compareEach cmp xs zs) := by
  induction xs generalizing ys zs with
  | nil =>
      obtain rfl := List.eq_nil_of_length_eq_zero hxy.symm
      obtain rfl := List.eq_nil_of_length_eq_zero hyz.symm
      exact ⟨fun _ => rfl, fun _ => rfl, fun _ => rfl⟩
  | cons x xs ih =>
      obtain ⟨y, ys, rfl⟩ := List.exists_cons_of_length_eq_add_one hxy.symm
      obtain ⟨z, zs, rfl⟩ := List.exists_cons_of_length_eq_add_one hyz.symm
      rw [compareEach, compareEach, compareEach]
      refine (h x (by simp) y (by simp) z (by simp)).andThen fun _ _ => ?_
      apply ih (Nat.succ.inj hxy) (Nat.succ.inj hyz)
      intro x' hx y' hy z' hz
      exact h x' (by simp [hx]) y' (by simp [hy]) z' (by simp [hz])

theorem eq_of_compareEach (hl : xs.length = ys.length)
    (h : ∀ x ∈ xs, ∀ y ∈ ys, cmp x y = .eq → x = y) (hc : compareEach cmp xs ys = .eq) : xs = ys := by
  induction xs generalizing ys with
  | nil => exact (List.eq_nil_of_length_eq_zero hl.symm).symm
  | cons x xs ih =>
      obtain ⟨y, ys, rfl⟩ := List.exists_cons_of_length_eq_add_one hl.symm
      rw [compareEach, Ordering.then_eq_eq] at hc
      rw [h x (by simp) y (by simp) hc.1, ih (Nat.succ.inj hl) ?_ hc.2]
      intro x' hx y' hy
      exact h x' (by simp [hx]) y' (by simp [hy])

end

end Stencil

import Stencil.Proofs.Value.Chain
import Stencil.Value.Content

namespace Stencil

namespace Content

inductive DoubleFree : Content → Prop
  | null : DoubleFree .null
  | bool (b : Bool) : DoubleFree (.bool b)
  | int (n : Int64) : DoubleFree (.int n)
  | string (s : String) : DoubleFree (.string s)
  | list {items : List Content} : (∀ x ∈ items, DoubleFree x) → DoubleFree (.list items)
  | record {fields : List (String × Content)} : (∀ f ∈ fields, DoubleFree f.2) → DoubleFree (.record fields)
  | sealed (typeName : String) : DoubleFree (.sealed typeName)

variable {a b c : Content}

def compareField (f g : String × Content) : Ordering :=
  (Ord.compare f.1 g.1).then (f.2.compare g.2)

theorem compareItems_eq (xs ys : List Content) : compareItems xs ys = compareEach compare xs ys := by
  induction xs generalizing ys with
  | nil => rfl
  | cons x xs ih =>
      cases ys with
      | nil => rfl
      | cons y ys => rw [compareItems, compareEach, ih]

theorem compareFields_eq (fs gs : List (String × Content)) :
    compareFields fs gs = compareEach compareField fs gs := by
  induction fs generalizing gs with
  | nil => rfl
  | cons f fs ih =>
      cases gs with
      | nil => rfl
      | cons g gs => rw [compareFields, compareEach, ih, compareField]

theorem compare_list (xs ys : List Content) :
    compare (.list xs) (.list ys) = (Ord.compare xs.length ys.length).then (compareEach compare xs ys) := by
  rw [compare, compareItems_eq]

theorem compare_record (fs gs : List (String × Content)) :
    compare (.record fs) (.record gs) =
      (Ord.compare fs.length gs.length).then (compareEach compareField fs gs) := by
  rw [compare, compareFields_eq]

/-- Without doubles the rank decides first. -/
theorem DoubleFree.compare_eq (ha : a.DoubleFree) (hb : b.DoubleFree) :
    a.compare b = (Ord.compare a.rank b.rank).then (a.compare b) := by
  cases ha <;> cases hb <;> simp [compare, rank]

theorem DoubleFree.compare_self (h : a.DoubleFree) : a.compare a = .eq := by
  induction h with
  | null => rfl
  | bool | int | string | sealed => exact Std.ReflOrd.compare_self
  | list _ ih =>
      rw [compare_list, Std.ReflOrd.compare_self]
      exact compareEach_self ih
  | record _ ih =>
      rw [compare_record, Std.ReflOrd.compare_self]
      apply compareEach_self
      intro f hf
      rw [compareField, Std.ReflOrd.compare_self]
      exact ih f hf

theorem DoubleFree.compare_swap (ha : a.DoubleFree) (hb : b.DoubleFree) :
    b.compare a = (a.compare b).swap := by
  induction ha generalizing b with
  | null => cases hb <;> rfl
  | list _ ih =>
      cases hb with
      | list hys =>
          rw [compare_list, compare_list, Ordering.swap_then, ← Std.OrientedOrd.eq_swap,
            compareEach_swap fun x hx y hy => ih x hx (hys y hy)]
      | _ => rfl
  | record _ ih =>
      cases hb with
      | record hgs =>
          rw [compare_record, compare_record, Ordering.swap_then, ← Std.OrientedOrd.eq_swap,
            compareEach_swap]
          intro f hf g hg
          rw [compareField, compareField, Ordering.swap_then, ← Std.OrientedOrd.eq_swap,
            ih f hf (hgs g hg)]
      | _ => rfl
  | bool | int | string | sealed =>
      cases hb <;> exact Std.OrientedOrd.eq_swap

theorem chain_of_rank (ha : a.DoubleFree) (hb : b.DoubleFree) (hc : c.DoubleFree)
    (h : a.rank = b.rank → b.rank = c.rank → Chain (a.compare b) (b.compare c) (a.compare c)) :
    Chain (a.compare b) (b.compare c) (a.compare c) := by
  rw [ha.compare_eq hb, hb.compare_eq hc, ha.compare_eq hc]
  refine (Chain.of_transCmp ..).andThen fun hab hbc => ?_
  exact h (Std.LawfulEqOrd.eq_of_compare hab) (Std.LawfulEqOrd.eq_of_compare hbc)

theorem DoubleFree.chain (ha : a.DoubleFree) (hb : b.DoubleFree) (hc : c.DoubleFree) :
    Chain (a.compare b) (b.compare c) (a.compare c) := by
  induction ha generalizing b c with
  | null =>
      refine chain_of_rank .null hb hc fun hab hbc => ?_
      cases hb with
      | null => exact ⟨fun _ => rfl, fun h => h, fun h => h.symm⟩
      | _ => simp [rank] at hab
  | list hxs ih =>
      refine chain_of_rank (.list hxs) hb hc fun hab hbc => ?_
      cases hb with
      | list hys =>
          cases hc with
          | list hzs =>
              rw [compare_list, compare_list, compare_list]
              refine (Chain.of_transCmp ..).andThen fun hxy hyz => ?_
              apply chain_compareEach (Std.LawfulEqOrd.eq_of_compare hxy)
                (Std.LawfulEqOrd.eq_of_compare hyz)
              exact fun x hx y hy z hz => ih x hx (hys y hy) (hzs z hz)
          | _ => simp [rank] at hbc
      | _ => simp [rank] at hab
  | record hfs ih =>
      refine chain_of_rank (.record hfs) hb hc fun hab hbc => ?_
      cases hb with
      | record hgs =>
          cases hc with
          | record hks =>
              rw [compare_record, compare_record, compare_record]
              refine (Chain.of_transCmp ..).andThen fun hfg hgk => ?_
              apply chain_compareEach (Std.LawfulEqOrd.eq_of_compare hfg)
                (Std.LawfulEqOrd.eq_of_compare hgk)
              intro f hf g hg k hk
              exact (Chain.of_transCmp ..).andThen fun _ _ => ih f hf (hgs g hg) (hks k hk)
          | _ => simp [rank] at hbc
      | _ => simp [rank] at hab
  | bool | int | string | sealed =>
      refine chain_of_rank (by constructor) hb hc fun hab hbc => ?_
      cases hb <;> try (simp [rank] at hab; done)
      all_goals
        cases hc <;> try (simp [rank] at hbc; done)
        rw [compare, compare, compare]
        exact .of_transCmp ..

theorem DoubleFree.eq_of_compare (ha : a.DoubleFree) (hb : b.DoubleFree) (h : a.compare b = .eq) :
    a = b := by
  induction ha generalizing b with
  | null =>
      cases hb with
      | null => rfl
      | _ => cases h
  | list _ ih =>
      cases hb with
      | list hys =>
          rw [compare_list, Ordering.then_eq_eq] at h
          obtain ⟨hl, h⟩ := h
          rw [eq_of_compareEach (Std.LawfulEqOrd.eq_of_compare hl)
            (fun x hx y hy => ih x hx (hys y hy)) h]
      | _ => cases h
  | record _ ih =>
      cases hb with
      | record hgs =>
          rw [compare_record, Ordering.then_eq_eq] at h
          obtain ⟨hl, h⟩ := h
          rw [eq_of_compareEach (Std.LawfulEqOrd.eq_of_compare hl) ?_ h]
          intro f hf g hg hfg
          rw [compareField, Ordering.then_eq_eq] at hfg
          exact Prod.ext (Std.LawfulEqOrd.eq_of_compare hfg.1) (ih f hf (hgs g hg) hfg.2)
      | _ => cases h
  | bool | int | string | sealed =>
      cases hb <;> first | exact congrArg _ (Std.LawfulEqOrd.eq_of_compare h) | cases h

end Content

end Stencil

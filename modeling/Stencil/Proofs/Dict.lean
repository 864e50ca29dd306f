import Stencil.Basic

namespace Stencil.Dict

variable {α : Type}

@[simp]
theorem get?_cons (key name : String) (value : α) (d : Dict α) :
    Dict.get? ((key, value) :: d) name = if name = key then some value else d.get? name := by
  by_cases h : name = key
  · subst h
    simp [get?]
  · have hb : (name == key) = false := beq_false_of_ne h
    simp [get?, List.lookup_cons, hb, h]

theorem get?_insert (d : Dict α) (key name : String) (value : α) :
    (d.insert key value).get? name = if name = key then some value else d.get? name := by
  induction d with
  | nil => exact get?_cons key name value []
  | cons b rest ih =>
      rcases b with ⟨k, v⟩
      rw [insert]
      split
      next => exact get?_cons key name value _
      next he =>
        obtain rfl : key = k := Std.LawfulEqCmp.eq_of_compare he
        rw [get?_cons, get?_cons]
        by_cases h : name = key <;> simp [h]
      next hg =>
        have hne : key ≠ k := by
          rintro rfl
          have hs : compare key key = .eq := Std.ReflCmp.compare_self
          rw [hs] at hg
          cases hg
        rw [get?_cons, get?_cons, ih]
        by_cases h : name = k
        · subst h
          simp [Ne.symm hne]
        · simp [h]

@[simp]
theorem get?_insert_self (d : Dict α) (key : String) (value : α) :
    (d.insert key value).get? key = some value := by
  simp [get?_insert]

@[simp]
theorem get?_insert_of_ne (d : Dict α) {key name : String} (value : α) (h : name ≠ key) :
    (d.insert key value).get? name = d.get? name := by
  simp [get?_insert, h]

theorem mem_of_get? {d : Dict α} {name : String} {value : α} (h : d.get? name = some value) :
    (name, value) ∈ d := by
  obtain ⟨before, after, rfl, -⟩ := List.lookup_eq_some_iff.1 h
  exact List.mem_append_right before List.mem_cons_self

theorem mem_insert {d : Dict α} {key : String} {value : α} {b : String × α} (h : b ∈ d.insert key value) :
    b = (key, value) ∨ b ∈ d := by
  induction d with
  | nil => exact .inl (List.mem_singleton.1 h)
  | cons c rest ih =>
      obtain ⟨k, v⟩ := c
      rw [insert] at h
      split at h
      next => exact List.mem_cons.1 h
      next =>
        rcases List.mem_cons.1 h with h | h
        · exact .inl h
        · exact .inr (List.mem_cons_of_mem _ h)
      next =>
        rcases List.mem_cons.1 h with rfl | h
        · exact .inr List.mem_cons_self
        · exact (ih h).imp_right (List.mem_cons_of_mem _)

theorem mem_foldl_insert {bindings : List (String × α)} {d : Dict α} {b : String × α}
    (h : b ∈ bindings.foldl (fun d b => insert b.1 b.2 d) d) : b ∈ bindings ∨ b ∈ d := by
  induction bindings generalizing d with
  | nil => exact .inr h
  | cons c rest ih =>
      rcases ih h with hm | hd
      · exact .inl (List.mem_cons_of_mem _ hm)
      · rcases mem_insert hd with rfl | hd
        · exact .inl List.mem_cons_self
        · exact .inr hd

theorem mem_of_mem_ofList {bindings : List (String × α)} {b : String × α} (h : b ∈ ofList bindings) :
    b ∈ bindings :=
  (mem_foldl_insert h).resolve_right List.not_mem_nil

theorem mem_of_get?_ofList {bindings : List (String × α)} {name : String} {value : α}
    (h : (ofList bindings).get? name = some value) : (name, value) ∈ bindings :=
  mem_of_mem_ofList (mem_of_get? h)

theorem sorted_insert {d : Dict α} (hd : d.Sorted) (key : String) (value : α) :
    (d.insert key value).Sorted := by
  induction d with
  | nil => exact List.pairwise_singleton _ _
  | cons c rest ih =>
      obtain ⟨k, v⟩ := c
      obtain ⟨hk, hrest⟩ := List.pairwise_cons.1 hd
      rw [insert]
      split
      next hlt =>
        refine List.pairwise_cons.2 ⟨fun b hb => ?_, hd⟩
        rcases List.mem_cons.1 hb with rfl | hb
        · exact hlt
        · exact Std.TransCmp.lt_trans hlt (hk b hb)
      next he =>
        obtain rfl : key = k := Std.LawfulEqCmp.eq_of_compare he
        exact List.pairwise_cons.2 ⟨hk, hrest⟩
      next hgt =>
        refine List.pairwise_cons.2 ⟨fun b hb => ?_, ih hrest⟩
        rcases mem_insert hb with rfl | hb
        · exact Std.OrientedCmp.lt_of_gt hgt
        · exact hk b hb

theorem sorted_foldl_insert {d : Dict α} (hd : d.Sorted) (bindings : List (String × α)) :
    Sorted (bindings.foldl (fun d b => insert b.1 b.2 d) d) := by
  induction bindings generalizing d with
  | nil => exact hd
  | cons b rest ih => exact ih (sorted_insert hd b.1 b.2)

theorem sorted_ofList (bindings : List (String × α)) : (ofList bindings).Sorted :=
  sorted_foldl_insert List.Pairwise.nil bindings

theorem insert_of_lt {d : Dict α} {key : String} {value : α}
    (h : ∀ b ∈ d, compare b.1 key = .lt) : d.insert key value = d ++ [(key, value)] := by
  induction d with
  | nil => rfl
  | cons b rest ih =>
      obtain ⟨k, v⟩ := b
      have hk : compare key k = .gt := Std.OrientedCmp.gt_of_lt (h _ List.mem_cons_self)
      rw [insert, hk, ih fun b hb => h b (List.mem_cons_of_mem _ hb)]
      rfl

theorem foldl_insert_of_sorted {d bindings : Dict α} (h : Sorted (d ++ bindings)) :
    bindings.foldl (fun d b => insert b.1 b.2 d) d = d ++ bindings := by
  induction bindings generalizing d with
  | nil => rw [List.foldl_nil, List.append_nil]
  | cons b rest ih =>
      have hb : ∀ a ∈ d, compare a.1 b.1 = .lt := fun a ha =>
        (List.pairwise_append.1 h).2.2 a ha b List.mem_cons_self
      rw [List.foldl_cons, insert_of_lt hb, ih (by simpa using h), List.append_assoc]
      rfl

/-- A map whose names are in order is what its own bindings build. -/
theorem ofList_of_sorted {d : Dict α} (h : d.Sorted) : ofList d = d :=
  foldl_insert_of_sorted (d := []) h

/-- The first name of a map is bound once. -/
theorem Sorted.get?_rest {key : String} {value : α} {rest : Dict α} (h : Sorted ((key, value) :: rest)) :
    rest.get? key = none := by
  rw [get?, List.lookup_eq_none_iff]
  intro b hb
  have hlt := (List.pairwise_cons.1 h).1 b hb
  refine bne_iff_ne.2 ?_
  rintro rfl
  have hs : compare b.1 b.1 = .eq := Std.ReflCmp.compare_self
  rw [hs] at hlt
  cases hlt

end Stencil.Dict

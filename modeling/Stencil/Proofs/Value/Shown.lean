import Stencil.Proofs.Value.Order

namespace Stencil

namespace Value

variable {v : Value} {vs : List Value}

def fields : Value → List (String × Value)
  | map entries => entries
  | v => (v.propertyNames?.getD []).map fun name => (name, v.property name)

theorem contents_eq_map (vs : List Value) : contents vs = vs.map content := by
  induction vs with
  | nil => rfl
  | cons v vs ih => rw [contents, ih, List.map_cons]

theorem fieldContents_eq_map (fs : List (String × Value)) :
    fieldContents fs = fs.map fun f => (f.1, f.2.content) := by
  induction fs with
  | nil => rfl
  | cons f fs ih => rw [fieldContents, ih, List.map_cons]

theorem listOf_map (n : Nat) (vs : List Value) :
    listOf n (vs.map content) = ((List.range n).map fun i => vs[i]?.getD null).map content := by
  rw [listOf, List.map_map]
  apply List.map_congr_left
  intro i _
  rw [List.getElem?_map, Function.comp_apply]
  cases vs[i]? <;> rfl

@[simp]
theorem lookup_map_content (fs : List (String × Value)) (name : String) :
    ((fs.map fun f => (f.1, f.2.content)).lookup name).getD .null =
      ((fs.lookup name).getD null).content := by
  induction fs with
  | nil => rfl
  | cons f fs ih =>
      obtain ⟨key, v⟩ := f
      rw [List.map_cons, List.lookup_cons, List.lookup_cons]
      by_cases h : name == key
      · rw [h]
        rfl
      · rw [Bool.not_eq_true] at h
        rw [h]
        exact ih

theorem recordOf_map (names : List String) (fs : List (String × Value)) :
    recordOf names (fs.map fun f => (f.1, f.2.content)) =
      (sortNames names).map fun name => (name, ((fs.lookup name).getD null).content) := by
  apply List.map_congr_left
  intro name _
  simp

theorem elements?_eq_some_iff : v.isArrayLike ↔ ∃ vs, v.elements? = some vs := by
  cases v with
  | array items => simp [isArrayLike, elements?]
  | host kind => cases h : kind.isArray <;> simp [isArrayLike, elements?, h]
  | _ => simp [isArrayLike, elements?]

theorem content_of_elements (h : v.elements? = some vs) : v.content = .list (vs.map content) := by
  cases v with
  | array items =>
      obtain rfl := Option.some.inj h
      rw [content, contents_eq_map]
  | host kind =>
      rw [elements?] at h
      split at h
      next hk =>
        obtain rfl := Option.some.inj h
        rw [content, if_pos hk, contents_eq_map, listOf_map]
        rfl
      next => cases h
  | _ => cases h

theorem content_of_isMapLike (h : v.isMapLike) :
    v.content = .record (v.fields.map fun f => (f.1, f.2.content)) := by
  cases v with
  | map entries => rw [content, fields, fieldContents_eq_map]
  | host kind items names properties =>
      simp only [isMapLike, Bool.and_eq_true, Bool.not_eq_true'] at h
      obtain ⟨hm, ha⟩ := h
      have hfields : fields (.host kind items names properties) =
          (sortNames names).map fun name => (name, (properties.lookup name).getD null) := by
        simp [fields, propertyNames?, property, hm]
      rw [content, ha, if_neg Bool.false_ne_true, if_pos hm, fieldContents_eq_map, recordOf_map, hfields,
        List.map_map]
      rfl
  | _ => cases h

@[simp]
theorem toJson_null : null.toJson = .null := rfl

@[simp]
theorem toJson_bool (b : Bool) : (bool b).toJson = .bool b := rfl

@[simp]
theorem toJson_int (n : Int64) : (int n).toJson = .int n.toInt := rfl

@[simp]
theorem toJson_double (x : Float) : (double x).toJson = if x.isFinite then .double x else .null := rfl

@[simp]
theorem toJson_string (s : String) : (string s).toJson = .string s := rfl

theorem itemsToJson_map (vs : List Value) : Content.itemsToJson (vs.map content) = vs.map toJson := by
  induction vs with
  | nil => rfl
  | cons v vs ih => rw [List.map_cons, List.map_cons, Content.itemsToJson, ih, toJson]

theorem fieldsToJson_map (fs : List (String × Value)) :
    Content.fieldsToJson (fs.map fun f => (f.1, f.2.content)) = fs.map fun f => (f.1, f.2.toJson) := by
  induction fs with
  | nil => rfl
  | cons f fs ih => rw [List.map_cons, List.map_cons, Content.fieldsToJson, ih, toJson]

/-- An array-like value is written as its elements are. -/
theorem toJson_of_elements (h : v.elements? = some vs) : v.toJson = .array (vs.map toJson) := by
  rw [toJson, content_of_elements h, Content.toJson, itemsToJson_map]

theorem toJson_of_isMapLike (h : v.isMapLike) : v.toJson = .object (v.fields.map fun f => (f.1, f.2.toJson)) := by
  rw [toJson, content_of_isMapLike h, Content.toJson, fieldsToJson_map]

theorem toJson_host {kind : HostKind} (ha : kind.isArray = false) (hm : kind.isMap = false) (items : List Value)
    (names : List String) (properties : List (String × Value)) :
    (host kind items names properties).toJson = .string ("<" ++ kind.typeName ++ ">") := by
  simp [toJson, content, ha, hm, Content.toJson]

/-- Neither a double itself nor with a double in what it shows, however deep. A host object that is
neither like an array nor like a map shows nothing. -/
inductive DoubleFree : Value → Prop
  | intro {v : Value} : (∀ x, v ≠ .double x) →
      (∀ vs, v.elements? = some vs → ∀ w ∈ vs, DoubleFree w) →
        (v.isMapLike → ∀ f ∈ v.fields, DoubleFree f.2) → DoubleFree v

inductive Plain : Value → Prop
  | null : Plain .null
  | bool (b : Bool) : Plain (.bool b)
  | int (n : Int64) : Plain (.int n)
  | string (s : String) : Plain (.string s)
  | array {items : List Value} : (∀ v ∈ items, Plain v) → Plain (.array items)
  | map {entries : List (String × Value)} : (∀ e ∈ entries, Plain e.2) → Plain (.map entries)

theorem DoubleFree.content (h : v.DoubleFree) : v.content.DoubleFree := by
  induction h with
  | @intro v hd he hf ihe ihf =>
      by_cases ha : v.isArrayLike
      · obtain ⟨vs, hvs⟩ := elements?_eq_some_iff.1 ha
        rw [content_of_elements hvs]
        apply Content.DoubleFree.list
        simpa using ihe vs hvs
      by_cases hm : v.isMapLike
      · rw [content_of_isMapLike hm]
        apply Content.DoubleFree.record
        intro f hf
        obtain ⟨g, hg, rfl⟩ := List.mem_map.1 hf
        exact ihf hm g hg
      cases v with
      | double x => exact absurd rfl (hd x)
      | array | map => simp [isArrayLike, isMapLike] at ha hm
      | host kind =>
          simp only [isArrayLike, isMapLike, Bool.and_eq_true, Bool.not_eq_true'] at ha hm
          rw [Value.content, if_neg ha, if_neg fun h => hm ⟨h, Bool.eq_false_iff.2 ha⟩]
          exact .sealed _
      | null => exact .null
      | bool b => exact .bool b
      | int n => exact .int n
      | string s => exact .string s

theorem Plain.doubleFree (h : v.Plain) : v.DoubleFree := by
  induction h with
  | null | bool | int | string => exact ⟨nofun, nofun, nofun⟩
  | array _ ih =>
      refine ⟨nofun, fun vs hvs => ?_, nofun⟩
      obtain rfl := Option.some.inj hvs
      exact ih
  | map _ ih => exact ⟨nofun, nofun, fun _ => ih⟩

theorem eq_of_map_eq {α β : Type} {f : α → β} {xs ys : List α}
    (hf : ∀ x ∈ xs, ∀ y ∈ ys, f x = f y → x = y) (h : xs.map f = ys.map f) : xs = ys := by
  induction xs generalizing ys with
  | nil => exact (List.map_eq_nil_iff.1 h.symm).symm
  | cons x xs ih =>
      obtain ⟨y, ys, rfl, hy, hys⟩ := List.map_eq_cons_iff.1 h.symm
      rw [hf x (by simp) y (by simp) hy.symm, ih ?_ hys.symm]
      intro x' hx y' hy'
      exact hf x' (by simp [hx]) y' (by simp [hy'])

theorem Plain.eq_of_content {w : Value} (hv : v.Plain) (hw : w.Plain) (h : v.content = w.content) :
    v = w := by
  induction hv generalizing w with
  | array _ ih =>
      cases hw with
      | array hws =>
          rw [content, content, contents_eq_map, contents_eq_map, Content.list.injEq] at h
          rw [eq_of_map_eq (fun x hx y hy => ih x hx (hws y hy)) h]
      | _ => cases h
  | map _ ih =>
      cases hw with
      | map hgs =>
          rw [content, content, fieldContents_eq_map, fieldContents_eq_map, Content.record.injEq] at h
          rw [eq_of_map_eq ?_ h]
          intro f hf g hg hfg
          obtain ⟨hkey, hvalue⟩ := Prod.mk.inj hfg
          exact Prod.ext hkey (ih f hf (hgs g hg) hvalue)
      | _ => cases h
  | null =>
      cases hw with
      | null => rfl
      | _ => cases h
  | bool b =>
      cases hw with
      | bool b' => exact congrArg Value.bool (Content.bool.inj h)
      | _ => cases h
  | int n =>
      cases hw with
      | int n' => exact congrArg Value.int (Content.int.inj h)
      | _ => cases h
  | string s =>
      cases hw with
      | string s' => exact congrArg Value.string (Content.string.inj h)
      | _ => cases h

end Value

end Stencil

import Mathlib.Data.List.Forall2
import Stencil.Proofs.Dict
import Stencil.Proofs.Value.Shown

namespace Stencil

namespace Value

mutual

/-- The same value, but any of its host objects may have given way to plain data: one that is only like an array, or
one that is only like a map, lists each name once, has as many as it says, and answers null to all others. -/
inductive Opened : Value → Value → Prop
  | same (v : Value) : Opened v v
  | array {items items' : List Value} (h : OpenedItems items items') : Opened (array items) (array items')
  | map {entries entries' : List (String × Value)} (h : OpenedFields entries entries') :
      Opened (map entries) (map entries')
  | host (kind : HostKind) {items items' : List Value} (names : List String)
      {properties properties' : List (String × Value)} (hi : OpenedItems items items')
      (hp : OpenedFields properties properties') :
      Opened (host kind items names properties) (host kind items' names properties')
  | elements {kind : HostKind} {items items' : List Value} {names : List String}
      {properties : List (String × Value)} (ha : kind.isArray) (hm : !kind.isMap)
      (h : OpenedItems (hostElements kind items) items') : Opened (host kind items names properties) (array items')
  | properties {kind : HostKind} {items : List Value} {names : List String}
      {properties entries : List (String × Value)} (hm : kind.isMap) (ha : !kind.isArray) (hn : names.Nodup)
      (hl : kind.length = names.length)
      (hother : ∀ name ∉ names, (host kind items names properties).property name = null)
      (h : OpenedFields (host kind items names properties).fields entries) :
      Opened (host kind items names properties) (map entries)

inductive OpenedItems : List Value → List Value → Prop
  | nil : OpenedItems [] []
  | cons {v v' : Value} {vs vs' : List Value} (h : Opened v v') (hr : OpenedItems vs vs') :
      OpenedItems (v :: vs) (v' :: vs')

inductive OpenedFields : List (String × Value) → List (String × Value) → Prop
  | nil : OpenedFields [] []
  | cons (name : String) {v v' : Value} {fs fs' : List (String × Value)} (h : Opened v v')
      (hr : OpenedFields fs fs') : OpenedFields ((name, v) :: fs) ((name, v') :: fs')

end

variable {v v' : Value} {vs vs' ws ws' : List Value} {fs fs' : List (String × Value)}

theorem openedItems_iff : OpenedItems vs vs' ↔ List.Forall₂ Opened vs vs' := by
  constructor
  · intro h
    induction vs generalizing vs' with
    | nil =>
        cases h
        exact .nil
    | cons v vs ih =>
        cases h with
        | cons h hr => exact .cons h (ih hr)
  · intro h
    induction h with
    | nil => exact .nil
    | cons h _ ih => exact .cons h ih

theorem OpenedItems.refl (vs : List Value) : OpenedItems vs vs := by
  induction vs with
  | nil => exact .nil
  | cons v vs ih => exact .cons (.same v) ih

theorem OpenedItems.getElem? (h : OpenedItems vs vs') (i : Nat) :
    Opened (vs[i]?.getD null) (vs'[i]?.getD null) := by
  induction vs generalizing vs' i with
  | nil =>
      cases h
      exact .same _
  | cons v vs ih =>
      cases h with
      | cons h hr =>
          cases i with
          | zero => exact h
          | succ i => exact ih hr i

theorem OpenedItems.length_eq (h : OpenedItems vs vs') : vs'.length = vs.length :=
  (openedItems_iff.1 h).length_eq.symm

theorem OpenedItems.append (h : OpenedItems vs vs') (hw : OpenedItems ws ws') : OpenedItems (vs ++ ws) (vs' ++ ws') :=
  openedItems_iff.2 (List.rel_append (openedItems_iff.1 h) (openedItems_iff.1 hw))

theorem OpenedItems.dropLast (h : OpenedItems vs vs') : OpenedItems vs.dropLast vs'.dropLast := by
  rw [List.dropLast_eq_take, List.dropLast_eq_take, h.length_eq]
  exact openedItems_iff.2 (List.forall₂_take _ (openedItems_iff.1 h))

theorem OpenedItems.headD (h : OpenedItems vs vs') : Opened (vs.headD null) (vs'.headD null) := by
  cases h with
  | nil => exact .same _
  | cons h => exact h

theorem OpenedItems.getLastD (h : OpenedItems vs vs') : Opened (vs.getLastD null) (vs'.getLastD null) := by
  rw [List.getLastD_eq_getLast?, List.getLastD_eq_getLast?, List.getLast?_eq_getElem?, List.getLast?_eq_getElem?,
    h.length_eq]
  exact h.getElem? _

theorem OpenedFields.map_fst (h : OpenedFields fs fs') : fs'.map Prod.fst = fs.map Prod.fst := by
  induction fs generalizing fs' with
  | nil =>
      cases h
      rfl
  | cons f fs ih =>
      cases h with
      | cons name h hr => rw [List.map_cons, List.map_cons, ih hr]

theorem OpenedFields.lookup (h : OpenedFields fs fs') (name : String) :
    Opened ((fs.lookup name).getD null) ((fs'.lookup name).getD null) := by
  induction fs generalizing fs' with
  | nil =>
      cases h
      exact .same _
  | cons f fs ih =>
      cases h with
      | cons key h hr =>
          rw [List.lookup_cons, List.lookup_cons]
          split
          · exact h
          · exact ih hr

theorem opened_hostElements (kind : HostKind) {items items' : List Value} (h : OpenedItems items items') :
    OpenedItems (hostElements kind items) (hostElements kind items') := by
  rw [openedItems_iff, hostElements, hostElements, List.forall₂_map_left_iff, List.forall₂_map_right_iff,
    List.forall₂_same]
  exact fun i _ => h.getElem? i

section

variable {kind : HostKind} {items : List Value} {names : List String} {properties : List (String × Value)}

theorem fields_host (hm : kind.isMap) :
    (host kind items names properties).fields =
      (sortNames names).map fun name => (name, (host kind items names properties).property name) := by
  simp [fields, propertyNames?, hm]

theorem map_fst_fields (hm : kind.isMap) :
    (host kind items names properties).fields.map Prod.fst = sortNames names := by
  rw [fields_host hm, List.map_map]
  exact List.map_id _

theorem length_fields (hm : kind.isMap) : (host kind items names properties).fields.length = names.length := by
  rw [fields_host hm, List.length_map, sortNames, List.length_mergeSort]

theorem lookup_map_pair (f : String → Value) {names : List String} {name : String}
    (h : name ∉ names → f name = null) : ((names.map fun n => (n, f n)).lookup name).getD null = f name := by
  induction names with
  | nil => exact (h List.not_mem_nil).symm
  | cons n names ih =>
      rw [List.map_cons, List.lookup_cons]
      split
      next heq => rw [eq_of_beq heq, Option.getD_some]
      next hne => exact ih fun hn => h (by simp_all)

theorem lookup_fields (hm : kind.isMap)
    (hother : ∀ name ∉ names, (host kind items names properties).property name = null) (name : String) :
    ((host kind items names properties).fields.lookup name).getD null =
      (host kind items names properties).property name := by
  rw [fields_host hm]
  exact lookup_map_pair _ fun hn => hother name fun hmem => hn ((List.mergeSort_perm ..).mem_iff.2 hmem)

end

mutual

/-- What a value holds is the same, read through host objects or not. -/
theorem Opened.content_eq {v v' : Value} : Opened v v' → v'.content = v.content
  | .same v => rfl
  | .array h => by rw [content, content, h.contents_eq]
  | .map h => by rw [content, content, h.fieldContents_eq]
  | .host kind names hi hp => by rw [content, content, hi.contents_eq, hp.fieldContents_eq]
  | @Opened.elements kind items items' names properties ha hm h => by
      have helements : (host kind items names properties).elements? = some (hostElements kind items) := if_pos ha
      rw [content, h.contents_eq, content_of_elements helements, contents_eq_map]
  | @Opened.properties kind items names properties entries hm ha hn hl hother h => by
      have hlike : (host kind items names properties).isMapLike := by rw [isMapLike, hm, ha, Bool.and_self]
      rw [content, h.fieldContents_eq, content_of_isMapLike hlike, fieldContents_eq_map]

theorem OpenedItems.contents_eq {vs vs' : List Value} : OpenedItems vs vs' → contents vs' = contents vs
  | .nil => rfl
  | .cons h hr => by rw [contents, contents, h.content_eq, hr.contents_eq]

theorem OpenedFields.fieldContents_eq {fs fs' : List (String × Value)} :
    OpenedFields fs fs' → fieldContents fs' = fieldContents fs
  | .nil => rfl
  | .cons name h hr => by rw [fieldContents, fieldContents, h.content_eq, hr.fieldContents_eq]

end

/-- An element is one of the elements as a list. -/
theorem element_ofNat (v : Value) (i : Nat) : v.element (.ofNat i) = (v.elements?.getD [])[i]?.getD null := by
  cases v with
  | array => rfl
  | host kind =>
      rw [element, elements?]
      cases ha : kind.isArray
      · rfl
      · by_cases hi : i < kind.length <;> simp [hostElements, hi]
  | _ => rfl

namespace Opened

theorem compare_eq {w w' : Value} (h : Opened v v') (hw : Opened w w') : v'.compare w' = v.compare w := by
  rw [compare, compare, h.content_eq, hw.content_eq]

theorem jsonText_eq (h : Opened v v') : v'.jsonText = v.jsonText := by
  rw [jsonText, jsonText, toJson, toJson, h.content_eq]

/-- What is not a collection is shown by its content as well. -/
theorem display_eq (h : Opened v v') : v'.display = v.display := by
  cases h with
  | same => rfl
  | array h => exact jsonText_eq (.array h)
  | map h => exact jsonText_eq (.map h)
  | host kind names hi hp => exact jsonText_eq (.host kind names hi hp)
  | elements ha hm h => exact jsonText_eq (.elements ha hm h)
  | properties hm ha hn hl hother h => exact jsonText_eq (.properties hm ha hn hl hother h)

theorem isTruthy_eq (h : Opened v v') : v'.isTruthy = v.isTruthy := by
  cases h <;> rfl

theorem isNull_eq (h : Opened v v') : v'.isNull = v.isNull := by
  cases h <;> rfl

theorem isArrayLike_eq (h : Opened v v') : v'.isArrayLike = v.isArrayLike := by
  cases h with
  | elements ha => exact ha.symm
  | properties hm ha => simpa [isArrayLike] using ha
  | _ => rfl

theorem isMapLike_eq (h : Opened v v') : v'.isMapLike = v.isMapLike := by
  cases h with
  | elements ha hm => simp_all [isMapLike]
  | properties hm ha => simp_all [isMapLike]
  | _ => rfl

theorem elements? (h : Opened v v') : Option.Rel OpenedItems v.elements? v'.elements? := by
  cases h with
  | same =>
      cases v.elements? with
      | none => exact .none
      | some vs => exact .some (.refl vs)
  | array h => exact .some h
  | map => exact .none
  | host kind names hi =>
      rw [Value.elements?, Value.elements?]
      split
      · exact .some (opened_hostElements kind hi)
      · exact .none
  | @elements kind items items' names properties ha hm h =>
      have helements : (Value.host kind items names properties).elements? = some (hostElements kind items) := if_pos ha
      rw [helements]
      exact .some h
  | @properties kind items names properties _ hm ha =>
      have hnone : (Value.host kind items names properties).elements? = none := if_neg (by simpa using ha)
      rw [hnone]
      exact .none

theorem propertyNames?_eq (h : Opened v v') : v'.propertyNames? = v.propertyNames? := by
  cases h with
  | map h => exact congrArg some h.map_fst
  | elements ha hm => exact (if_neg (by simpa using hm)).symm
  | properties hm ha hn hl hother h => rw [propertyNames?, propertyNames?, h.map_fst, map_fst_fields hm, if_pos hm]
  | _ => rfl

theorem property (h : Opened v v') (name : String) : Opened (v.property name) (v'.property name) := by
  cases h with
  | same => exact .same _
  | array => exact .same _
  | map h => exact h.lookup name
  | host kind names hi hp =>
      rw [Value.property, Value.property]
      split
      · exact hp.lookup name
      · exact .same _
  | @elements kind items _ names properties ha hm =>
      have hnull : (Value.host kind items names properties).property name = null := if_neg (by simpa using hm)
      rw [hnull]
      exact .same _
  | properties hm ha hn hl hother h =>
      rw [← lookup_fields hm hother]
      exact h.lookup name

/-- The length is read off the elements or the names of the properties. -/
theorem length?_eq (h : Opened v v') : v'.length? = v.length? := by
  cases h with
  | array h => exact congrArg some h.length_eq
  | map h => exact congrArg some (by simpa using congrArg List.length h.map_fst)
  | elements ha hm h => simpa [length?, ha, hostElements] using h.length_eq
  | properties hm ha hn hl hother h =>
      have hlength := congrArg List.length h.map_fst
      rw [List.length_map, List.length_map, length_fields hm] at hlength
      simp [length?, hm, hl, hlength]
  | _ => rfl

theorem element (h : Opened v v') (i : Int) : Opened (v.element i) (v'.element i) := by
  cases i with
  | negSucc => exact .same _
  | ofNat i =>
      have helements := h.elements?
      rw [element_ofNat, element_ofNat]
      generalize v.elements? = items, v'.elements? = items' at helements
      cases helements with
      | none => exact .same _
      | some h => exact h.getElem? i

end Opened

theorem OpenedItems.map_display (h : OpenedItems vs vs') : vs'.map display = vs.map display := by
  induction vs generalizing vs' with
  | nil =>
      cases h
      rfl
  | cons v vs ih =>
      cases h with
      | cons h hr => rw [List.map_cons, List.map_cons, h.display_eq, ih hr]

theorem OpenedItems.map_property (h : OpenedItems vs vs') (name : String) :
    OpenedItems (vs.map (·.property name)) (vs'.map (·.property name)) := by
  rw [openedItems_iff, List.forall₂_map_left_iff, List.forall₂_map_right_iff]
  exact (openedItems_iff.1 h).imp fun _ _ h => h.property name

end Value

end Stencil

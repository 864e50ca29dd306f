import Stencil.Proofs.Value.Opened
import Stencil.Render.Process

namespace Stencil.Value

mutual

/-- The value without the names and properties of host objects that are like arrays, however deep they are in it. -/
def elementsOnly : Value → Value
  | array items => array (elementsOnlyAll items)
  | map entries => map (elementsOnlyFields entries)
  | host kind items names properties =>
      host kind (elementsOnlyAll items) (if kind.isArray then [] else names)
        (if kind.isArray then [] else elementsOnlyFields properties)
  | v => v

def elementsOnlyAll : List Value → List Value
  | [] => []
  | v :: rest => v.elementsOnly :: elementsOnlyAll rest

def elementsOnlyFields : List (String × Value) → List (String × Value)
  | [] => []
  | (name, v) :: rest => (name, v.elementsOnly) :: elementsOnlyFields rest

end

def isTwofold : Value → Bool
  | host kind _ _ _ => kind.isArray && kind.isMap
  | _ => false

variable {v : Value}

theorem elementsOnlyAll_eq_map (vs : List Value) : elementsOnlyAll vs = vs.map elementsOnly := by
  induction vs with
  | nil => rfl
  | cons v vs ih => rw [elementsOnlyAll, ih, List.map_cons]

theorem elementsOnlyFields_eq_map (fs : List (String × Value)) :
    elementsOnlyFields fs = fs.map fun f => (f.1, f.2.elementsOnly) := by
  induction fs with
  | nil => rfl
  | cons f fs ih => rw [elementsOnlyFields, ih, List.map_cons]

@[simp]
theorem map_fst_elementsOnlyFields (fs : List (String × Value)) :
    (elementsOnlyFields fs).map Prod.fst = fs.map Prod.fst := by
  rw [elementsOnlyFields_eq_map, List.map_map]
  rfl

@[simp]
theorem lookup_elementsOnlyFields (fs : List (String × Value)) (name : String) :
    ((elementsOnlyFields fs).lookup name).getD null = ((fs.lookup name).getD null).elementsOnly := by
  induction fs with
  | nil => rfl
  | cons f fs ih =>
      rw [elementsOnlyFields, List.lookup_cons, List.lookup_cons]
      split
      · rfl
      · exact ih

theorem getElem?_elementsOnly (vs : List Value) (i : Nat) :
    (vs.map elementsOnly)[i]?.getD null = (vs[i]?.getD null).elementsOnly := by
  rw [List.getElem?_map]
  cases vs[i]? <;> rfl

@[simp]
theorem hostElements_elementsOnly (kind : HostKind) (items : List Value) :
    hostElements kind (items.map elementsOnly) = (hostElements kind items).map elementsOnly := by
  rw [hostElements, hostElements, List.map_map]
  exact List.map_congr_left fun i _ => getElem?_elementsOnly items i

mutual

/-- What a value holds is read past the properties of what is like an array. -/
@[simp]
theorem content_elementsOnly : (v : Value) → v.elementsOnly.content = v.content
  | null | bool _ | int _ | double _ | string _ => rfl
  | array items => by rw [elementsOnly, content, content, contents_elementsOnlyAll items]
  | map entries => by rw [elementsOnly, content, content, fieldContents_elementsOnlyFields entries]
  | host kind items names properties => by
      rw [elementsOnly, content, content, contents_elementsOnlyAll items]
      split
      · rfl
      · rw [fieldContents_elementsOnlyFields properties]

theorem contents_elementsOnlyAll : (vs : List Value) → contents (elementsOnlyAll vs) = contents vs
  | [] => rfl
  | v :: vs => by
      rw [elementsOnlyAll, contents, contents, content_elementsOnly v, contents_elementsOnlyAll vs]

theorem fieldContents_elementsOnlyFields :
    (fs : List (String × Value)) → fieldContents (elementsOnlyFields fs) = fieldContents fs
  | [] => rfl
  | (name, v) :: fs => by
      rw [elementsOnlyFields, fieldContents, fieldContents, content_elementsOnly v,
        fieldContents_elementsOnlyFields fs]

end

@[simp]
theorem jsonText_elementsOnly (v : Value) : v.elementsOnly.jsonText = v.jsonText := by
  simp [jsonText, toJson]

@[simp]
theorem display_elementsOnly (v : Value) : v.elementsOnly.display = v.display := by
  cases v with
  | array | map | host => exact jsonText_elementsOnly _
  | _ => rfl

@[simp]
theorem typeName_elementsOnly (v : Value) : v.elementsOnly.typeName = v.typeName := by
  cases v <;> rfl

@[simp]
theorem isNull_elementsOnly (v : Value) : v.elementsOnly.isNull = v.isNull := by
  cases v <;> rfl

@[simp]
theorem isTruthy_elementsOnly (v : Value) : v.elementsOnly.isTruthy = v.isTruthy := by
  cases v <;> rfl

@[simp]
theorem isArrayLike_elementsOnly (v : Value) : v.elementsOnly.isArrayLike = v.isArrayLike := by
  cases v <;> rfl

@[simp]
theorem isMapLike_elementsOnly (v : Value) : v.elementsOnly.isMapLike = v.isMapLike := by
  cases v <;> rfl

@[simp]
theorem length?_elementsOnly (v : Value) : v.elementsOnly.length? = v.length? := by
  cases v with
  | array items => simp [elementsOnly, length?, elementsOnlyAll_eq_map]
  | map entries => simp [elementsOnly, length?, elementsOnlyFields_eq_map]
  | _ => rfl

@[simp]
theorem elementsOnly_eq_null : v.elementsOnly = null ↔ v = null := by
  cases v <;> simp [elementsOnly]

@[simp]
theorem elements?_elementsOnly (v : Value) : v.elementsOnly.elements? = v.elements?.map (List.map elementsOnly) := by
  cases v with
  | array items => rw [elementsOnly, elements?, elements?, elementsOnlyAll_eq_map, Option.map_some]
  | host kind =>
      rw [elementsOnly, elements?, elements?, elementsOnlyAll_eq_map, hostElements_elementsOnly]
      split <;> rfl
  | _ => rfl

@[simp]
theorem element_elementsOnly (v : Value) (i : Int) : v.elementsOnly.element i = (v.element i).elementsOnly := by
  cases i with
  | negSucc => rfl
  | ofNat i =>
      rw [element_ofNat, element_ofNat, elements?_elementsOnly]
      cases v.elements? with
      | none => rfl
      | some items => exact getElem?_elementsOnly items i

theorem propertyNames?_elementsOnly (h : v.isArrayLike = false) : v.elementsOnly.propertyNames? = v.propertyNames? := by
  cases v with
  | map entries => simp [elementsOnly, propertyNames?]
  | host kind =>
      have hk : ¬kind.isArray = true := by simpa [isArrayLike] using h
      rw [elementsOnly, if_neg hk, propertyNames?, propertyNames?]
  | _ => rfl

/-- The properties are missed exactly at an object that is both, where there is one of the name. -/
theorem property_elementsOnly (name : String) :
    v.elementsOnly.property name = (v.property name).elementsOnly ↔ (v.isTwofold → v.property name = null) := by
  cases v with
  | map entries => simp [elementsOnly, property, lookup_elementsOnlyFields, isTwofold]
  | host kind =>
      cases ha : kind.isArray <;> cases hm : kind.isMap
      · simp [elementsOnly, property, isTwofold, ha, hm]
      · simp [elementsOnly, property, lookup_elementsOnlyFields, isTwofold, ha, hm]
      · simp [elementsOnly, property, isTwofold, ha, hm]
      · simp only [elementsOnly, property, isTwofold, ha, hm, if_true, List.lookup_nil, Option.getD_none]
        rw [eq_comm, elementsOnly_eq_null]
        simp
  | _ => simp [elementsOnly, property, isTwofold]

theorem property_elementsOnly_of_isMapLike (h : v.isMapLike) (name : String) :
    v.elementsOnly.property name = (v.property name).elementsOnly := by
  refine (property_elementsOnly name).2 fun htwo => ?_
  cases v with
  | host kind => simp_all [isMapLike, isTwofold]
  | _ => cases htwo

@[simp]
theorem rounds?_elementsOnly (v : Value) : v.elementsOnly.rounds? = v.rounds?.map (List.map elementsOnly) := by
  rw [rounds?, rounds?, elements?_elementsOnly]
  cases h : v.elements? with
  | some items => rfl
  | none =>
      have ha : v.isArrayLike = false := by
        rw [← Bool.not_eq_true, elements?_eq_some_iff, h]
        simp
      simp only [Option.map_none, propertyNames?_elementsOnly ha]
      cases v.propertyNames? with
      | none => rfl
      | some names => simp [elementsOnly]

@[simp]
theorem member_elementsOnly (v : Value) (name : String) (offset : Nat) :
    v.elementsOnly.member name offset = (v.member name offset).map elementsOnly := by
  rw [member.eq_def, member.eq_def, isArrayLike_elementsOnly, isMapLike_elementsOnly, length?_elementsOnly]
  split
  · cases v.length? with
    | none => rfl
    | some n => cases isCountName name <;> rfl
  split
  next hm => rw [property_elementsOnly_of_isMapLike hm, Except.map]
  next ha hm =>
    cases v with
    | string s =>
        dsimp only [elementsOnly]
        cases isCountName name <;> rfl
    | _ => rfl

@[simp]
theorem index_elementsOnly (v key : Value) (offset keyOffset : Nat) :
    v.elementsOnly.index key.elementsOnly offset keyOffset = (v.index key offset keyOffset).map elementsOnly := by
  cases key with
  | int i =>
      have hkey : (int i).elementsOnly = int i := rfl
      rw [hkey, index, index, isArrayLike_elementsOnly, element_elementsOnly]
      split <;> rfl
  | string name =>
      have hkey : (string name).elementsOnly = string name := rfl
      rw [hkey, index, index, isMapLike_elementsOnly]
      split
      next hm => rw [property_elementsOnly_of_isMapLike hm, Except.map]
      next => rfl
  | _ => rfl

@[simp]
theorem onIntegers_elementsOnly (op : Arithmetic) (a b : Int) (offset : Nat) :
    (onIntegers op a b offset).map elementsOnly = onIntegers op a b offset := by
  have hfitting (n : Int) : (fitting n offset).map elementsOnly = fitting n offset := by
    rw [fitting]
    split <;> rfl
  cases op with
  | divide =>
      rw [onIntegers]
      split
      · rfl
      · exact hfitting _
  | _ => exact hfitting _

@[simp]
theorem onDoubles_elementsOnly (op : Arithmetic) (x y : Float) (offset : Nat) :
    (onDoubles op x y offset).map elementsOnly = onDoubles op x y offset := by
  cases op with
  | divide =>
      rw [onDoubles]
      split <;> rfl
  | _ => rfl

/-- Arithmetic adds arrays and looks into no host object. -/
@[simp]
theorem arithmetic_elementsOnly (op : Arithmetic) (symbol : String) (a b : Value) (offset : Nat) :
    arithmetic op symbol a.elementsOnly b.elementsOnly offset =
      (arithmetic op symbol a b offset).map elementsOnly := by
  cases a with
  | int m =>
      cases b with
      | int n => exact (onIntegers_elementsOnly ..).symm
      | double y => exact (onDoubles_elementsOnly ..).symm
      | _ => rfl
  | double x =>
      cases b with
      | int | double => exact (onDoubles_elementsOnly ..).symm
      | _ => rfl
  | string s =>
      cases b with
      | string t => cases op <;> rfl
      | _ => rfl
  | array xs =>
      cases b with
      | array ys =>
          cases op with
          | add => simp [arithmetic, elementsOnly, elementsOnlyAll_eq_map, Except.map]
          | _ => rfl
      | _ => rfl
  | _ => cases b <;> rfl

end Stencil.Value

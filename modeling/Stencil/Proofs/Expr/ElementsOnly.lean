import Stencil.Proofs.Bind
import Stencil.Proofs.Filter.Lists
import Stencil.Proofs.Value.ElementsOnly

namespace Stencil

open Value (elementsOnly)

namespace Filter

variable {name : String} {least most : Nat}

def ReadsElements (f : Filter) : Prop :=
  ∀ v arguments, f v.elementsOnly (arguments.map elementsOnly) = (f v arguments).map elementsOnly

theorem expectArray_elementsOnly (name : String) (v : Value) :
    expectArray name v.elementsOnly = (expectArray name v).map (List.map elementsOnly) := by
  rw [expectArray, expectArray, Value.elements?_elementsOnly, Value.typeName_elementsOnly]
  cases v.elements? <;> rfl

theorem map_display_elementsOnly (vs : List Value) :
    (vs.map elementsOnly).map Value.display = vs.map Value.display := by
  rw [List.map_map]
  exact List.map_congr_left fun v _ => Value.display_elementsOnly v

namespace ReadsElements

theorem of_counted {f : Filter} (hf : f.ReadsElements) :
    ReadsElements (fun v arguments => do
      expectArguments name least most arguments
      f v arguments) := by
  intro v arguments
  have hcount : expectArguments name least most (arguments.map elementsOnly) =
      expectArguments name least most arguments := by
    rw [expectArguments, expectArguments, List.length_map]
  dsimp only
  rw [hcount]
  cases expectArguments name least most arguments with
  | error e => rfl
  | ok _ => exact hf v arguments

theorem onList {f : List Value → List Value → Evaluated Value}
    (hf : ∀ items arguments,
      f (items.map elementsOnly) (arguments.map elementsOnly) = (f items arguments).map elementsOnly) :
    ReadsElements (onList name least most f) := by
  refine of_counted fun v arguments => ?_
  rw [Value.isNull_elementsOnly, expectArray_elementsOnly]
  split
  · rfl
  · cases expectArray name v with
    | error e => rfl
    | ok items => exact hf items arguments

theorem join : ReadsElements join := by
  refine onList fun items arguments => ?_
  rw [map_display_elementsOnly]
  cases arguments with
  | nil => rfl
  | cons separator rest =>
      rw [List.map_cons]
      dsimp only
      rw [Value.display_elementsOnly]
      rfl

theorem concat : ReadsElements concat := by
  refine onList fun items arguments => ?_
  have hother : (arguments.map elementsOnly).headD .null = (arguments.headD .null).elementsOnly := by
    cases arguments <;> rfl
  rw [hother, expectArray_elementsOnly]
  cases expectArray "concat" (arguments.headD .null) with
  | error e => rfl
  | ok more => simp [bind, Except.bind, Except.map, pure, Except.pure, Value.elementsOnly, Value.elementsOnlyAll_eq_map]

theorem first : ReadsElements first := by
  refine onList fun items arguments => ?_
  cases items <;> rfl

theorem last : ReadsElements last := by
  refine onList fun items arguments => ?_
  rw [Except.map, List.getLastD_eq_getLast?, List.getLastD_eq_getLast?, List.getLast?_map]
  cases items.getLast? <;> rfl

theorem push : ReadsElements push := by
  refine onList fun items arguments => ?_
  rw [Except.map, Value.elementsOnly, Value.elementsOnlyAll_eq_map, List.map_append]

theorem pop : ReadsElements pop := by
  refine onList fun items arguments => ?_
  rw [Except.map, Value.elementsOnly, Value.elementsOnlyAll_eq_map, List.map_dropLast]

theorem size : ReadsElements size := by
  refine of_counted fun v arguments => ?_
  rw [Value.length?_elementsOnly]
  cases v.length? <;> rfl

end ReadsElements

theorem map_elementsOnly {v : Value} {items : List Value} (h : v.Holds items) (field : String) :
    Filter.map v.elementsOnly [.string field] = (Filter.map v [.string field]).map elementsOnly ↔
      ∀ item ∈ items, item.isTwofold → item.property field = .null := by
  have helements : v.elementsOnly.Holds (items.map elementsOnly) := by
    simp [Value.holds_iff, Value.holds_iff.1 h]
  rw [(Listwise.map.list _ _ _ _ h).2 .map, (Listwise.map.list _ _ _ _ helements).2 .map, Except.map,
    Value.elementsOnly, Value.elementsOnlyAll_eq_map, Except.ok.injEq, Value.array.injEq, List.map_map, List.map_map,
    List.map_inj_left]
  exact forall₂_congr fun item _ => Value.property_elementsOnly field

end Filter

theorem ListFunction.readsElements : (l : ListFunction) → l ≠ .map → l.filter.ReadsElements
  | join, _ => .join
  | concat, _ => .concat
  | first, _ => .first
  | last, _ => .last
  | map, h => absurd rfl h
  | push, _ => .push
  | pop, _ => .pop
  | size, _ => .size

def Evaluated.SameElements (x y : Evaluated Value) : Prop :=
  x.map elementsOnly = y.map elementsOnly

namespace Evaluated.SameElements

theorem bind {x y : Evaluated Value} {f g : Value → Evaluated Value} (h : SameElements x y)
    (hf : ∀ v w : Value, v.elementsOnly = w.elementsOnly → SameElements (f v) (g w)) :
    SameElements (x >>= f) (y >>= g) :=
  Except.map_bind_congr h hf

theorem withOffset {x y : Evaluated Value} (h : SameElements x y) (n : Nat) :
    SameElements (x.mapError (·.withOffset n)) (y.mapError (·.withOffset n)) := by
  have hmap (z : Evaluated Value) :
      (z.mapError (·.withOffset n)).map elementsOnly = (z.map elementsOnly).mapError (·.withOffset n) := by
    cases z <;> rfl
  rw [SameElements, hmap, hmap, h]

end Evaluated.SameElements

open Evaluated (SameElements)

namespace Value

variable {v w key key' : Value}

theorem member_sameElements (h : v.elementsOnly = w.elementsOnly) (name : String) (offset : Nat) :
    SameElements (v.member name offset) (w.member name offset) := by
  rw [SameElements, ← member_elementsOnly, ← member_elementsOnly, h]

theorem index_sameElements (h : v.elementsOnly = w.elementsOnly) (hk : key.elementsOnly = key'.elementsOnly)
    (offset keyOffset : Nat) : SameElements (v.index key offset keyOffset) (w.index key' offset keyOffset) := by
  rw [SameElements, ← index_elementsOnly, ← index_elementsOnly, h, hk]

theorem arithmetic_sameElements {u u' : Value} (op : Arithmetic) (symbol : String)
    (h : v.elementsOnly = w.elementsOnly) (hu : u.elementsOnly = u'.elementsOnly) (offset : Nat) :
    SameElements (arithmetic op symbol v u offset) (arithmetic op symbol w u' offset) := by
  rw [SameElements, ← arithmetic_elementsOnly, ← arithmetic_elementsOnly, h, hu]

theorem isTruthy_eq_of_elementsOnly (h : v.elementsOnly = w.elementsOnly) : v.isTruthy = w.isTruthy := by
  rw [← isTruthy_elementsOnly, h, isTruthy_elementsOnly]

theorem content_eq_of_elementsOnly (h : v.elementsOnly = w.elementsOnly) : v.content = w.content := by
  rw [← content_elementsOnly, h, content_elementsOnly]

theorem apply_sameElements {name : String} (hn : name ≠ "map") (h : v.elementsOnly = w.elementsOnly)
    {arguments arguments' : List Value} (ha : arguments.map elementsOnly = arguments'.map elementsOnly) :
    SameElements (FilterRegistry.builtins.apply name v arguments)
      (FilterRegistry.builtins.apply name w arguments') := by
  rw [FilterRegistry.apply, FilterRegistry.apply]
  cases hf : FilterRegistry.builtins.filters.get? name with
  | none => rfl
  | some f =>
      obtain ⟨l, rfl, rfl⟩ := ListFunction.builtins_eq_some_iff.1 hf
      have hreads := l.readsElements fun hl => hn (hl ▸ rfl)
      dsimp only
      rw [SameElements, ← hreads, ← hreads, h, ha]

end Value

namespace Expr

mutual

def applies (filter : String) : Expr → Bool
  | literal _ _ => false
  | array items _ => appliesAny filter items
  | «variable» _ _ => false
  | member target _ _ => applies filter target
  | index target key _ => applies filter target || applies filter key
  | binary _ left right _ => applies filter left || applies filter right
  | negation operand _ => applies filter operand
  | pipe target name _ _ => name = filter || applies filter target

def appliesAny (filter : String) : List Expr → Bool
  | [] => false
  | e :: rest => applies filter e || appliesAny filter rest

end

variable {s s' : Scope}

mutual

theorem eval_sameElements
    (hs : ∀ name, ((s.lookup name).getD .null).elementsOnly = ((s'.lookup name).getD .null).elementsOnly) :
    (e : Expr) → ¬e.applies "map" → SameElements (e.eval ⟨s, .builtins⟩) (e.eval ⟨s', .builtins⟩)
  | .literal v n => by
      intro _
      rw [eval, eval]
      rfl
  | .array items n => by
      intro h
      rw [eval, eval]
      refine Except.map_bind_congr (evalAll_sameElements hs items h) fun vs ws hvs => congrArg Except.ok ?_
      rw [elementsOnly, elementsOnly, Value.elementsOnlyAll_eq_map, Value.elementsOnlyAll_eq_map, hvs]
  | .variable name n => by
      intro _
      rw [eval, eval]
      exact congrArg Except.ok (hs name)
  | .member target name n => by
      intro h
      rw [eval, eval]
      exact .bind (eval_sameElements hs target h) fun _ _ hv => Value.member_sameElements hv name _
  | .index target key n => by
      intro h
      simp only [applies, Bool.or_eq_true, not_or] at h
      obtain ⟨htarget, hkey⟩ := h
      rw [eval, eval]
      exact .bind (eval_sameElements hs target htarget) fun _ _ hv =>
        .bind (eval_sameElements hs key hkey) fun _ _ hk => Value.index_sameElements hv hk _ _
  | .binary op left right n => by
      intro h
      simp only [applies, Bool.or_eq_true, not_or] at h
      obtain ⟨hleft, hright⟩ := h
      have hl := eval_sameElements hs left hleft
      have hr := eval_sameElements hs right hright
      rw [eval, eval]
      cases op.meaning with
      | either | both =>
          refine .bind hl fun a b hab => ?_
          rw [Value.isTruthy_eq_of_elementsOnly hab]
          split
          · rfl
          · refine .bind hr fun c d hcd => ?_
            rw [Value.isTruthy_eq_of_elementsOnly hcd]
            rfl
      | differing =>
          refine .bind hl fun a b hab => .bind hr fun c d hcd => ?_
          rw [Value.isTruthy_eq_of_elementsOnly hab, Value.isTruthy_eq_of_elementsOnly hcd]
          rfl
      | ordering holds =>
          refine .bind hl fun a b hab => .bind hr fun c d hcd => ?_
          rw [Value.compare, Value.compare, Value.content_eq_of_elementsOnly hab,
            Value.content_eq_of_elementsOnly hcd]
          rfl
      | arithmetic f =>
          exact .bind hl fun a b hab => .bind hr fun c d hcd => Value.arithmetic_sameElements f _ hab hcd n
  | .negation operand n => by
      intro h
      rw [eval, eval]
      refine .bind (eval_sameElements hs operand h) fun a b hab => ?_
      rw [Value.isTruthy_eq_of_elementsOnly hab]
      rfl
  | .pipe target filter arguments n => by
      intro h
      simp only [applies, Bool.or_eq_true, decide_eq_true_eq, not_or] at h
      obtain ⟨hfilter, htarget⟩ := h
      rw [eval, eval]
      exact .bind (eval_sameElements hs target htarget) fun _ _ hv =>
        .withOffset (Value.apply_sameElements hfilter hv rfl) n

theorem evalAll_sameElements
    (hs : ∀ name, ((s.lookup name).getD .null).elementsOnly = ((s'.lookup name).getD .null).elementsOnly) :
    (items : List Expr) → ¬appliesAny "map" items →
      (evalAll ⟨s, .builtins⟩ items).map (List.map elementsOnly) =
        (evalAll ⟨s', .builtins⟩ items).map (List.map elementsOnly)
  | [] => by
      intro _
      rw [evalAll, evalAll]
  | e :: rest => by
      intro h
      simp only [appliesAny, Bool.or_eq_true, not_or] at h
      obtain ⟨he, hrest⟩ := h
      rw [evalAll, evalAll]
      refine Except.map_bind_congr (eval_sameElements hs e he) fun v w hv =>
        Except.map_bind_congr (evalAll_sameElements hs rest hrest) fun vs ws hvs => congrArg Except.ok ?_
      rw [List.map_cons, List.map_cons, hv, hvs]

end

end Expr

theorem Scope.elementsOnly_push (s : Scope) (kind : FrameKind) (name : String) {v w : Value}
    (h : v.elementsOnly = w.elementsOnly) (other : String) :
    (((s.push kind [(name, v)]).lookup other).getD .null).elementsOnly =
      (((s.push kind [(name, w)]).lookup other).getD .null).elementsOnly := by
  simp only [lookup, push, List.findSome?_cons, Dict.get?, List.lookup_cons, List.lookup_nil]
  cases other == name with
  | true => exact h
  | false => rfl

namespace Value

variable {v w : Value}

/-- Apart from a look at properties, by itself or through the filter `map`, nothing tells the values from each other.
What is got out of them is the same but for the properties of array-like host objects. -/
structure ReadAlike (v w : Value) : Prop where
  typeName : v.typeName = w.typeName
  isNull : v.isNull = w.isNull
  isTruthy : v.isTruthy = w.isTruthy
  isArrayLike : v.isArrayLike = w.isArrayLike
  isMapLike : v.isMapLike = w.isMapLike
  length? : v.length? = w.length?
  element : ∀ i : Int, (v.element i).elementsOnly = (w.element i).elementsOnly
  rounds? : v.rounds?.map (List.map elementsOnly) = w.rounds?.map (List.map elementsOnly)
  compare_left : ∀ u : Value, v.compare u = w.compare u
  compare_right : ∀ u : Value, u.compare v = u.compare w
  display : v.display = w.display
  jsonText : v.jsonText = w.jsonText
  member : ∀ name offset, SameElements (v.member name offset) (w.member name offset)
  index : ∀ (key : Value) offset keyOffset, SameElements (v.index key offset keyOffset) (w.index key offset keyOffset)
  index_key : ∀ (u : Value) offset keyOffset, SameElements (u.index v offset keyOffset) (u.index w offset keyOffset)
  arithmetic_left : ∀ op symbol u offset,
    SameElements (arithmetic op symbol v u offset) (arithmetic op symbol w u offset)
  arithmetic_right : ∀ op symbol u offset,
    SameElements (arithmetic op symbol u v offset) (arithmetic op symbol u w offset)
  filter : ∀ name, name ≠ "map" → ∀ arguments,
    SameElements (FilterRegistry.builtins.apply name v arguments) (FilterRegistry.builtins.apply name w arguments)
  argument : ∀ name, name ≠ "map" → ∀ u before after,
    SameElements (FilterRegistry.builtins.apply name u (before ++ v :: after))
      (FilterRegistry.builtins.apply name u (before ++ w :: after))
  expression : ∀ (e : Expr) (s : Scope) (kind : FrameKind) (name : String), ¬e.applies "map" →
    SameElements (e.eval ⟨s.push kind [(name, v)], .builtins⟩) (e.eval ⟨s.push kind [(name, w)], .builtins⟩)

theorem readAlike_of_elementsOnly (h : v.elementsOnly = w.elementsOnly) : ReadAlike v w where
  typeName := by rw [← typeName_elementsOnly, h, typeName_elementsOnly]
  isNull := by rw [← isNull_elementsOnly, h, isNull_elementsOnly]
  isTruthy := isTruthy_eq_of_elementsOnly h
  isArrayLike := by rw [← isArrayLike_elementsOnly, h, isArrayLike_elementsOnly]
  isMapLike := by rw [← isMapLike_elementsOnly, h, isMapLike_elementsOnly]
  length? := by rw [← length?_elementsOnly, h, length?_elementsOnly]
  element i := by rw [← element_elementsOnly, h, element_elementsOnly]
  rounds? := by rw [← rounds?_elementsOnly, h, rounds?_elementsOnly]
  compare_left u := by rw [compare, compare, content_eq_of_elementsOnly h]
  compare_right u := by rw [compare, compare, content_eq_of_elementsOnly h]
  display := by rw [← display_elementsOnly, h, display_elementsOnly]
  jsonText := by rw [← jsonText_elementsOnly, h, jsonText_elementsOnly]
  member := member_sameElements h
  index _ := index_sameElements h rfl
  index_key _ := index_sameElements rfl h
  arithmetic_left op symbol _ := arithmetic_sameElements op symbol h rfl
  arithmetic_right op symbol _ := arithmetic_sameElements op symbol rfl h
  filter _ hn _ := apply_sameElements hn h rfl
  argument _ hn _ _ _ :=
    apply_sameElements hn rfl (by rw [List.map_append, List.map_append, List.map_cons, List.map_cons, h])
  expression e s kind name := Expr.eval_sameElements (s.elementsOnly_push kind name h) e

/-- A host object that is an array and a map counts as an array, and what it is as a map is read in three ways only:
its properties, their names, and the filter `map` on a list that it is in. There it makes a difference unless the
property is missing or null. Its names and properties may be any for all other uses, however deep it is in a value. -/
theorem twofold_read_as_array {kind : HostKind} (ha : kind.isArray) (hm : kind.isMap) (items : List Value)
    (names : List String) (properties : List (String × Value)) :
    let v := host kind items names properties
    v.isArrayLike = true ∧ v.isMapLike = false ∧
    v.propertyNames? = some (sortNames names) ∧
    (∀ name, v.property name = null ↔ ∀ w, properties.lookup name = some w → w = null) ∧
    (∀ (u : Value) us field, u.Holds us →
      Filter.map u [.string field] = .ok (.array (us.map (·.property field))) ∧
      (Filter.map u.elementsOnly [.string field] = (Filter.map u [.string field]).map elementsOnly ↔
        ∀ x ∈ us, x.isTwofold → x.property field = null)) ∧
    (∀ names' properties', ReadAlike v (host kind items names' properties')) ∧
    ∀ u w : Value, u.elementsOnly = w.elementsOnly → ReadAlike u w := by
  intro v
  refine ⟨ha, by simp [v, isMapLike, ha], if_pos hm, fun name => ?_, fun u us field hu => ⟨?_, ?_⟩,
    fun names' properties' => readAlike_of_elementsOnly ?_, fun u w => readAlike_of_elementsOnly⟩
  · have hproperty : v.property name = (properties.lookup name).getD null := if_pos hm
    rw [hproperty]
    cases properties.lookup name <;> simp
  · exact (Filter.Listwise.map.list _ _ _ _ hu).2 .map
  · exact Filter.map_elementsOnly hu field
  · rw [elementsOnly, elementsOnly, if_pos ha, if_pos ha, if_pos ha, if_pos ha]

def namedPair : Value :=
  .host ⟨"pair", true, true, 1⟩ [.int 1] ["a"] [("a", .int 2)]

theorem twofold_read_as_array_pair :
    let kind : HostKind := ⟨"pair", true, true, 1⟩
    kind.isArray = true ∧ kind.isMap = true ∧ namedPair.isArrayLike = true ∧ namedPair.isMapLike = false ∧
      ReadAlike namedPair (.host kind [.int 1] [] []) ∧
      ReadAlike (.map [("x", .array [namedPair])]) (.map [("x", .array [.host kind [.int 1] ["b"] [("c", .null)]])]) := by
  intro kind
  obtain ⟨ha, hm, -, -, -, hother, hdeep⟩ :=
    @twofold_read_as_array kind rfl rfl [.int 1] ["a"] [("a", .int 2)]
  exact ⟨rfl, rfl, ha, hm, hother [] [], hdeep _ _ rfl⟩

/-- No map as it counts as an array, it shows a property and its name nevertheless. -/
theorem namedPair_shows_property :
    namedPair.isMapLike = false ∧ namedPair.property "a" = .int 2 ∧ namedPair.propertyNames? = some ["a"] ∧
      Filter.map (.array [namedPair]) [.string "a"] = .ok (.array [.int 2]) := by
  refine ⟨rfl, rfl, by cbv, by cbv⟩

end Value

end Stencil

import Mathlib
import Stencil.Filter
import Stencil.Proofs.Bind
import Stencil.Proofs.Dict
import Stencil.Proofs.Value.Shown

namespace Stencil

namespace Value

variable {v : Value} {items : List Value}

def Holds (v : Value) (items : List Value) : Prop :=
  v.isArrayLike ∧ v.length? = some items.length ∧ ∀ (i : Nat) (h : i < items.length), v.element i = items[i]

theorem length?_of_elements (h : v.elements? = some items) : v.length? = some items.length := by
  cases v with
  | array =>
      obtain rfl := Option.some.inj h
      rfl
  | host kind =>
      rw [elements?] at h
      split at h
      next ha =>
        obtain rfl := Option.some.inj h
        simp [length?, ha, hostElements]
      next => cases h
  | _ => cases h

theorem element_of_elements (h : v.elements? = some items) {i : Nat} (hi : i < items.length) :
    v.element i = items[i] := by
  have helement : v.element i = v.element (.ofNat i) := rfl
  cases v with
  | array =>
      obtain rfl := Option.some.inj h
      rw [helement, element, List.getElem?_eq_getElem hi, Option.getD_some]
  | host kind =>
      rw [elements?] at h
      split at h
      next ha =>
        obtain rfl := Option.some.inj h
        have hi : i < kind.length := by simpa [hostElements] using hi
        rw [helement, element]
        simp [hostElements, ha, hi]
      next => cases h
  | _ => cases h

theorem holds_iff : v.Holds items ↔ v.elements? = some items := by
  constructor
  · rintro ⟨ha, hlen, hitems⟩
    obtain ⟨vs, hvs⟩ := elements?_eq_some_iff.1 ha
    have hlen' : vs.length = items.length := by
      rw [length?_of_elements hvs] at hlen
      exact Option.some.inj hlen
    rw [hvs, List.ext_getElem hlen' fun i hi hi' => (element_of_elements hvs hi).symm.trans (hitems i hi')]
  · exact fun h => ⟨elements?_eq_some_iff.2 ⟨items, h⟩, length?_of_elements h, fun i => element_of_elements h⟩

end Value

inductive ListFunction where
  | join
  | concat
  | first
  | last
  | map
  | push
  | pop
  | size
deriving DecidableEq

namespace ListFunction

def name : ListFunction → String
  | join => "join"
  | concat => "concat"
  | first => "first"
  | last => "last"
  | map => "map"
  | push => "push"
  | pop => "pop"
  | size => "size"

def least : ListFunction → Nat
  | concat | map | push => 1
  | join | first | last | pop | size => 0

def most : ListFunction → Nat
  | join | concat | map | push => 1
  | first | last | pop | size => 0

def Takes (l : ListFunction) (n : Nat) : Prop :=
  l.least ≤ n ∧ n ≤ l.most

instance (l : ListFunction) (n : Nat) : Decidable (l.Takes n) :=
  inferInstanceAs (Decidable (_ ∧ _))

inductive Gives (items : List Value) : ListFunction → List Value → Value → Prop
  | join : Gives items join [] (.string (" ".intercalate (items.map Value.display)))
  | joinWith {separator : Value} :
      Gives items join [separator] (.string (separator.display.intercalate (items.map Value.display)))
  | concat {other : Value} {more : List Value} : other.Holds more → Gives items concat [other] (.array (items ++ more))
  | first : Gives items first [] (items.head?.getD .null)
  | last : Gives items last [] (items.getLast?.getD .null)
  | map {field : String} : Gives items map [.string field] (.array (items.map (·.property field)))
  | push {v : Value} : Gives items push [v] (.array (items ++ [v]))
  | pop : Gives items pop [] (.array items.dropLast)
  | size : Gives items size [] (.int (countOf items.length))

def filter : ListFunction → Filter
  | join => Filter.join
  | concat => Filter.concat
  | first => Filter.first
  | last => Filter.last
  | map => Filter.map
  | push => Filter.push
  | pop => Filter.pop
  | size => Filter.size

end ListFunction

namespace Filter

variable {name : String} {least most : Nat} {v : Value} {arguments : List Value}

/-- The filter counts its arguments first, then it keeps null, and of a list it makes what the function does. -/
structure Listwise (l : ListFunction) (f : Filter) : Prop where
  count : ∀ v arguments, ¬l.Takes arguments.length →
    f v arguments = .error (EvalFault.argumentCount l.name l.least l.most arguments.length).nowhere
  null : ∀ arguments, l.Takes arguments.length → f .null arguments = .ok .null
  list : ∀ v items arguments w, v.Holds items → (f v arguments = .ok w ↔ l.Gives items arguments w)

theorem expectArguments_of_not (h : ¬(least ≤ arguments.length ∧ arguments.length ≤ most)) :
    expectArguments name least most arguments =
      .error (EvalFault.argumentCount name least most arguments.length).nowhere :=
  if_neg h

theorem expectArguments_eq_ok_iff :
    expectArguments name least most arguments = .ok () ↔ least ≤ arguments.length ∧ arguments.length ≤ most := by
  rw [expectArguments]
  split
  next h => exact ⟨fun _ => h, fun _ => rfl⟩
  next h => exact ⟨nofun, fun h' => absurd h' h⟩

theorem expectArray_eq_ok_iff {items : List Value} : expectArray name v = .ok items ↔ v.Holds items := by
  rw [Value.holds_iff, expectArray]
  cases v.elements? <;> simp

theorem isNull_of_holds {items : List Value} (h : v.Holds items) : v.isNull = false := by
  cases v with
  | null => exact nomatch h.1
  | _ => rfl

namespace Listwise

theorem of_counted {l : ListFunction} {f : Filter}
    (hnull : ∀ arguments, l.Takes arguments.length → f .null arguments = .ok .null)
    (hlist : ∀ v items arguments w, v.Holds items →
      (l.Takes arguments.length ∧ f v arguments = .ok w ↔ l.Gives items arguments w)) :
    Listwise l fun v arguments => do
      expectArguments l.name l.least l.most arguments
      f v arguments where
  count v arguments h := by
    rw [expectArguments_of_not h]
    rfl
  null arguments h := by
    rw [expectArguments_eq_ok_iff.2 h]
    exact hnull arguments h
  list v items arguments w hv := by
    rw [← hlist v items arguments w hv, ListFunction.Takes, ← @expectArguments_eq_ok_iff l.name]
    cases expectArguments l.name l.least l.most arguments <;> simp [bind, Except.bind]

theorem onList {l : ListFunction} {f : List Value → List Value → Evaluated Value}
    (hf : ∀ items arguments w, l.Takes arguments.length ∧ f items arguments = .ok w ↔ l.Gives items arguments w) :
    Listwise l (onList l.name l.least l.most f) := by
  refine of_counted (fun arguments _ => rfl) fun v items arguments w hv => ?_
  rw [isNull_of_holds hv, expectArray_eq_ok_iff.2 hv]
  exact hf items arguments w

theorem join : Listwise .join join := by
  refine onList fun items arguments w => ⟨?_, fun h => ?_⟩
  · rintro ⟨hcount, h⟩
    match arguments, hcount with
    | [], _ =>
        obtain rfl := Except.ok.inj h
        exact .join
    | [separator], _ =>
        obtain rfl := Except.ok.inj h
        exact .joinWith
  · cases h with
    | join | joinWith => exact ⟨⟨Nat.zero_le _, by simp [ListFunction.most]⟩, rfl⟩

theorem onList_alone {l : ListFunction} {f : List Value → Value} (hleast : l.least = 0) (hmost : l.most = 0)
    (hf : ∀ items arguments w, l.Gives items arguments w ↔ arguments = [] ∧ f items = w) :
    Listwise l (Filter.onList l.name l.least l.most fun items _ => .ok (f items)) := by
  refine onList fun items arguments w => ?_
  rw [hf, ListFunction.Takes, hleast, hmost, Except.ok.injEq, Nat.le_zero, List.length_eq_zero_iff]
  exact and_congr_left' (and_iff_right (Nat.zero_le _))

theorem first : Listwise .first first := by
  refine onList_alone (f := fun items => items.headD .null) rfl rfl fun items arguments w => ?_
  rw [List.headD_eq_head?_getD]
  constructor
  · rintro ⟨⟩
    exact ⟨rfl, rfl⟩
  · rintro ⟨rfl, rfl⟩
    exact .first

theorem last : Listwise .last last := by
  refine onList_alone (f := fun items => items.getLastD .null) rfl rfl fun items arguments w => ?_
  rw [List.getLastD_eq_getLast?]
  constructor
  · rintro ⟨⟩
    exact ⟨rfl, rfl⟩
  · rintro ⟨rfl, rfl⟩
    exact .last

theorem pop : Listwise .pop pop := by
  refine onList_alone (f := fun items => .array items.dropLast) rfl rfl fun items arguments w => ?_
  constructor
  · rintro ⟨⟩
    exact ⟨rfl, rfl⟩
  · rintro ⟨rfl, rfl⟩
    exact .pop

theorem push : Listwise .push push := by
  refine onList fun items arguments w => ⟨?_, fun h => ?_⟩
  · rintro ⟨hcount, h⟩
    match arguments, hcount with
    | [v], _ =>
        obtain rfl := Except.ok.inj h
        exact .push
  · cases h
    exact ⟨⟨Nat.le_refl _, Nat.le_refl _⟩, rfl⟩

theorem concat : Listwise .concat concat := by
  refine onList fun items arguments w => ⟨?_, fun h => ?_⟩
  · rintro ⟨hcount, h⟩
    match arguments, hcount with
    | [other], _ =>
        obtain ⟨more, hmore, h⟩ := Except.of_bind_ok h
        obtain rfl := Except.ok.inj h
        exact .concat (expectArray_eq_ok_iff.1 hmore)
  · cases h with
    | @concat other more hmore =>
        refine ⟨⟨Nat.le_refl _, Nat.le_refl _⟩, ?_⟩
        rw [List.headD_cons, expectArray_eq_ok_iff.2 hmore]
        rfl

theorem map : Listwise .map map := by
  refine of_counted (fun arguments _ => rfl) fun v items arguments w hv => ⟨?_, fun h => ?_⟩
  · rintro ⟨hcount, h⟩
    rw [isNull_of_holds hv] at h
    match arguments, hcount with
    | [.string field], _ =>
        rw [List.headD_cons, expectArray_eq_ok_iff.2 hv] at h
        obtain rfl := Except.ok.inj h
        exact .map
  · cases h
    refine ⟨⟨Nat.le_refl _, Nat.le_refl _⟩, ?_⟩
    rw [isNull_of_holds hv, List.headD_cons, expectArray_eq_ok_iff.2 hv]
    rfl

theorem size : Listwise .size size := by
  refine of_counted (fun arguments _ => rfl) fun v items arguments w hv => ?_
  rw [hv.2.1]
  constructor
  · rintro ⟨hcount, h⟩
    match arguments, hcount with
    | [], _ =>
        obtain rfl := Except.ok.inj h
        exact .size
  · rintro ⟨⟩
    exact ⟨⟨Nat.le_refl _, Nat.le_refl _⟩, rfl⟩

end Listwise

end Filter

namespace ListFunction

theorem listwise : (l : ListFunction) → l.filter.Listwise l
  | join => .join
  | concat => .concat
  | first => .first
  | last => .last
  | map => .map
  | push => .push
  | pop => .pop
  | size => .size

/-- The filters that are always there are those of the functions on lists. -/
theorem builtins_eq_some_iff {name : String} {f : Filter} :
    FilterRegistry.builtins.filters.get? name = some f ↔ ∃ l : ListFunction, l.name = name ∧ l.filter = f := by
  constructor
  · intro h
    have hm := Dict.mem_of_get?_ofList h
    simp only [List.mem_cons, Prod.mk.injEq, List.not_mem_nil, or_false] at hm
    rcases hm with ⟨rfl, rfl⟩ | ⟨rfl, rfl⟩ | ⟨rfl, rfl⟩ | ⟨rfl, rfl⟩ | ⟨rfl, rfl⟩ | ⟨rfl, rfl⟩ |
      ⟨rfl, rfl⟩ | ⟨rfl, rfl⟩
    · exact ⟨join, rfl, rfl⟩
    · exact ⟨concat, rfl, rfl⟩
    · exact ⟨first, rfl, rfl⟩
    · exact ⟨last, rfl, rfl⟩
    · exact ⟨map, rfl, rfl⟩
    · exact ⟨push, rfl, rfl⟩
    · exact ⟨pop, rfl, rfl⟩
    · exact ⟨size, rfl, rfl⟩
  · rintro ⟨l, rfl, rfl⟩
    cases l <;> cbv

end ListFunction

end Stencil

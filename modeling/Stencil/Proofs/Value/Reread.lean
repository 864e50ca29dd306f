import Stencil.Proofs.Json.RoundTrip
import Stencil.Value.Content

namespace Stencil

namespace Json

def Fractional (text : String) : Prop :=
  '.' ∈ text.toList ∨ 'e' ∈ text.toList

mutual

/-- What a tree may come back as when its text is read. A whole number that does not fit in 64 bits, and a double
that is written like a whole number, may come back as anything. -/
inductive Reread : Json → Json → Prop
  | null : Reread .null .null
  | bool (b : Bool) : Reread (.bool b) (.bool b)
  | int {n : Int} : Whole n → Reread (.int n) (.int n)
  | wide {n : Int} {j : Json} : ¬Whole n → Reread (.int n) j
  | double {x : Float} : Fractional (doubleText x) → Reread (.double x) (.double x)
  | unmarked {x : Float} {j : Json} : ¬Fractional (doubleText x) → Reread (.double x) j
  | string (s : String) : Reread (.string s) (.string s)
  | array {items items' : List Json} : RereadItems items items' → Reread (.array items) (.array items')
  | object {fields fields' : List (String × Json)} :
      RereadFields fields fields' → Reread (.object fields) (.object fields')

inductive RereadItems : List Json → List Json → Prop
  | nil : RereadItems [] []
  | cons {j j' : Json} {js js' : List Json} : Reread j j' → RereadItems js js' → RereadItems (j :: js) (j' :: js')

inductive RereadFields : List (String × Json) → List (String × Json) → Prop
  | nil : RereadFields [] []
  | cons (name : String) {j j' : Json} {fs fs' : List (String × Json)} :
      Reread j j' → RereadFields fs fs' → RereadFields ((name, j) :: fs) ((name, j') :: fs')

end

def ReadBy (read : String → Option Json) (j : Json) : Prop :=
  ∃ j', read j.text = some j' ∧ Reread j j'

theorem fractional_append_left {s : String} (h : Fractional s) (t : String) : Fractional (s ++ t) := by
  rw [Fractional, String.toList_append, List.mem_append, List.mem_append]
  exact h.imp .inl .inl

theorem fractional_append_right (s : String) {t : String} (h : Fractional t) : Fractional (s ++ t) := by
  rw [Fractional, String.toList_append, List.mem_append, List.mem_append]
  exact h.imp .inr .inr

theorem fractional_positional {d : Decimal} (h : d.exponent < 0) : Fractional d.positional := by
  rw [Decimal.positional]
  dsimp only
  split
  · exact fractional_append_left (fractional_append_left (.inl (by decide)) _) _
  split
  next hle =>
    rw [Decimal.pointed] at hle
    dsimp only at hle
    omega
  next => exact fractional_append_left (fractional_append_right _ (.inl (by decide))) _

theorem fractional_scientific (d : Decimal) : Fractional d.scientific := by
  rw [Decimal.scientific]
  dsimp only
  refine fractional_append_left (fractional_append_right _ ?_) _
  split
  · exact .inr (by decide)
  · exact .inr (by decide)

theorem fractional_doubleText {x : Float} (h : x.isFinite) : Fractional (doubleText x) := by
  rw [doubleText, if_pos h, Double.jsonText]
  dsimp only
  split
  · exact fractional_append_right _ (.inl (by decide))
  refine fractional_append_right _ ?_
  split
  · split
    · exact fractional_append_right _ (.inl (by decide))
    next hneg => exact fractional_positional (Int.not_le.1 hneg)
  · exact fractional_scientific _

mutual

theorem Reread.refl : (j : Json) → Reread j j
  | .null => .null
  | .bool b => .bool b
  | .int n => by
      by_cases hn : Whole n
      · exact .int hn
      · exact .wide hn
  | .double x => by
      by_cases hx : Fractional (doubleText x)
      · exact .double hx
      · exact .unmarked hx
  | .string s => .string s
  | .array items => .array (RereadItems.refl items)
  | .object fields => .object (RereadFields.refl fields)

theorem RereadItems.refl : (js : List Json) → RereadItems js js
  | [] => .nil
  | j :: js => .cons (Reread.refl j) (RereadItems.refl js)

theorem RereadFields.refl : (fs : List (String × Json)) → RereadFields fs fs
  | [] => .nil
  | (name, j) :: fs => .cons name (Reread.refl j) (RereadFields.refl fs)

end

/-- The reader of this library is such a reader where it gives back the fractions. -/
theorem Legible.readBy {j : Json} (h : Legible nestingLimit j) : ReadBy read? j :=
  ⟨j, h.read?_text, .refl j⟩

end Json

namespace Value

/-- No host object, and no double that is not finite, however deep. -/
inductive Portable : Value → Prop
  | null : Portable .null
  | bool (b : Bool) : Portable (.bool b)
  | int (n : Int64) : Portable (.int n)
  | double {x : Float} : x.isFinite → Portable (.double x)
  | string (s : String) : Portable (.string s)
  | array {items : List Value} : (∀ v ∈ items, Portable v) → Portable (.array items)
  | map {entries : List (String × Value)} : (∀ e ∈ entries, Portable e.2) → Portable (.map entries)

open Json (Reread RereadItems RereadFields ReadBy)

theorem whole_toInt (n : Int64) : Json.Whole n.toInt := by
  have hle : n.toInt ≤ 0x7FFFFFFFFFFFFFFF := n.toInt_le
  have hge : -0x8000000000000000 ≤ n.toInt := n.le_toInt
  refine ⟨hge, ?_⟩
  rw [Json.maxDigits]
  omega

theorem ofJsonItems_of_reread {items : List Value} {js : List Json}
    (h : ∀ v ∈ items, ∀ j, Reread v.toJson j → ofJson j = v)
    (hj : RereadItems (Content.itemsToJson (contents items)) js) : ofJsonItems js = items := by
  induction items generalizing js with
  | nil =>
      cases hj
      rfl
  | cons v items ih =>
      cases hj with
      | cons hv hjs =>
          rw [ofJsonItems, h v List.mem_cons_self _ hv, ih (fun w hw => h w (List.mem_cons_of_mem _ hw)) hjs]

theorem ofJsonFields_of_reread {entries : List (String × Value)} {fs : List (String × Json)}
    (h : ∀ e ∈ entries, ∀ j, Reread e.2.toJson j → ofJson j = e.2)
    (hj : RereadFields (Content.fieldsToJson (fieldContents entries)) fs) : ofJsonFields fs = entries := by
  induction entries generalizing fs with
  | nil =>
      cases hj
      rfl
  | cons e entries ih =>
      obtain ⟨name, v⟩ := e
      cases hj with
      | cons _ hv hfs =>
          rw [ofJsonFields, h (name, v) List.mem_cons_self _ hv,
            ih (fun e he => h e (List.mem_cons_of_mem _ he)) hfs]

theorem Portable.ofJson_of_reread {v : Value} (hv : v.Portable) {j : Json} (hj : Reread v.toJson j) :
    ofJson j = v := by
  induction hv generalizing j with
  | null =>
      cases hj
      rfl
  | bool b =>
      cases hj
      rfl
  | int n =>
      cases hj with
      | int _ => rw [ofJson, integer?_toInt]
      | wide hwide => exact absurd (whole_toInt n) hwide
  | @double x hx =>
      have htree : (Value.double x).toJson = .double x := if_pos hx
      rw [htree] at hj
      cases hj with
      | double _ => rfl
      | unmarked hmark => exact absurd (Json.fractional_doubleText hx) hmark
  | string s =>
      cases hj
      rfl
  | array _ ih =>
      cases hj with
      | array hitems => rw [ofJson, ofJsonItems_of_reread (fun v hv j => ih v hv) hitems]
  | map _ ih =>
      cases hj with
      | object hfields => rw [ofJson, ofJsonFields_of_reread (fun e he j => ih e he) hfields]

theorem Portable.display_eq {v : Value} (hv : v.Portable) (hc : v.isArrayLike ∨ v.isMapLike) :
    v.display = v.toJson.text := by
  cases hv with
  | array | map => rfl
  | _ => exact absurd hc (by simp [isArrayLike, isMapLike])

/-- An array or a map without host objects, all of whose doubles are finite, is made again of the tree that a reader
gives back for its text. So two such values with one text are the same. -/
theorem ofJson_read_display {read : String → Option Json} {v : Value} (hc : v.isArrayLike ∨ v.isMapLike)
    (hv : v.Portable) (hread : ReadBy read v.toJson) :
    (read v.display).map ofJson = some v ∧
      ∀ w : Value, (w.isArrayLike ∨ w.isMapLike) → w.Portable → ReadBy read w.toJson →
        w.display = v.display → w = v := by
  have hback {w : Value} (hc : w.isArrayLike ∨ w.isMapLike) (hw : w.Portable) (hread : ReadBy read w.toJson) :
      (read w.display).map ofJson = some w := by
    obtain ⟨j, hj, hre⟩ := hread
    rw [hw.display_eq hc, hj, Option.map_some, hw.ofJson_of_reread hre]
  refine ⟨hback hc hv hread, fun w hcw hw hreadw heq => ?_⟩
  have hsame := hback hcw hw hreadw
  rw [heq, hback hc hv hread] at hsame
  exact (Option.some.inj hsame).symm

def measures : Value :=
  .map [("limits", .array [.int Int64.minValue, .int Int64.maxValue, .null]),
    ("sizes", .array [.double 2.0, .double (-0.0), .double 0.1, .map [("far", .double 1e16)], .string "2.0"])]

theorem measures_toJson : measures.toJson =
    .object [("limits", .array [.int (-0x8000000000000000), .int 0x7FFFFFFFFFFFFFFF, .null]),
      ("sizes", .array [.double 2.0, .double (-0.0), .double 0.1, .object [("far", .double 1e16)],
        .string "2.0"])] := by
  rfl

theorem legible_measures : Json.Legible Json.nestingLimit measures.toJson := by
  have hwhole : Json.number (Json.doubleText 2.0).toList = some (.double 2.0, []) := by rfl
  have hzero : Json.number (Json.doubleText (-0.0)).toList = some (.double (-0.0), []) := by rfl
  have htenth : Json.number (Json.doubleText 0.1).toList = some (.double 0.1, []) := by rfl
  have hfar : Json.number (Json.doubleText 1e16).toList = some (.double 1e16, []) := by rfl
  rw [measures_toJson]
  refine .object ?_ (List.forall_mem_cons.2 ⟨.array ?_, List.forall_mem_singleton.2 (.array ?_)⟩)
  · rw [Dict.Sorted]
    decide
  · simp only [List.forall_mem_cons]
    exact ⟨.int ⟨by decide, by decide⟩, .int ⟨by decide, by decide⟩, .null, List.forall_mem_nil _⟩
  · simp only [List.forall_mem_cons]
    exact ⟨.double hwhole, .double hzero, .double htenth,
      .object (List.pairwise_singleton _ _) (List.forall_mem_singleton.2 (.double hfar)), .string,
      List.forall_mem_nil _⟩

theorem portable_measures : measures.Portable := by
  refine .map (List.forall_mem_cons.2 ⟨.array ?_, List.forall_mem_singleton.2 (.array ?_)⟩)
  · simp only [List.forall_mem_cons]
    exact ⟨.int _, .int _, .null, List.forall_mem_nil _⟩
  · simp only [List.forall_mem_cons]
    exact ⟨.double (by decide +kernel), .double (by decide +kernel), .double (by decide +kernel),
      .map (List.forall_mem_singleton.2 (.double (by decide +kernel))), .string _, List.forall_mem_nil _⟩

theorem ofJson_read_display_measures :
    measures.isMapLike = true ∧ measures.Portable ∧ ReadBy Json.read? measures.toJson ∧
      (Json.read? measures.display).map ofJson = some measures :=
  ⟨rfl, portable_measures, legible_measures.readBy,
    (ofJson_read_display (.inr rfl) portable_measures legible_measures.readBy).1⟩

end Value

end Stencil

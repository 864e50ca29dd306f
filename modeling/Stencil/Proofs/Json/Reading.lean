import Stencil.Json.Basic
import Stencil.Proofs.Dict
import Stencil.Settings.Config

namespace Stencil

namespace Json

/-- No field is an object, so that a merge replaces each field or keeps it whole. -/
def Flat (old : Dict Json) : Prop :=
  ∀ name fields, old.get? name ≠ some (.object fields)

theorem merge_of_ne_object {base : Json} (hb : ∀ fields, base ≠ .object fields) (j : Json) :
    merge base j = j := by
  cases j with
  | object fields =>
      cases base with
      | object old => exact absurd rfl (hb old)
      | _ => simp [merge]
  | _ => simp [merge]

/-- What a field holds after the merge: what both sides say, or what the only one says. -/
theorem get?_mergeFields {fields : Dict Json} (hs : fields.Sorted) (old : Dict Json) (name : String) :
    (mergeFields old fields).get? name =
      ((fields.get? name).map fun j => ((old.get? name).map (merge · j)).getD j).or (old.get? name) := by
  induction fields generalizing old with
  | nil => simp [mergeFields, Dict.get?]
  | cons field rest ih =>
      obtain ⟨key, j⟩ := field
      rw [mergeFields, ih (List.Pairwise.of_cons hs), Dict.get?_cons, Dict.get?_insert]
      by_cases hn : name = key
      · subst hn
        rw [hs.get?_rest]
        cases old.get? name <;> simp
      · simp [hn]

theorem get?_mergeFields_flat {fields old : Dict Json} (hs : fields.Sorted) (ho : Flat old) (name : String) :
    (mergeFields old fields).get? name = (fields.get? name).or (old.get? name) := by
  rw [get?_mergeFields hs]
  cases hf : fields.get? name with
  | none => rfl
  | some j =>
      cases hb : old.get? name with
      | none => rfl
      | some base =>
          have hm : merge base j = j := merge_of_ne_object (fun fs h => ho name fs (h ▸ hb)) j
          simp [hm]

def isScalar : Json → Bool
  | array _ | object _ => false
  | _ => true

theorem isScalar_of_withExponent {negative : Bool} {p : Parts} {cs rest : List Char} {j : Json}
    (h : withExponent negative p cs = some (j, rest)) : j.isScalar := by
  unfold withExponent at h
  dsimp only [Option.bind_eq_bind] at h
  split at h
  all_goals
    simp only [Option.bind_eq_some_iff] at h
    obtain ⟨⟨p', r⟩, -, x, -, h⟩ := h
    obtain ⟨rfl, -⟩ := Prod.mk.inj (Option.some.inj h)
    rfl

theorem isScalar_wholeNumber (negative : Bool) (n : Nat) : (wholeNumber negative n).isScalar := by
  unfold wholeNumber
  split
  · split <;> rfl
  · rfl

theorem isScalar_of_unsignedNumber {negative : Bool} {cs rest : List Char} {j : Json}
    (h : unsignedNumber negative cs = some (j, rest)) : j.isScalar := by
  unfold unsignedNumber at h
  dsimp only at h
  split at h
  · cases h
  split at h
  · split at h
    · cases h
    · exact isScalar_of_withExponent h
  · exact isScalar_of_withExponent h
  · exact isScalar_of_withExponent h
  · split at h
    · obtain ⟨rfl, -⟩ := Prod.mk.inj (Option.some.inj h)
      exact isScalar_wholeNumber _ _
    · exact isScalar_of_withExponent h

theorem eq_of_literal {word : String} {j j' : Json} {cs rest : List Char}
    (h : literal word j cs = some (j', rest)) : j' = j := by
  unfold literal at h
  split at h
  · exact (Prod.mk.inj (Option.some.inj h)).1.symm
  · cases h

theorem isScalar_of_scalar {cs rest : List Char} {j : Json} (h : scalar cs = some (j, rest)) :
    j.isScalar := by
  unfold scalar at h
  split at h
  · rw [eq_of_literal h]; rfl
  · rw [eq_of_literal h]; rfl
  · rw [eq_of_literal h]; rfl
  · obtain ⟨⟨s, r⟩, -, h⟩ := Option.map_eq_some_iff.1 h
    obtain ⟨rfl, -⟩ := Prod.mk.inj h
    rfl
  · unfold number at h
    split at h
    · exact isScalar_of_unsignedNumber h
    · exact isScalar_of_unsignedNumber h

theorem sorted_of_value {depth : Nat} {cs : List Char} {fields : Dict Json} {rest : Shorter cs}
    (h : value depth cs = some (.object fields, rest)) : fields.Sorted := by
  rw [value] at h
  split at h
  · split at h
    · cases h
    split at h
    · cases h
    · simp only [Option.bind_eq_bind, Option.bind_eq_some_iff] at h
      obtain ⟨⟨items, r⟩, -, h⟩ := h
      cases (Prod.mk.inj (Option.some.inj h)).1
  · split at h
    · cases h
    split at h
    · obtain ⟨h, -⟩ := Prod.mk.inj (Option.some.inj h)
      rw [← Json.object.inj h]
      exact List.Pairwise.nil
    · simp only [Option.bind_eq_bind, Option.bind_eq_some_iff] at h
      obtain ⟨⟨fs, r⟩, -, h⟩ := h
      rw [← Json.object.inj (Prod.mk.inj (Option.some.inj h)).1]
      exact Dict.sorted_ofList fs
  · unfold shorter? at h
    split at h
    next hs =>
      split at h
      · rw [(Prod.mk.inj (Option.some.inj h)).1] at hs
        cases isScalar_of_scalar hs
      · cases h
    next => cases h

theorem sorted_of_read {text : String} {fields : Dict Json} (h : read? text = some (.object fields)) :
    fields.Sorted := by
  simp only [read?, Option.bind_eq_bind, Option.bind_eq_some_iff] at h
  obtain ⟨⟨j, rest⟩, hv, h⟩ := h
  dsimp only at h
  split at h
  · obtain rfl := Option.some.inj h
    exact sorted_of_value hv
  · cases h

end Json

theorem Toml.sorted_of_toJson {t : Toml} {fields : Dict Json} (h : t.toJson = .object fields) :
    fields.Sorted := by
  cases t with
  | table entries =>
      rw [toJson] at h
      rw [← Json.object.inj h]
      exact Dict.sorted_ofList _
  | float x =>
      rw [toJson] at h
      split at h <;> cases h
  | _ =>
      rw [toJson] at h
      cases h

theorem Settings.sorted_of_readConfig {format : ConfigFormat} {text : String} {fields : Dict Json}
    (h : readConfig format text = some (.object fields)) : fields.Sorted := by
  cases format with
  | toml =>
      obtain ⟨t, -, h⟩ := Option.map_eq_some_iff.1 h
      exact Toml.sorted_of_toJson h
  | json => exact Json.sorted_of_read h

end Stencil

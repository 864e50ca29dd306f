import Stencil.Proofs.Dict
import Stencil.Proofs.Json.Scalars

namespace Stencil.Json

/-- Trees without fractions that are nested at most `depth` deep, with the names of every object in order. -/
inductive Plain : Nat → Json → Prop where
  | null {depth : Nat} : Plain depth .null
  | bool {depth : Nat} {b : Bool} : Plain depth (.bool b)
  | int {depth : Nat} {n : Int} : Whole n → Plain depth (.int n)
  | string {depth : Nat} {s : String} : Plain depth (.string s)
  | array {depth : Nat} {items : List Json} : (∀ j ∈ items, Plain depth j) → Plain (depth + 1) (.array items)
  | object {depth : Nat} {fields : Dict Json} : fields.Sorted → (∀ field ∈ fields, Plain depth field.2) →
      Plain (depth + 1) (.object fields)

inductive Legible : Nat → Json → Prop where
  | null {depth : Nat} : Legible depth .null
  | bool {depth : Nat} {b : Bool} : Legible depth (.bool b)
  | int {depth : Nat} {n : Int} : Whole n → Legible depth (.int n)
  | double {depth : Nat} {x : Float} : number (doubleText x).toList = some (.double x, []) → Legible depth (.double x)
  | string {depth : Nat} {s : String} : Legible depth (.string s)
  | array {depth : Nat} {items : List Json} : (∀ j ∈ items, Legible depth j) → Legible (depth + 1) (.array items)
  | object {depth : Nat} {fields : Dict Json} : fields.Sorted → (∀ field ∈ fields, Legible depth field.2) →
      Legible (depth + 1) (.object fields)

theorem Plain.legible {depth : Nat} {j : Json} (h : Plain depth j) : Legible depth j := by
  induction h with
  | null => exact .null
  | bool => exact .bool
  | int hn => exact .int hn
  | string => exact .string
  | array _ ih => exact .array ih
  | object hs _ ih => exact .object hs ih

variable {depth : Nat} {j : Json} {c : Char} {rest : List Char}

theorem value_nil_array (rest : List Char) :
    ∃ h, value (depth + 1) ('[' :: ']' :: rest) = some (.array [], ⟨rest, h⟩) := by
  refine ⟨Nat.lt_succ_of_lt (Nat.lt_succ_self rest.length), ?_⟩
  rw [value, nextNot?_of_not rfl]
  simp only [Nat.succ_ne_zero, if_false]
  rw [nextNot?_of_not rfl]
  rfl

theorem value_array {js : List Json} {cs : List Char} {h : rest.length < (c :: cs).length}
    (hc : isBlank c = false) (hne : c ≠ ']') (hi : items depth (c :: cs) = some (js, ⟨rest, h⟩)) :
    ∃ h', value (depth + 1) ('[' :: c :: cs) = some (.array js, ⟨rest, h'⟩) := by
  refine ⟨Nat.lt_succ_of_lt h, ?_⟩
  rw [value, nextNot?_of_not rfl]
  simp only [Nat.succ_ne_zero, if_false]
  rw [nextNot?_of_not hc]
  split
  next hs => exact absurd (Prod.mk.inj (Option.some.inj hs)).1 hne
  next => rw [Nat.add_sub_cancel, hi]; rfl

theorem value_nil_object (rest : List Char) :
    ∃ h, value (depth + 1) ('\x7b' :: '\x7d' :: rest) = some (.object [], ⟨rest, h⟩) := by
  refine ⟨Nat.lt_succ_of_lt (Nat.lt_succ_self rest.length), ?_⟩
  rw [value, nextNot?_of_not rfl]
  simp only [Nat.succ_ne_zero, if_false]
  rw [nextNot?_of_not rfl]
  rfl

theorem value_object {fs : Dict Json} {cs : List Char} {h : rest.length < (c :: cs).length}
    (hc : isBlank c = false) (hne : c ≠ '\x7d') (hi : fields depth (c :: cs) = some (fs, ⟨rest, h⟩)) :
    ∃ h', value (depth + 1) ('\x7b' :: c :: cs) = some (.object (Dict.ofList fs), ⟨rest, h'⟩) := by
  refine ⟨Nat.lt_succ_of_lt h, ?_⟩
  rw [value, nextNot?_of_not rfl]
  simp only [Nat.succ_ne_zero, if_false]
  rw [nextNot?_of_not hc]
  split
  next hs => exact absurd (Prod.mk.inj (Option.some.inj hs)).1 hne
  next => rw [Nat.add_sub_cancel, hi]; rfl

def ReadsBack (depth : Nat) (j : Json) : Prop :=
  ∀ rest, Ends rest → ∃ h, value depth (j.text.toList ++ rest) = some (j, ⟨rest, h⟩)

theorem items_last {cs : List Char} {h : (']' :: rest).length < cs.length}
    (hv : value depth cs = some (j, ⟨']' :: rest, h⟩)) :
    ∃ h', items depth cs = some ([j], ⟨rest, h'⟩) := by
  refine ⟨Nat.lt_of_succ_lt h, ?_⟩
  rw [items, hv]
  simp only [Option.bind_eq_bind, Option.bind_some]
  rfl

theorem items_more {cs more : List Char} {js : List Json} {h : (',' :: more).length < cs.length}
    {hm : rest.length < more.length}
    (hv : value depth cs = some (j, ⟨',' :: more, h⟩)) (hi : items depth more = some (js, ⟨rest, hm⟩)) :
    ∃ h', items depth cs = some (j :: js, ⟨rest, h'⟩) := by
  refine ⟨Nat.lt_trans hm (Nat.lt_of_succ_lt h), ?_⟩
  rw [items, hv]
  simp only [Option.bind_eq_bind, Option.bind_some, nextNot?_of_not (show isBlank ',' = false from rfl), hi]
  rfl

def label (name : String) : List Char :=
  (stringText name).toList ++ [':']

theorem shorter?_name (name : String) (start : List Char) :
    ∃ h, shorter? (escaped name.toList ++ '"' :: ':' :: start)
      (chars (escaped name.toList ++ '"' :: ':' :: start)) = some (name.toList, ⟨':' :: start, h⟩) := by
  refine ⟨by simp only [List.length_append, List.length_cons]; omega, ?_⟩
  rw [chars_escaped, shorter?, dif_pos]

theorem label_append (name : String) (start : List Char) :
    label name ++ start = '"' :: (escaped name.toList ++ '"' :: ':' :: start) := by
  simp [label, stringText_toList]

theorem fields_last {name : String} {start : List Char} {h : ('\x7d' :: rest).length < start.length}
    (hv : value depth start = some (j, ⟨'\x7d' :: rest, h⟩)) :
    ∃ h', fields depth (label name ++ start) = some ([(name, j)], ⟨rest, h'⟩) := by
  obtain ⟨hs, hname⟩ := shorter?_name name start
  rw [label_append]
  refine ⟨by simp only [List.length_append, List.length_cons] at h ⊢; omega, ?_⟩
  rw [fields, nextNot?_of_not rfl]
  simp only [hname, Option.bind_eq_bind, Option.bind_some,
    nextNot?_of_not (show isBlank ':' = false from rfl), hv,
    nextNot?_of_not (show isBlank '\x7d' = false from rfl)]
  rw [String.ofList_toList]
  rfl

theorem fields_more {name : String} {start more : List Char} {fs : List (String × Json)}
    {h : (',' :: more).length < start.length} {hm : rest.length < more.length}
    (hv : value depth start = some (j, ⟨',' :: more, h⟩)) (hf : fields depth more = some (fs, ⟨rest, hm⟩)) :
    ∃ h', fields depth (label name ++ start) = some ((name, j) :: fs, ⟨rest, h'⟩) := by
  obtain ⟨hs, hname⟩ := shorter?_name name start
  rw [label_append]
  refine ⟨by simp only [List.length_append, List.length_cons] at h ⊢; omega, ?_⟩
  rw [fields, nextNot?_of_not rfl]
  simp only [hname, Option.bind_eq_bind, Option.bind_some,
    nextNot?_of_not (show isBlank ':' = false from rfl), hv,
    nextNot?_of_not (show isBlank ',' = false from rfl), hf]
  rw [String.ofList_toList]
  rfl

theorem ends_of_not_isDigit {c : Char} (hc : c = ',' ∨ c = ']' ∨ c = '\x7d') (rest : List Char) :
    Ends (c :: rest) := by
  intro c' h
  obtain rfl := Option.some.inj h
  rcases hc with rfl | rfl | rfl <;> decide

theorem itemTexts_eq (js : List Json) : itemTexts js = js.map text := by
  induction js with
  | nil => rfl
  | cons j js ih => exact congrArg (j.text :: ·) ih

theorem fieldTexts_eq (fs : List (String × Json)) :
    fieldTexts fs = fs.map fun f => stringText f.1 ++ ":" ++ f.2.text := by
  induction fs with
  | nil => rfl
  | cons f fs ih => exact congrArg (_ :: ·) ih

theorem items_text {js : List Json} (hne : js ≠ []) (h : ∀ j ∈ js, ReadsBack depth j) (rest : List Char) :
    ∃ h', items depth ([','].intercalate (js.map fun j => j.text.toList) ++ ']' :: rest) =
      some (js, ⟨rest, h'⟩) := by
  induction js with
  | nil => exact absurd rfl hne
  | cons j js ih =>
      have hj := h j List.mem_cons_self
      cases js with
      | nil =>
          obtain ⟨_, hv⟩ := hj (']' :: rest) (ends_of_not_isDigit (.inr (.inl rfl)) rest)
          rw [List.map_singleton, List.intercalate_singleton]
          exact items_last hv
      | cons j' js =>
          obtain ⟨_, hi⟩ := ih (List.cons_ne_nil _ _) fun k hk => h k (List.mem_cons_of_mem _ hk)
          obtain ⟨_, hv⟩ := hj (',' :: _) (ends_of_not_isDigit (.inl rfl) _)
          rw [List.map_cons, List.map_cons, List.intercalate_cons_cons, List.append_assoc, List.append_assoc]
          exact items_more hv hi

theorem fields_text {fs : List (String × Json)} (hne : fs ≠ []) (h : ∀ f ∈ fs, ReadsBack depth f.2)
    (rest : List Char) :
    ∃ h', fields depth ([','].intercalate (fs.map fun f => label f.1 ++ f.2.text.toList) ++ '\x7d' :: rest) =
      some (fs, ⟨rest, h'⟩) := by
  induction fs with
  | nil => exact absurd rfl hne
  | cons f fs ih =>
      obtain ⟨name, j⟩ := f
      have hj := h (name, j) List.mem_cons_self
      cases fs with
      | nil =>
          obtain ⟨_, hv⟩ := hj ('\x7d' :: rest) (ends_of_not_isDigit (.inr (.inr rfl)) rest)
          rw [List.map_singleton, List.intercalate_singleton, List.append_assoc]
          exact fields_last hv
      | cons f' fs =>
          obtain ⟨_, hf⟩ := ih (List.cons_ne_nil _ _) fun k hk => h k (List.mem_cons_of_mem _ hk)
          obtain ⟨_, hv⟩ := hj (',' :: _) (ends_of_not_isDigit (.inl rfl) _)
          rw [List.map_cons, List.map_cons, List.intercalate_cons_cons, List.append_assoc, List.append_assoc,
            List.append_assoc]
          exact fields_more hv hf

def startsScalar (c : Char) : Bool :=
  !(isBlank c || ['[', ']', '\x7b'].contains c)

theorem startsScalar_iff : startsScalar c ↔ isBlank c = false ∧ c ≠ '[' ∧ c ≠ ']' ∧ c ≠ '\x7b' := by
  simp [startsScalar]

theorem startsScalar_of_number (hc : c = '-' ∨ c.isDigit) : startsScalar c := by
  cases hs : startsScalar c with
  | true => rfl
  | false =>
      simp only [startsScalar, isBlank, Bool.not_eq_false', Bool.or_eq_true, decide_eq_true_eq,
        List.contains_cons, List.contains_nil, Bool.or_false, beq_iff_eq] at hs
      obtain (((rfl | rfl) | rfl) | rfl) | rfl | rfl | rfl := hs <;> revert hc <;> decide

theorem scalar_eq_number (hc : c = '-' ∨ c.isDigit) (tail : List Char) :
    scalar (c :: tail) = number (c :: tail) := by
  unfold scalar
  split
  next h => exact absurd hc ((List.cons.inj h).1 ▸ by decide)
  next h => exact absurd hc ((List.cons.inj h).1 ▸ by decide)
  next h => exact absurd hc ((List.cons.inj h).1 ▸ by decide)
  next h => exact absurd hc ((List.cons.inj h).1 ▸ by decide)
  next => rfl

theorem readsBack_of_scalar {tail : List Char} (ht : j.text.toList = c :: tail) (hc : startsScalar c)
    (h : ∀ rest, Ends rest → scalar (c :: tail ++ rest) = some (j, rest)) : ReadsBack depth j := by
  obtain ⟨hb, ha, -, ho⟩ := startsScalar_iff.1 hc
  intro rest hr
  rw [ht]
  have hl : rest.length < (c :: tail ++ rest).length := by
    rw [List.length_append, List.length_cons]
    omega
  exact ⟨hl, value_of_scalar hb ha ho (h rest hr) hl⟩

theorem literal_word (word : String) (j : Json) (rest : List Char) :
    literal word j (word.toList ++ rest) = some (j, rest) := by
  rw [literal, if_pos (by simp), ← String.length_toList, List.drop_left]

theorem readsBack_null : ReadsBack depth .null := by
  have ht : (text .null).toList = ['n', 'u', 'l', 'l'] := rfl
  exact readsBack_of_scalar ht rfl fun rest _ => literal_word "null" .null rest

theorem readsBack_bool (b : Bool) : ReadsBack depth (.bool b) := by
  cases b with
  | true =>
      have ht : (text (.bool true)).toList = ['t', 'r', 'u', 'e'] := rfl
      exact readsBack_of_scalar ht rfl fun rest _ => literal_word "true" (.bool true) rest
  | false =>
      have ht : (text (.bool false)).toList = ['f', 'a', 'l', 's', 'e'] := rfl
      exact readsBack_of_scalar ht rfl fun rest _ => literal_word "false" (.bool false) rest

theorem readsBack_int {n : Int} (hn : Whole n) : ReadsBack depth (.int n) := by
  obtain ⟨c, tail, ht, hc⟩ := starts_intText n
  refine readsBack_of_scalar ht (startsScalar_of_number hc) fun rest hr => ?_
  rw [List.cons_append, scalar_eq_number hc, ← List.cons_append, ← ht]
  exact number_intText hn hr

theorem readsBack_double {x : Float} (hx : number (doubleText x).toList = some (.double x, [])) :
    ReadsBack depth (.double x) := by
  obtain ⟨c, tail, ht, hc⟩ := starts_number hx
  refine readsBack_of_scalar ht (startsScalar_of_number hc) fun rest hr => ?_
  rw [List.cons_append, scalar_eq_number hc, ← List.cons_append, ← ht]
  exact number_append hx hr

theorem readsBack_string (s : String) : ReadsBack depth (.string s) := by
  refine readsBack_of_scalar (stringText_toList s) rfl fun rest _ => ?_
  rw [List.cons_append, List.append_assoc, List.singleton_append, scalar, chars_escaped, Option.map_some]
  dsimp only
  rw [String.ofList_toList]

theorem text_array_toList (js : List Json) :
    (text (.array js)).toList = '[' :: ([','].intercalate (js.map fun j => j.text.toList) ++ [']']) := by
  show ("[" ++ String.intercalate "," (itemTexts js) ++ "]").toList = _
  rw [itemTexts_eq]
  simp [String.toList_intercalate, Function.comp_def]

theorem text_object_toList (fs : List (String × Json)) :
    (text (.object fs)).toList =
      '\x7b' :: ([','].intercalate (fs.map fun f => label f.1 ++ f.2.text.toList) ++ ['\x7d']) := by
  show ("\x7b" ++ String.intercalate "," (fieldTexts fs) ++ "\x7d").toList = _
  rw [fieldTexts_eq]
  simp [String.toList_intercalate, Function.comp_def, label]

theorem intercalate_cons (separator text : List Char) (texts : List (List Char)) :
    ∃ more, separator.intercalate (text :: texts) = text ++ more := by
  cases texts with
  | nil => exact ⟨[], by rw [List.intercalate_singleton, List.append_nil]⟩
  | cons other texts => exact ⟨_, by rw [List.intercalate_cons_cons, List.append_assoc]⟩

theorem Legible.starts (h : Legible depth j) :
    ∃ c tail, j.text.toList = c :: tail ∧ isBlank c = false ∧ c ≠ ']' := by
  cases h with
  | null => exact ⟨'n', _, rfl, rfl, by decide⟩
  | @bool _ b =>
      cases b with
      | true => exact ⟨'t', _, rfl, rfl, by decide⟩
      | false => exact ⟨'f', _, rfl, rfl, by decide⟩
  | @int _ n _ =>
      obtain ⟨c, tail, ht, hc⟩ := starts_intText n
      obtain ⟨hb, -, hne, -⟩ := startsScalar_iff.1 (startsScalar_of_number hc)
      exact ⟨c, tail, ht, hb, hne⟩
  | double hx =>
      obtain ⟨c, tail, ht, hc⟩ := starts_number hx
      obtain ⟨hb, -, hne, -⟩ := startsScalar_iff.1 (startsScalar_of_number hc)
      exact ⟨c, tail, ht, hb, hne⟩
  | string => exact ⟨'"', _, stringText_toList _, rfl, by decide⟩
  | array _ => exact ⟨'[', _, text_array_toList _, rfl, by decide⟩
  | object _ _ => exact ⟨'\x7b', _, text_object_toList _, rfl, by decide⟩

-- By induction on the tree, for any text behind it: items and fields end in the middle of a text.
theorem Legible.readsBack (h : Legible depth j) : ReadsBack depth j := by
  induction h with
  | null => exact readsBack_null
  | bool => exact readsBack_bool _
  | int hn => exact readsBack_int hn
  | double hx => exact readsBack_double hx
  | string => exact readsBack_string _
  | @array depth js hp ih =>
      intro rest _
      rw [text_array_toList, List.cons_append, List.append_assoc, List.singleton_append]
      cases js with
      | nil => exact value_nil_array rest
      | cons j js =>
          obtain ⟨c, tail, ht, hb, hne⟩ := (hp j List.mem_cons_self).starts
          obtain ⟨more, hm⟩ := intercalate_cons [','] j.text.toList (js.map fun j => j.text.toList)
          have hi := items_text (List.cons_ne_nil j js) ih rest
          rw [List.map_cons, hm, ht, List.cons_append, List.cons_append] at hi ⊢
          exact value_array hb hne hi.2
  | @object depth fs hs hp ih =>
      intro rest _
      rw [text_object_toList, List.cons_append, List.append_assoc, List.singleton_append]
      cases fs with
      | nil => exact value_nil_object rest
      | cons f fs =>
          obtain ⟨more, hm⟩ := intercalate_cons [','] (label f.1 ++ f.2.text.toList)
            (fs.map fun f => label f.1 ++ f.2.text.toList)
          have hf := fields_text (List.cons_ne_nil f fs) ih rest
          rw [List.map_cons, hm, label_append, List.cons_append, List.cons_append] at hf ⊢
          have hv := value_object rfl (by decide) hf.2
          rwa [Dict.ofList_of_sorted hs] at hv

/-- What is written for a tree is read as that tree. -/
theorem Legible.read?_text (h : Legible nestingLimit j) : read? j.text = some j := by
  have hv := h.readsBack [] nofun
  rw [List.append_nil] at hv
  obtain ⟨_, hv⟩ := hv
  simp only [read?, hv, Option.bind_eq_bind, Option.bind_some]
  rfl

theorem read?_text (h : Plain nestingLimit j) : read? j.text = some j :=
  h.legible.read?_text

end Stencil.Json

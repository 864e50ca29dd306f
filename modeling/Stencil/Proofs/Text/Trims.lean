import Mathlib.Data.List.Basic
import Mathlib.Data.List.TakeWhile
import Stencil.Node.Basic

namespace Stencil.Text

def Sheds (p : Char → Bool) (sheds : Bool) (cs ds : List Char) : Prop :=
  ∃ lead, cs = lead ++ ds ∧ if sheds then (∀ c ∈ lead, p c) ∧ ∀ c ∈ ds.head?, ¬p c else lead = []

namespace Sheds

variable {p : Char → Bool} {sheds : Bool} {cs ds es : List Char}

theorem keep_iff : Sheds p false cs ds ↔ cs = ds := by
  constructor
  · rintro ⟨lead, rfl, rfl⟩
    rfl
  · rintro rfl
    exact ⟨[], rfl, rfl⟩

theorem drop_iff : Sheds p true cs ds ↔ cs.dropWhile p = ds := by
  constructor
  · rintro ⟨lead, rfl, hlead, hhead⟩
    rw [List.dropWhile_append_of_pos hlead]
    cases ds with
    | nil => rfl
    | cons d ds => exact List.dropWhile_cons_of_neg (hhead d rfl)
  · rintro rfl
    refine ⟨cs.takeWhile p, List.takeWhile_append_dropWhile.symm, fun c => List.mem_takeWhile_imp, ?_⟩
    intro c hc
    have := List.head?_dropWhile_not p cs
    rw [hc] at this
    simpa using this

theorem iff_dropWhile : Sheds p sheds cs ds ↔ (if sheds then cs.dropWhile p else cs) = ds := by
  cases sheds with
  | false => exact keep_iff
  | true => exact drop_iff

theorem self (h : sheds → ∀ c ∈ cs.head?, ¬p c) : Sheds p sheds cs cs := by
  cases sheds with
  | false => exact keep_iff.2 rfl
  | true => exact ⟨[], rfl, List.forall_mem_nil _, h rfl⟩

theorem head (h : Sheds p sheds cs ds) : sheds → ∀ c ∈ ds.head?, ¬p c := by
  rintro rfl
  obtain ⟨lead, -, -, hhead⟩ := h
  exact hhead

theorem eq_of_head {c : Char} (h : Sheds p sheds cs ds) (hc : cs.head? = some c) (hp : ¬p c) : ds = cs := by
  have hself : Sheds p sheds cs cs := self fun _ d hd => by rwa [← Option.some.inj (hc.symm.trans hd)]
  rw [← iff_dropWhile.1 h, iff_dropWhile.1 hself]

theorem append (h : Sheds p sheds cs ds) (hjoint : (∃ c ∈ cs, ¬p c) ∨ ∃ c ∈ es.head?, ¬p c) :
    Sheds p sheds (cs ++ es) (ds ++ es) := by
  obtain ⟨lead, rfl, hlead⟩ := h
  refine ⟨lead, List.append_assoc .., ?_⟩
  cases sheds with
  | false => exact hlead
  | true =>
      obtain ⟨hlead, hhead⟩ := hlead
      refine ⟨hlead, fun c hc => ?_⟩
      cases ds with
      | cons d ds => exact hhead c hc
      | nil =>
          rcases hjoint with ⟨d, hd, hp⟩ | ⟨d, hd, hp⟩
          · rw [List.append_nil] at hd
            exact (hp (hlead d hd)).elim
          · rwa [← Option.some.inj (hd.symm.trans hc)]

theorem suffix (h : Sheds p sheds cs ds) : ds <:+ cs := by
  obtain ⟨lead, rfl, -⟩ := h
  exact List.suffix_append lead ds

theorem getLast? {c : Char} (h : Sheds p sheds cs ds) (hc : cs.getLast? = some c) (hp : ¬p c) :
    ds.getLast? = some c := by
  obtain ⟨lead, rfl, hlead⟩ := h
  cases ds with
  | cons d ds => rwa [List.getLast?_append_of_ne_nil lead (List.cons_ne_nil d ds)] at hc
  | nil =>
      rw [List.append_nil] at hc
      cases sheds with
      | false =>
          obtain rfl := hlead
          cases hc
      | true => exact (hp (hlead.1 c (List.mem_of_getLast? hc))).elim

end Sheds

def Abut (cs ds : List Char) : Prop :=
  cs.getLast? = some '\x7b' ∨ ds.head? = some '\x7b'

theorem Abut.extend {cs ds es : List Char} (h : Abut cs ds) (hp : ds <+: es) : Abut cs es := by
  obtain ⟨rest, rfl⟩ := hp
  exact h.imp_right List.mem_head?_append_of_mem_head?

open Node (isLayout isIndent)

theorem not_isLayout_brace : ¬isLayout '\x7b' := by decide

theorem not_isIndent_brace : ¬isIndent '\x7b' := by decide

/-- The second text is what the first is without the layout at its front, and then without the indent at its
back, where these are to go. -/
def Trims (front back : Bool) (cs ds : List Char) : Prop :=
  ∃ ms, Sheds isLayout front cs ms ∧ Sheds isIndent back ms.reverse ds.reverse

namespace Trims

variable {front back : Bool} {cs ds es fs : List Char}

theorem iff_stripText {s : String} : Trims front back s.toList ds ↔ (Node.stripText s front back).toList = ds := by
  have hback (ms : List Char) : Sheds isIndent back ms.reverse ds.reverse ↔
      (if back then (ms.reverse.dropWhile isIndent).reverse else ms) = ds := by
    cases back with
    | false => exact Sheds.keep_iff.trans List.reverse_inj
    | true => exact Sheds.drop_iff.trans List.reverse_eq_iff.symm
  simp only [Trims, Sheds.iff_dropWhile (p := isLayout), hback, exists_eq_left', Node.stripText,
    String.toList_ofList]

theorem stripText (s : String) (front back : Bool) :
    Trims front back s.toList (Node.stripText s front back).toList :=
  iff_stripText.2 rfl

theorem front_iff : Trims front false cs ds ↔ Sheds isLayout front cs ds := by
  simp only [Trims, Sheds.keep_iff, List.reverse_inj, exists_eq_right]

theorem back_iff : Trims false back cs ds ↔ Sheds isIndent back cs.reverse ds.reverse := by
  simp only [Trims, Sheds.keep_iff, exists_eq_left']

/-- What was trimmed has nothing more to lose. -/
theorem again (h : Trims front back cs ds) : Trims front back ds ds := by
  obtain ⟨ms, hfront, hback⟩ := h
  obtain ⟨trail, rfl⟩ : ds <+: ms := List.reverse_suffix.1 hback.suffix
  exact ⟨ds, .self fun hf c hc => hfront.head hf c (List.mem_head?_append_of_mem_head? hc), .self hback.head⟩

theorem getLast?_eq (h : Trims front back cs ds) (hc : cs.getLast? = some '\x7b') : ds.getLast? = some '\x7b' := by
  obtain ⟨ms, hfront, hback⟩ := h
  have hms := hfront.getLast? hc not_isLayout_brace
  rw [← List.head?_reverse] at hms ⊢
  rw [hback.eq_of_head hms not_isIndent_brace, hms]

theorem head?_eq (h : Trims front back cs ds) (hc : cs.head? = some '\x7b') : ds.head? = some '\x7b' := by
  obtain ⟨ms, hfront, hback⟩ := h
  obtain rfl := hfront.eq_of_head hc not_isLayout_brace
  rw [← List.getLast?_reverse] at hc ⊢
  exact hback.getLast? hc not_isIndent_brace

theorem abut {front' back' : Bool} (h : Trims front back cs ds) (h' : Trims front' back' es fs) (hj : Abut cs es) :
    Abut ds fs :=
  hj.imp h.getLast?_eq h'.head?_eq

/-- Two texts with a brace at their joint are trimmed as one. -/
theorem append (h : Trims front false cs ds) (h' : Trims false back es fs) (hj : Abut cs es) :
    Trims front back (cs ++ es) (ds ++ fs) := by
  have hfront : (∃ c ∈ cs, ¬isLayout c) ∨ ∃ c ∈ es.head?, ¬isLayout c :=
    hj.imp (fun hc => ⟨_, List.mem_of_getLast? hc, not_isLayout_brace⟩) fun hc => ⟨_, hc, not_isLayout_brace⟩
  have hback : (∃ c ∈ es.reverse, ¬isIndent c) ∨ ∃ c ∈ ds.reverse.head?, ¬isIndent c := by
    refine hj.symm.imp (fun hc => ⟨_, List.mem_reverse.2 (List.mem_of_head? hc), not_isIndent_brace⟩) fun hc => ?_
    exact ⟨_, List.head?_reverse.trans (h.getLast?_eq hc), not_isIndent_brace⟩
  refine ⟨ds ++ es, (front_iff.1 h).append hfront, ?_⟩
  rw [List.reverse_append, List.reverse_append]
  exact (back_iff.1 h').append hback

end Trims

end Stencil.Text

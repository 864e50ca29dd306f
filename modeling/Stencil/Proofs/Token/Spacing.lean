import Stencil.Proofs.Text.Span
import Stencil.Proofs.Token.Lexeme

namespace Stencil

namespace Token

def StartsBlank (cs : List Char) : Prop :=
  ∀ c ∈ cs.head?, isSpace c

/-- The text of the token is read as this token, wherever it stands before a blank. -/
def Lexical (t : Token) : Prop :=
  ∃ c tail, t.text = String.ofList (c :: tail) ∧ ¬isSpace c ∧
    ∀ rest, StartsBlank rest → Reads c (tail ++ rest) t.kind tail

def unplaced (t : Token) : Token :=
  { t with offset := 0 }

def Alike (ts us : List Token) : Prop :=
  us.map unplaced = ts.map unplaced

/-- The tokens one after another, with blanks around them, and at least one between neighbours. -/
inductive Spaced : List Token → List Char → Prop
  | nil {gap : List Char} : (∀ c ∈ gap, isSpace c) → Spaced [] gap
  | cons {t : Token} {ts : List Token} {gap cs : List Char} :
      (∀ c ∈ gap, isSpace c) → StartsBlank cs → Spaced ts cs →
        Spaced (t :: ts) (gap ++ (t.text.toList ++ cs))

theorem unquoted_congr {t u : Token} (hk : u.kind = t.kind) (ht : u.text = t.text) :
    u.unquoted = t.unquoted := by
  rw [unquoted, unquoted, hk, ht]

variable {c : Char} {cs rest tail : List Char}

theorem takeWhile_append_of_ends {p : Char → Bool} (h : (∀ x ∈ cs, p x) → ∀ x ∈ rest.head?, ¬p x) :
    (cs ++ rest).takeWhile p = cs.takeWhile p := by
  induction cs with
  | nil =>
      cases rest with
      | nil => rfl
      | cons d rest => exact List.takeWhile_cons_of_neg (h (List.forall_mem_nil _) d rfl)
  | cons c cs ih =>
      by_cases hc : p c
      · rw [List.cons_append, List.takeWhile_cons_of_pos hc, List.takeWhile_cons_of_pos hc,
          ih fun hcs => h (List.forall_mem_cons.2 ⟨hc, hcs⟩)]
      · rw [List.cons_append, List.takeWhile_cons_of_neg hc, List.takeWhile_cons_of_neg hc]

theorem takeWhile_before_blank {p : Char → Bool} (hp : ∀ x, isSpace x → p x = false)
    (hrest : StartsBlank rest) : (cs ++ rest).takeWhile p = cs.takeWhile p := by
  refine takeWhile_append_of_ends fun _ x hx => ?_
  rw [hp x (hrest x hx)]
  decide

/-- A run of characters goes on up to a blank, if blanks do not belong to it. -/
theorem takeWhile_append_blank {p : Char → Bool} (hp : ∀ x, isSpace x → p x = false)
    (hcs : ∀ x ∈ cs, p x) (hrest : StartsBlank rest) : (cs ++ rest).takeWhile p = cs := by
  rw [takeWhile_before_blank hp hrest]
  have hall : (cs ++ []).takeWhile p = cs ++ [].takeWhile p := List.takeWhile_append_of_pos hcs
  rwa [List.append_nil, List.takeWhile_nil, List.append_nil] at hall

theorem isDigit_eq_false_of_isSpace (x : Char) (h : isSpace x) : x.isDigit = false := by
  rw [isSpace_iff] at h
  rw [← Bool.not_eq_true, isDigit_iff]
  omega

theorem isWordPart_eq_false_of_isSpace (x : Char) (h : isSpace x) : isWordPart x = false := by
  simp [isSpace] at h
  rcases h with ((rfl | rfl) | rfl) | rfl <;> rfl

theorem symbolTail_cases (c : Char) (cs : List Char) : symbolTail c cs = [] ∨
    symbolTail c cs = ['='] ∧ ['<', '>', '=', '!'].contains c ∨ symbolTail c cs = ['>'] ∧ c = '<' := by
  simp only [symbolTail]
  split
  · split
    next h => exact .inr (.inl ⟨rfl, h⟩)
    next => exact .inl rfl
  · split
    next h => exact .inr (.inr ⟨rfl, h⟩)
    next => exact .inl rfl
  · exact .inl rfl

theorem symbolTail_append_blank (hrest : StartsBlank rest) :
    symbolTail c (symbolTail c cs ++ rest) = symbolTail c cs := by
  rcases symbolTail_cases c cs with h | ⟨h, hc⟩ | ⟨h, hc⟩
  · rw [h]
    cases rest with
    | nil => rfl
    | cons x rest =>
        have hx := hrest x rfl
        simp [isSpace] at hx
        rcases hx with ((rfl | rfl) | rfl) | rfl <;> rfl
  · rw [h]
    exact if_pos hc
  · rw [h]
    exact if_pos hc

theorem Reads.before_blank {kind : TokenKind} (h : Reads c cs kind tail) (hrest : StartsBlank rest) :
    Reads c (tail ++ rest) kind tail := by
  cases h with
  | single hs => exact .single hs
  | integer hd =>
      have hr : Reads c (cs.takeWhile Char.isDigit ++ rest) .integer _ := .integer hd
      rw [takeWhile_append_blank isDigit_eq_false_of_isSpace
        (List.all_eq_true.1 List.all_takeWhile) hrest] at hr
      exact hr
  | string hq hm =>
      have hbody : ((cs.takeWhile (· ≠ c) ++ [c]) ++ rest).takeWhile (· ≠ c) = cs.takeWhile (· ≠ c) := by
        rw [List.append_assoc, List.takeWhile_append_of_pos (List.all_eq_true.1 List.all_takeWhile)]
        simp
      have hr : Reads c ((cs.takeWhile (· ≠ c) ++ [c]) ++ rest) .string _ := .string hq (by simp)
      rw [hbody] at hr
      exact hr
  | word hw =>
      have hr : Reads c (cs.takeWhile isWordPart ++ rest) _ _ := .word hw
      rw [takeWhile_append_blank isWordPart_eq_false_of_isSpace
        (List.all_eq_true.1 List.all_takeWhile) hrest] at hr
      exact hr
  | symbol hs =>
      have hr : Reads c (symbolTail c cs ++ rest) .operator _ := .symbol hs
      rw [symbolTail_append_blank hrest] at hr
      exact hr

/-- Every token of a text can be read again before a blank. The induction is on the length of the text. -/
theorem lexical_of_scan {offset : Nat} {ts : List Token} (h : scan offset cs = .ok ts) :
    ∀ t ∈ ts, t.Lexical := by
  induction hn : cs.length using Nat.strongRecOn generalizing cs offset ts with
  | ind n ih =>
      subst hn
      cases cs with
      | nil =>
          rw [scan_nil] at h
          obtain rfl := Except.ok.inj h
          exact List.forall_mem_nil _
      | cons c cs =>
          by_cases hc : isSpace c
          · rw [scan_space offset hc] at h
            exact ih cs.length (Nat.lt_succ_self _) h rfl
          · obtain ⟨kind, tail, more, hr, hm, rfl⟩ := (scan_cons_ok_iff hc).1 h
            have hlt : (cs.drop tail.length).length < (c :: cs).length := by
              rw [List.length_drop, List.length_cons]
              omega
            refine List.forall_mem_cons.2 ⟨?_, ih _ hlt hm rfl⟩
            exact ⟨c, tail, rfl, hc, fun rest => hr.before_blank⟩

theorem scan_gap {gap : List Char} (hgap : ∀ x ∈ gap, isSpace x) (offset : Nat) :
    scan offset (gap ++ cs) = scan (offset + Text.byteLength gap) cs := by
  induction gap generalizing offset with
  | nil => rfl
  | cons x gap ih =>
      obtain ⟨hx, hgap⟩ := List.forall_mem_cons.1 hgap
      simp [hx, ih hgap, Text.byteLength, Nat.add_assoc]

/-- Reading gives the tokens back, up to where they stand. -/
theorem scan_of_spaced {ts : List Token} (h : Spaced ts cs) (hts : ∀ t ∈ ts, t.Lexical) (offset : Nat) :
    ∃ ts', scan offset cs = .ok ts' ∧ Alike ts ts' := by
  induction h generalizing offset with
  | @nil gap hgap =>
      refine ⟨[], ?_, rfl⟩
      rw [← List.append_nil gap, scan_gap hgap, scan_nil]
  | @cons t ts gap cs hgap hblank _ ih =>
      obtain ⟨⟨c, tail, htext, hc, hr⟩, hts⟩ := List.forall_mem_cons.1 hts
      obtain ⟨more, hm, he⟩ :=
        ih hts (offset + Text.byteLength gap + Text.byteLength (c :: tail))
      refine ⟨⟨t.kind, String.ofList (c :: tail), offset + Text.byteLength gap⟩ :: more, ?_, ?_⟩
      · rw [scan_gap hgap, htext, String.toList_ofList, List.cons_append]
        refine (scan_cons_ok_iff hc).2 ⟨t.kind, tail, more, hr cs hblank, ?_, rfl⟩
        rw [List.drop_left]
        exact hm
      · rw [Alike, List.map_cons, List.map_cons, he, unplaced, unplaced, htext]

theorem Spaced.blank {ts : List Token} (hc : isSpace c) (h : Spaced ts cs) :
    Spaced ts (c :: cs) := by
  cases h with
  | nil hgap => exact .nil (List.forall_mem_cons.2 ⟨hc, hgap⟩)
  | @cons t ts gap cs hgap hblank h =>
      rw [← List.cons_append]
      exact .cons (List.forall_mem_cons.2 ⟨hc, hgap⟩) hblank h

theorem spaced_intercalate (ts : List Token) : Spaced ts (" ".intercalate (ts.map text)).toList := by
  induction ts with
  | nil => exact .nil (List.forall_mem_nil _)
  | cons t ts ih =>
      cases ts with
      | nil =>
          rw [List.map_singleton, String.intercalate_singleton, ← List.append_nil t.text.toList]
          exact .cons (List.forall_mem_nil _) (fun c hc => nomatch hc) (.nil (List.forall_mem_nil _))
      | cons u us =>
          rw [List.map_cons, List.map_cons, String.intercalate_cons_cons, String.toList_append,
            String.toList_append, List.append_assoc]
          refine .cons (List.forall_mem_nil _) ?_ (ih.blank rfl)
          intro c hc
          obtain rfl := Option.some.inj hc
          rfl

end Token

end Stencil

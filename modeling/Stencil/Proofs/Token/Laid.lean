import Mathlib
import Stencil.Proofs.Token.Scanned

namespace Stencil

namespace Token

/-- The tokens take up the span, up to the blanks. -/
structure Laid (source : List Char) (start stop : Nat) (ts : List Token) : Prop where
  nonempty : ∀ t ∈ ts, t.text ≠ ""
  inside : ∀ t ∈ ts, start ≤ t.offset ∧ t.stop ≤ stop
  ordered : ts.Pairwise fun t u => t.stop ≤ u.offset
  slice : ∀ t ∈ ts, Text.StandsAt source t.offset t.text.toList
  longest : ∀ t ∈ ts, Longest t.kind t.text.toList (Text.span source t.offset stop)
  blank : ∀ {n : Nat} {c : Char}, Text.StandsAt source n [c] → start ≤ n → n < stop →
    (∀ t ∈ ts, n < t.offset ∨ t.stop ≤ n) → c = ' ' ∨ c = '\t' ∨ c = '\n' ∨ c = '\r'

def CutFrom (o : Nat) (cs : List Char) (t : Token) : Prop :=
  ∃ front rest, cs = front ++ (t.text.toList ++ rest) ∧ t.offset = o + Text.byteLength front ∧
    Longest t.kind t.text.toList (t.text.toList ++ rest)

variable {cs piece rest : List Char} {o n : Nat} {t : Token} {ts : List Token}

theorem CutFrom.append (h : CutFrom (o + Text.byteLength piece) cs t) : CutFrom o (piece ++ cs) t := by
  obtain ⟨front, rest, rfl, ho, hl⟩ := h
  refine ⟨piece ++ front, rest, by simp, ?_, hl⟩
  simp [ho, Nat.add_assoc]

theorem CutFrom.le (h : CutFrom o cs t) : o ≤ t.offset := by
  obtain ⟨front, rest, rfl, ho, hl⟩ := h
  exact ho ▸ Nat.le_add_right _ _

theorem Scanned.consumed (h : Scanned o cs ts n rest) :
    ∃ front, cs = front ++ rest ∧ n = o + Text.byteLength front := by
  induction h with
  | start => exact ⟨[], rfl, rfl⟩
  | @space c _ _ _ _ _ _ _ ih =>
      obtain ⟨front, rfl, rfl⟩ := ih
      exact ⟨c :: front, rfl, by rw [Text.byteLength, Nat.add_assoc]⟩
  | @token _ _ _ text _ _ _ _ _ ih =>
      obtain ⟨front, rfl, rfl⟩ := ih
      exact ⟨text ++ front, by simp, by rw [Text.byteLength_append, Nat.add_assoc]⟩

/-- What is still to be read stands where the scan does. -/
theorem Scanned.rest_standsAt {source : List Char} (h : Scanned o cs ts n rest)
    (hcs : Text.StandsAt source o cs) : Text.StandsAt source n rest := by
  obtain ⟨front, rfl, rfl⟩ := h.consumed
  exact hcs.back

theorem Scanned.cutFrom (h : Scanned o cs ts n rest) : ∀ t ∈ ts, CutFrom o cs t := by
  induction h with
  | start => exact List.forall_mem_nil _
  | @space c _ _ _ _ _ _ _ ih =>
      intro t ht
      rw [← List.singleton_append]
      refine CutFrom.append ?_
      rw [Text.byteLength, Text.byteLength, Nat.add_zero]
      exact ih t ht
  | @token kind o _ text cs _ _ hl _ ih =>
      refine List.forall_mem_cons.2 ⟨⟨[], cs, ?_, rfl, ?_⟩, fun t ht => (ih t ht).append⟩
      · rw [String.toList_ofList, List.nil_append]
      · rw [String.toList_ofList]
        exact hl

theorem Scanned.standsAt {source : List Char} (h : Scanned o cs ts n rest) (hcs : Text.StandsAt source o cs) :
    ∀ t ∈ ts, Text.StandsAt source t.offset t.text.toList := by
  intro t ht
  obtain ⟨front, back, rfl, ho, -⟩ := h.cutFrom t ht
  rw [ho]
  exact hcs.inner

theorem Scanned.ordered (h : Scanned o cs ts n rest) : ts.Pairwise fun t u => t.stop ≤ u.offset := by
  induction h with
  | start => exact .nil
  | space _ _ ih => exact ih
  | token _ h ih =>
      refine List.pairwise_cons.2 ⟨fun u hu => ?_, ih⟩
      rw [stop, String.toList_ofList]
      exact (h.cutFrom u hu).le

/-- A character that was passed over is in a token or a blank. -/
theorem Scanned.blank (h : Scanned o cs ts n rest) {before after : List Char} {c : Char}
    (hcs : cs = before ++ c :: after) (hn : o + Text.byteLength before < n)
    (hout : ∀ t ∈ ts, o + Text.byteLength before < t.offset ∨ t.stop ≤ o + Text.byteLength before) :
    isSpace c := by
  induction h generalizing before with
  | start => omega
  | @space d o _ _ _ _ hd _ ih =>
      cases before with
      | nil =>
          cases hcs
          exact hd
      | cons x before =>
          cases hcs
          rw [Text.byteLength, ← Nat.add_assoc] at hn hout
          exact ih rfl hn hout
  | @token _ o _ text _ _ _ _ _ ih =>
      obtain ⟨hfirst, hout⟩ := List.forall_mem_cons.1 hout
      rw [stop, String.toList_ofList] at hfirst
      have hle : Text.byteLength text ≤ Text.byteLength before := by
        dsimp only at hfirst
        omega
      obtain ⟨before, rfl, rfl⟩ := Text.exists_append_of_le hcs hle
      rw [Text.byteLength_append, ← Nat.add_assoc] at hn hout
      exact ih rfl hn hout

theorem Scanned.laid {before after : List Char}
    (h : Scanned (Text.byteLength before) piece ts (Text.byteLength before + Text.byteLength piece) []) :
    Laid (before ++ (piece ++ after)) (Text.byteLength before)
      (Text.byteLength before + Text.byteLength piece) ts := by
  have hcut := h.cutFrom
  constructor
  · rintro t ht htext
    obtain ⟨front, rest, -, -, hl⟩ := hcut t ht
    obtain ⟨c, tail, hs⟩ := hl.spells.exists_cons
    rw [htext] at hs
    cases hs
  · intro t ht
    obtain ⟨front, rest, rfl, ho, -⟩ := hcut t ht
    rw [stop, Text.byteLength_append, Text.byteLength_append, ho]
    omega
  · exact h.ordered
  · intro t ht
    obtain ⟨front, rest, rfl, ho, -⟩ := hcut t ht
    refine ⟨before ++ front, rest ++ after, by simp, ?_⟩
    simp [ho]
  · intro t ht
    obtain ⟨front, rest, rfl, ho, hl⟩ := hcut t ht
    have hstop : Text.byteLength before + Text.byteLength (front ++ (t.text.toList ++ rest)) =
        t.offset + Text.byteLength (t.text.toList ++ rest) := by
      simp [ho, Nat.add_assoc]
    have hstands : Text.StandsAt (before ++ ((front ++ (t.text.toList ++ rest)) ++ after)) t.offset
        (t.text.toList ++ rest) :=
      ⟨before ++ front, after, by simp, by rw [ho, Text.byteLength_append]⟩
    rw [hstop, hstands.span_eq]
    exact hl
  · intro n c hc hstart hstop hout
    obtain ⟨front, back, rfl, rfl⟩ := hc.exists_within hstart hstop
    simpa [isSpace, or_assoc] using h.blank rfl hstop hout

end Token

/-- The scan of a span gives the tokens that take it up, each the longest match where it stands. It fails just
where such a scan is stuck, at a quote without partner or at a character that begins no token. -/
theorem tokenize_longest (source : String) {start stop : Nat}
    (hstart : Text.IsBoundary source.toList start) (hstop : Text.IsBoundary source.toList stop)
    (hle : start ≤ stop) :
    (∀ ts, tokenize source start stop = .ok ts → Token.Laid source.toList start stop ts) ∧
      (∀ ts, tokenize source start stop = .ok ts ↔
        Token.Scanned start (Text.span source.toList start stop) ts stop []) ∧
      ∀ e, tokenize source start stop = .error e ↔
        ∃ ts n c rest, Token.Scanned start (Text.span source.toList start stop) ts n (c :: rest) ∧
          Text.StandsAt source.toList n (c :: rest) ∧ n + Text.byteLength (c :: rest) = stop ∧
          Token.Stuck n c rest e := by
  obtain ⟨before, piece, after, hsource, rfl, rfl⟩ := hstart.exists_between hstop hle
  rw [tokenize, hsource, Text.span_append]
  refine ⟨fun ts h => (Token.scan_eq_ok_iff.1 h).laid, fun ts => Token.scan_eq_ok_iff, fun e => ?_⟩
  rw [Token.scan_eq_error_iff]
  constructor
  · rintro ⟨ts, n, c, rest, hs, he⟩
    obtain ⟨front, rfl, rfl⟩ := hs.consumed
    refine ⟨ts, _, c, rest, hs, ⟨before ++ front, after, by simp, Text.byteLength_append ..⟩, ?_, he⟩
    simp [Nat.add_assoc]
  · rintro ⟨ts, n, c, rest, hs, -, -, he⟩
    exact ⟨ts, n, c, rest, hs, he⟩

/-- The end of the span cuts an operator of two characters and takes a quote its partner. -/
theorem tokenize_longest_cut :
    Text.IsBoundary "é or x<='y'".toList 2 ∧ Text.IsBoundary "é or x<='y'".toList 8 ∧
      Text.IsBoundary "é or x<='y'".toList 11 ∧
      Token.Laid "é or x<='y'".toList 2 8
        [⟨.operator, "or", 3⟩, ⟨.identifier, "x", 6⟩, ⟨.operator, "<", 7⟩] ∧
      ∃ ts n c rest, Token.Scanned 2 " or x<='y".toList ts n (c :: rest) ∧
        Text.StandsAt "é or x<='y'".toList n (c :: rest) ∧ n + Text.byteLength (c :: rest) = 11 ∧
        Token.Stuck n c rest (ParseFault.malformedString.at 10) := by
  have hstart : Text.IsBoundary "é or x<='y'".toList 2 := ⟨['é'], " or x<='y'".toList, rfl, rfl⟩
  have hcut : Text.IsBoundary "é or x<='y'".toList 8 := ⟨"é or x<".toList, "='y'".toList, rfl, rfl⟩
  have hopen : Text.IsBoundary "é or x<='y'".toList 11 := ⟨"é or x<='y".toList, ['\''], rfl, rfl⟩
  refine ⟨hstart, hcut, hopen, (tokenize_longest _ hstart hcut (by decide)).1 _ ?_,
    ((tokenize_longest _ hstart hopen (by decide)).2.2 _).1 ?_⟩
  · cbv
  · cbv

end Stencil

import Stencil.Proofs.Text.Span
import Stencil.Proofs.Token.Longest

namespace Stencil

namespace Token

/-- From the text at `o` the scan has taken these tokens when it stands at `n` before the rest. -/
inductive Scanned : Nat → List Char → List Token → Nat → List Char → Prop
  | start {o : Nat} {cs : List Char} : Scanned o cs [] o cs
  | space {c : Char} {o n : Nat} {cs rest : List Char} {ts : List Token} :
      isSpace c → Scanned (o + c.utf8Size) cs ts n rest → Scanned o (c :: cs) ts n rest
  | token {kind : TokenKind} {o n : Nat} {text cs rest : List Char} {ts : List Token} :
      Longest kind text (text ++ cs) → Scanned (o + Text.byteLength text) cs ts n rest →
        Scanned o (text ++ cs) (⟨kind, String.ofList text, o⟩ :: ts) n rest

/-- The scan cannot go on at this character, and the fault is just behind the quote or at the character. -/
inductive Stuck (n : Nat) (c : Char) (rest : List Char) : ParseError → Prop
  | quote : c = '\'' ∨ c = '"' → c ∉ rest → Stuck n c rest (ParseFault.malformedString.at (n + 1))
  | character : ¬isSpace c → (∀ kind text, ¬Spells kind (c :: text)) →
      Stuck n c rest ((ParseFault.unexpectedCharacter c).at n)

variable {c : Char} {cs rest tail text : List Char} {kind : TokenKind} {o n : Nat} {ts : List Token}
  {e : ParseError}

theorem not_isSpace_of_quote (h : c = '\'' ∨ c = '"') : ¬isSpace c := by
  rcases h with rfl | rfl <;> decide

theorem utf8Size_of_quote (h : c = '\'' ∨ c = '"') : c.utf8Size = 1 := by
  rcases h with rfl | rfl <;> rfl

/-- A character that begins a token is in one of the classes that the scanner tries. -/
theorem Reads.first (h : Reads c cs kind tail) :
    (single? c).isSome ∨ c.isDigit ∨ (c = '\'' ∨ c = '"') ∨ isWordStart c ∨ isSymbol c := by
  cases h with
  | single hs => exact .inl (by rw [hs]; rfl)
  | integer hd => exact .inr (.inl hd)
  | string hq => exact .inr (.inr (.inl hq))
  | word hw => exact .inr (.inr (.inr (.inl hw)))
  | symbol hs => exact .inr (.inr (.inr (.inr hs)))

theorem Reads.not_isSpace (h : Reads c cs kind tail) : ¬isSpace c := by
  intro hs
  have hspace := isSpace_iff.1 hs
  rcases h.first with h | h | h | h | h
  · rw [single?_eq_none (.inr (.inr hs))] at h
    cases h
  · rw [isDigit_iff] at h
    omega
  · exact not_isSpace_of_quote h hs
  · rw [isWordStart_iff] at h
    omega
  · rcases isSymbol_iff.1 h with rfl | rfl | rfl | rfl | rfl | rfl | rfl | rfl <;> exact absurd hs (by decide)

theorem Spells.not_isSpace (h : Spells kind (c :: tail)) : ¬isSpace c := by
  obtain ⟨_, _, hr, -⟩ := h.reads (List.prefix_refl tail)
  exact hr.not_isSpace

theorem stuck_of_lexeme (hc : ¬isSpace c) (h : lexeme c cs n = .error e) : Stuck n c cs e := by
  rw [lexeme] at h
  split at h
  next => cases h
  next hsingle =>
    split at h
    next => cases h
    next hdigit =>
      split at h
      next hquote =>
        split at h
        next => cases h
        next hm =>
          cases h
          exact .quote hquote hm
      next hquote =>
        split at h
        next => cases h
        next hword =>
          split at h
          next => cases h
          next hsymbol =>
            cases h
            refine .character hc fun kind text hs => ?_
            obtain ⟨_, _, hr, -⟩ := hs.reads (List.prefix_refl text)
            rcases hr.first with h | h | h | h | h
            · rw [hsingle] at h
              cases h
            · exact hdigit h
            · exact hquote h
            · exact hword h
            · exact hsymbol h

theorem Stuck.not_isSpace (h : Stuck n c cs e) : ¬isSpace c := by
  cases h with
  | quote hq => exact not_isSpace_of_quote hq
  | character hc => exact hc

theorem lexeme_of_stuck (h : Stuck n c cs e) : lexeme c cs n = .error e := by
  cases h with
  | quote hq hn => rcases hq with rfl | rfl <;> simp [lexeme, single?, hn]
  | character hc hs =>
      cases hl : lexeme c cs n with
      | ok token => exact (hs _ _ (lexeme_eq_ok_iff.1 hl).spells).elim
      | error e' =>
          cases stuck_of_lexeme hc hl with
          | quote hq => exact (hs _ [c] (@Spells.string c [] hq List.not_mem_nil)).elim
          | character => rfl

theorem scan_stuck (h : Stuck n c cs e) : scan n (c :: cs) = .error e := by
  rw [scan, if_neg h.not_isSpace, lexeme_of_stuck h]
  rfl

theorem scan_token (h : Longest kind text (text ++ cs)) (o : Nat) :
    scan o (text ++ cs) =
      (scan (o + Text.byteLength text) cs).map (⟨kind, String.ofList text, o⟩ :: ·) := by
  obtain ⟨c, tail, rfl⟩ := h.spells.exists_cons
  have hl : lexeme c (tail ++ cs) o = .ok (kind, tail) := lexeme_eq_ok_iff.2 (reads_iff_longest.2 h)
  rw [List.cons_append, scan, if_neg h.spells.not_isSpace, hl]
  dsimp only [bind, Except.bind]
  rw [List.drop_left]
  cases scan (o + Text.byteLength (c :: tail)) cs <;> rfl

theorem scan_cases (o : Nat) (c : Char) (cs : List Char) :
    isSpace c ∨ (∃ e, Stuck o c cs e) ∨
      ∃ kind text rest, c :: cs = text ++ rest ∧ Longest kind text (text ++ rest) := by
  by_cases hc : isSpace c
  · exact .inl hc
  cases hl : lexeme c cs o with
  | error e => exact .inr (.inl ⟨e, stuck_of_lexeme hc hl⟩)
  | ok token =>
      have hlongest := reads_iff_longest.1 (lexeme_eq_ok_iff.1 hl)
      obtain ⟨rest, hrest⟩ := hlongest.begins
      exact .inr (.inr ⟨token.1, c :: token.2, rest, hrest.symm, hrest ▸ hlongest⟩)

theorem Scanned.scan_eq (h : Scanned o cs ts n rest) : scan o cs = (scan n rest).map (ts ++ ·) := by
  induction h with
  | start => exact (congrFun Except.map_id _).symm
  | space hc _ ih => simp [hc, ih]
  | token hl _ ih =>
      rw [scan_token hl, ih]
      cases scan _ _ <;> rfl

theorem Scanned.scan_ok (h : Scanned o cs ts n []) : scan o cs = .ok ts := by
  simp [h.scan_eq, Except.map]

theorem Scanned.scan_error {c : Char} (h : Scanned o cs ts n (c :: rest)) (he : Stuck n c rest e) :
    scan o cs = .error e := by
  rw [h.scan_eq, scan_stuck he]
  rfl

theorem Scanned.trans {us : List Token} {m : Nat} {rest' : List Char} (h : Scanned o cs ts n rest)
    (h' : Scanned n rest us m rest') : Scanned o cs (ts ++ us) m rest' := by
  induction h with
  | start => exact h'
  | space hc _ ih => exact .space hc (ih h')
  | token hl _ ih => exact .token hl (ih h')

theorem Scanned.gap {gap : List Char} (hgap : ∀ c ∈ gap, isSpace c) (o : Nat) (cs : List Char) :
    Scanned o (gap ++ cs) [] (o + Text.byteLength gap) cs := by
  induction gap generalizing o with
  | nil => exact .start
  | cons c gap ih =>
      obtain ⟨hc, hgap⟩ := List.forall_mem_cons.1 hgap
      rw [Text.byteLength, ← Nat.add_assoc]
      exact .space hc (ih hgap _)

/-- The scan comes to the end of the text, or it gets stuck on the way. -/
theorem exists_scanned (o : Nat) (cs : List Char) :
    (∃ ts, Scanned o cs ts (o + Text.byteLength cs) []) ∨
      ∃ ts n c rest e, Scanned o cs ts n (c :: rest) ∧ Stuck n c rest e := by
  induction hlen : cs.length using Nat.strongRecOn generalizing o cs with
  | ind k ih =>
      subst hlen
      cases cs with
      | nil => exact .inl ⟨[], .start⟩
      | cons c cs =>
          rcases scan_cases o c cs with hc | ⟨e, he⟩ | ⟨kind, text, rest, hcs, hl⟩
          · rcases ih cs.length (Nat.lt_succ_self _) (o + c.utf8Size) cs rfl with
              ⟨ts, h⟩ | ⟨ts, n, d, rest, e, h, he⟩
            · refine .inl ⟨ts, .space hc ?_⟩
              rw [Text.byteLength, ← Nat.add_assoc]
              exact h
            · exact .inr ⟨ts, n, d, rest, e, .space hc h, he⟩
          · exact .inr ⟨[], o, c, cs, e, .start, he⟩
          · have hlt : rest.length < (c :: cs).length := by
              obtain ⟨d, tail, rfl⟩ := hl.spells.exists_cons
              simp only [hcs, List.length_append, List.length_cons]
              omega
            rw [hcs]
            rcases ih rest.length hlt (o + Text.byteLength text) rest rfl with
              ⟨ts, h⟩ | ⟨ts, n, d, rest', e, h, he⟩
            · rw [Text.byteLength_append, ← Nat.add_assoc]
              exact .inl ⟨_, .token hl h⟩
            · exact .inr ⟨_, n, d, rest', e, .token hl h, he⟩

theorem scan_eq_ok_iff : scan o cs = .ok ts ↔ Scanned o cs ts (o + Text.byteLength cs) [] := by
  constructor
  · intro h
    rcases exists_scanned o cs with ⟨ts', hs⟩ | ⟨ts', n, c, rest, e, hs, he⟩
    · rw [hs.scan_ok] at h
      obtain rfl := Except.ok.inj h
      exact hs
    · rw [hs.scan_error he] at h
      cases h
  · exact Scanned.scan_ok

theorem scan_eq_error_iff : scan o cs = .error e ↔
    ∃ ts n c rest, Scanned o cs ts n (c :: rest) ∧ Stuck n c rest e := by
  constructor
  · intro h
    rcases exists_scanned o cs with ⟨ts', hs⟩ | ⟨ts', n, c, rest, e', hs, he⟩
    · rw [hs.scan_ok] at h
      cases h
    · rw [hs.scan_error he] at h
      cases h
      exact ⟨ts', n, c, rest, hs, he⟩
  · rintro ⟨ts, n, c, rest, hs, he⟩
    exact hs.scan_error he

end Token

end Stencil

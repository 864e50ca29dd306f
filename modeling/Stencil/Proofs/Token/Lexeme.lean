import Stencil.Proofs.Bind
import Stencil.Text.Basic
import Stencil.Token
import Stencil.Proofs.Text.Span

namespace Stencil.Token

variable {c : Char} {t : Token}

theorem isWord_iff {word : String} : t.isWord word ↔ t.kind = .identifier ∧ t.text = word := by
  rw [isWord, Bool.and_eq_true, decide_eq_true_iff, decide_eq_true_iff]

theorem isOperator_iff {symbol : String} : t.isOperator symbol ↔ t.kind = .operator ∧ t.text = symbol := by
  rw [isOperator, Bool.and_eq_true, decide_eq_true_iff, decide_eq_true_iff]

theorem kind_of_isOperator {symbol : String} (h : t.isOperator symbol) : t.kind = .operator :=
  (isOperator_iff.1 h).1

theorem takeWhile_ne_append {body : List Char} (h : c ∉ body) (rest : List Char) :
    (body ++ c :: rest).takeWhile (· ≠ c) = body := by
  rw [List.takeWhile_append_of_pos (by simpa using fun x hx => ne_of_mem_of_not_mem hx h),
    List.takeWhile_cons_of_neg (by simp), List.append_nil]

theorem isUpper_iff : c.isUpper ↔ 65 ≤ c.toNat ∧ c.toNat ≤ 90 := by
  have h : c.isUpper = decide (65 ≤ c.val ∧ c.val ≤ 90) := rfl
  simp [h, UInt32.le_iff_toNat_le]

theorem isLower_iff : c.isLower ↔ 97 ≤ c.toNat ∧ c.toNat ≤ 122 := by
  have h : c.isLower = decide (97 ≤ c.val ∧ c.val ≤ 122) := (Bool.decide_and _ _).symm
  simp [h, UInt32.le_iff_toNat_le]

theorem isWordStart_iff : isWordStart c ↔
    65 ≤ c.toNat ∧ c.toNat ≤ 90 ∨ 97 ≤ c.toNat ∧ c.toNat ≤ 122 ∨ c.toNat = 95 := by
  have h : isWordStart c = ((c.isUpper || c.isLower) || c = '_') := rfl
  rw [h, Bool.or_eq_true, Bool.or_eq_true, isUpper_iff, isLower_iff, decide_eq_true_iff,
    ← Char.toNat_inj, or_assoc]
  exact Iff.rfl

theorem isDigit_iff : c.isDigit ↔ 48 ≤ c.toNat ∧ c.toNat ≤ 57 := by
  simp [Char.isDigit, UInt32.le_iff_toNat_le]

theorem isSpace_iff : isSpace c ↔ c.toNat = 32 ∨ c.toNat = 9 ∨ c.toNat = 10 ∨ c.toNat = 13 := by
  simp [isSpace, ← Char.toNat_inj, or_assoc]

theorem isSymbol_iff : isSymbol c ↔
    c = '!' ∨ c = '<' ∨ c = '>' ∨ c = '=' ∨ c = '+' ∨ c = '-' ∨ c = '*' ∨ c = '/' := by
  simp [isSymbol]

theorem isWordPart_of_isWordStart (h : isWordStart c) : isWordPart c := by
  rw [isWordStart] at h
  rw [isWordPart, Char.isAlphanum]
  simp only [Bool.or_eq_true] at h ⊢
  exact h.imp_left .inl

theorem single?_cases {kind : TokenKind} (h : single? c = some kind) :
    c = '|' ∧ kind = .pipe ∨ c = ':' ∧ kind = .colon ∨ c = '.' ∧ kind = .dot ∨
      c = ',' ∧ kind = .comma ∨ c = '[' ∧ kind = .leftBracket ∨ c = ']' ∧ kind = .rightBracket := by
  simp only [single?] at h
  split at h <;> simp_all

theorem single?_eq_none (h : c.isDigit ∨ isWordStart c ∨ isSpace c) : single? c = none := by
  rw [isDigit_iff, isWordStart_iff, isSpace_iff] at h
  cases hs : single? c with
  | none => rfl
  | some kind =>
      rcases single?_cases hs with ⟨rfl, -⟩ | ⟨rfl, -⟩ | ⟨rfl, -⟩ | ⟨rfl, -⟩ | ⟨rfl, -⟩ | ⟨rfl, -⟩ <;>
        exact absurd h (by decide)

/-- What is read as one token after the character `c`, when `cs` follows. -/
inductive Reads (c : Char) (cs : List Char) : TokenKind → List Char → Prop
  | single {kind : TokenKind} : single? c = some kind → Reads c cs kind []
  | integer : c.isDigit → Reads c cs .integer (cs.takeWhile Char.isDigit)
  | string : c = '\'' ∨ c = '"' → c ∈ cs → Reads c cs .string (cs.takeWhile (· ≠ c) ++ [c])
  | word : isWordStart c →
      Reads c cs (wordKind (String.ofList (c :: cs.takeWhile isWordPart))) (cs.takeWhile isWordPart)
  | symbol : isSymbol c → Reads c cs .operator (symbolTail c cs)

theorem lexeme_eq_ok_iff {cs tail : List Char} {offset : Nat} {kind : TokenKind} :
    lexeme c cs offset = .ok (kind, tail) ↔ Reads c cs kind tail := by
  constructor
  · intro h
    rw [lexeme] at h
    split at h
    next k hs =>
      cases h
      exact .single hs
    split at h
    next hd =>
      cases h
      exact .integer hd
    split at h
    next hq =>
      split at h
      next hm =>
        cases h
        exact .string hq hm
      next => cases h
    split at h
    next hw =>
      cases h
      exact .word hw
    split at h
    next hs =>
      cases h
      exact .symbol hs
    next => cases h
  · intro h
    rw [lexeme]
    cases h with
    | single hs => rw [hs]
    | integer hd => rw [single?_eq_none (.inl hd), if_pos hd]
    | string hq hm => rcases hq with rfl | rfl <;> simp [single?, hm]
    | word hw =>
        have hd : ¬c.isDigit := by
          rw [isWordStart_iff] at hw
          rw [isDigit_iff]
          omega
        have hq : ¬(c = '\'' ∨ c = '"') := by
          rintro (rfl | rfl) <;> exact absurd hw (by decide)
        rw [single?_eq_none (.inr (.inl hw)), if_neg hd, if_neg hq, if_pos hw]
    | symbol hs =>
        rcases isSymbol_iff.1 hs with rfl | rfl | rfl | rfl | rfl | rfl | rfl | rfl <;> rfl

/-- Only a word is an identifier. -/
theorem Reads.of_identifier {cs tail : List Char} (h : Reads c cs .identifier tail) :
    isWordStart c ∧ tail = cs.takeWhile isWordPart := by
  generalize hk : TokenKind.identifier = kind at h
  cases h with
  | single hs =>
      subst hk
      rcases single?_cases hs with ⟨-, h⟩ | ⟨-, h⟩ | ⟨-, h⟩ | ⟨-, h⟩ | ⟨-, h⟩ | ⟨-, h⟩ <;> cases h
  | integer | string | symbol => cases hk
  | word hw => exact ⟨hw, rfl⟩

theorem wordKind_ne_string (word : String) : wordKind word ≠ .string := by
  rw [wordKind]
  split
  · decide
  split
  · decide
  split <;> decide

/-- Only what starts with a quote is a string, and it ends at the next such quote. -/
theorem Reads.of_string {cs tail : List Char} (h : Reads c cs .string tail) :
    (c = '\'' ∨ c = '"') ∧ tail = cs.takeWhile (· ≠ c) ++ [c] := by
  generalize hk : TokenKind.string = kind at h
  cases h with
  | single hs =>
      subst hk
      rcases single?_cases hs with ⟨-, h⟩ | ⟨-, h⟩ | ⟨-, h⟩ | ⟨-, h⟩ | ⟨-, h⟩ | ⟨-, h⟩ <;> cases h
  | integer | symbol => cases hk
  | string hq => exact ⟨hq, rfl⟩
  | word => exact absurd hk.symm (wordKind_ne_string _)

@[simp]
theorem scan_nil (offset : Nat) : scan offset [] = .ok [] := by
  rw [scan]

@[simp]
theorem scan_space {cs : List Char} (offset : Nat) (h : isSpace c) :
    scan offset (c :: cs) = scan (offset + c.utf8Size) cs := by
  rw [scan, if_pos h]

/-- A text that starts with a token is that token and what the rest is. -/
theorem scan_cons_ok_iff {cs : List Char} {offset : Nat} {ts : List Token} (h : ¬isSpace c) :
    scan offset (c :: cs) = .ok ts ↔ ∃ kind tail more, Reads c cs kind tail ∧
      scan (offset + Text.byteLength (c :: tail)) (cs.drop tail.length) = .ok more ∧
      ts = ⟨kind, String.ofList (c :: tail), offset⟩ :: more := by
  rw [scan, if_neg h]
  constructor
  · intro hs
    obtain ⟨⟨kind, tail⟩, hl, hs⟩ := Except.of_bind_ok hs
    obtain ⟨more, hm, hs⟩ := Except.of_bind_ok hs
    exact ⟨kind, tail, more, lexeme_eq_ok_iff.1 hl, hm, (Except.ok.inj hs).symm⟩
  · rintro ⟨kind, tail, more, hr, hm, rfl⟩
    rw [lexeme_eq_ok_iff.2 hr]
    dsimp only [bind, Except.bind]
    rw [hm]
    rfl

variable {c : Char} {cs tail : List Char}

theorem Reads.begins {kind : TokenKind} (h : Reads c cs kind tail) : tail <+: cs := by
  cases h with
  | single => exact List.nil_prefix
  | integer | word => exact List.takeWhile_prefix _
  | string _ hm =>
      obtain ⟨before, after, rfl, hbefore⟩ := List.eq_append_cons_of_mem hm
      rw [takeWhile_ne_append hbefore]
      exact ⟨after, by simp⟩
  | symbol =>
      simp only [symbolTail]
      split
      case h_1 | h_2 =>
        split
        · exact ⟨_, rfl⟩
        · exact List.nil_prefix
      case h_3 => exact List.nil_prefix

/-- Each token begins where a character of the text does. The induction is on the text that is left. -/
theorem bounds_of_scan {offset : Nat} {ts : List Token} (h : scan offset cs = .ok ts) :
    ∀ t ∈ ts, offset ≤ t.offset ∧ t.offset < offset + Text.byteLength cs := by
  induction hn : cs.length using Nat.strongRecOn generalizing offset cs ts with
  | ind n ih =>
      subst hn
      cases cs with
      | nil =>
          rw [scan_nil] at h
          obtain rfl := Except.ok.inj h
          exact List.forall_mem_nil _
      | cons c cs =>
          have hpos := c.utf8Size_pos
          by_cases hc : isSpace c
          · rw [scan_space offset hc] at h
            intro t ht
            have := ih cs.length (Nat.lt_succ_self _) h rfl t ht
            rw [Text.byteLength]
            omega
          · obtain ⟨kind, tail, more, hr, hm, rfl⟩ := (scan_cons_ok_iff hc).1 h
            obtain ⟨rest, rfl⟩ := hr.begins
            rw [List.drop_left] at hm
            have hlt : rest.length < (c :: (tail ++ rest)).length := by
              simp only [List.length_cons, List.length_append]
              omega
            simp only [Text.byteLength, Text.byteLength_append] at hm ⊢
            refine List.forall_mem_cons.2 ⟨⟨Nat.le_refl offset, by dsimp only; omega⟩, fun t ht => ?_⟩
            have := ih rest.length hlt hm rfl t ht
            omega

end Stencil.Token

import Mathlib.Data.List.TakeWhile
import Stencil.Proofs.Token.Lexeme
import Stencil.Proofs.Token.Spacing

namespace Stencil.Token

def wordOperators : List String :=
  ["or", "and", "xor", "not"]

def truthWords : List String :=
  ["true", "false"]

def reservedWords : List String :=
  wordOperators ++ (truthWords ++ ["nil"])

def operatorSymbols : List (List Char) :=
  [['!'], ['<'], ['>'], ['='], ['+'], ['-'], ['*'], ['/'],
    ['!', '='], ['<', '='], ['>', '='], ['=', '='], ['<', '>']]

inductive Spells : TokenKind → List Char → Prop
  | pipe : Spells .pipe ['|']
  | colon : Spells .colon [':']
  | dot : Spells .dot ['.']
  | comma : Spells .comma [',']
  | leftBracket : Spells .leftBracket ['[']
  | rightBracket : Spells .rightBracket [']']
  | integer {digits : List Char} : digits ≠ [] → (∀ d ∈ digits, d.isDigit) → Spells .integer digits
  | string {quote : Char} {body : List Char} :
      quote = '\'' ∨ quote = '"' → quote ∉ body → Spells .string (quote :: (body ++ [quote]))
  | symbol {s : List Char} : s ∈ operatorSymbols → Spells .operator s
  | wordOperator {s : List Char} : String.ofList s ∈ wordOperators → Spells .operator s
  | truth {s : List Char} : String.ofList s ∈ truthWords → Spells .boolean s
  | nil : Spells .nil ['n', 'i', 'l']
  | name {c : Char} {cs : List Char} : isWordStart c → (∀ x ∈ cs, isWordPart x) →
      String.ofList (c :: cs) ∉ reservedWords → Spells .identifier (c :: cs)

/-- A token at the start of `cs`, and no longer text there is a token of whatever kind. -/
structure Longest (kind : TokenKind) (text cs : List Char) : Prop where
  begins : text <+: cs
  spells : Spells kind text
  length_le : ∀ {kind' : TokenKind} {text' : List Char}, Spells kind' text' → text' <+: cs →
    text'.length ≤ text.length

variable {c : Char} {cs tail : List Char} {kind : TokenKind}

theorem wordKind_cases (word : String) :
    wordKind word = .operator ∧ word ∈ wordOperators ∨ wordKind word = .boolean ∧ word ∈ truthWords ∨
      wordKind word = .nil ∧ word = "nil" ∨ wordKind word = .identifier ∧ word ∉ reservedWords := by
  have hkind : wordKind word = if wordOperators.contains word then .operator
      else if truthWords.contains word then .boolean else if word = "nil" then .nil else .identifier := rfl
  rw [hkind]
  by_cases ho : word ∈ wordOperators
  · exact .inl ⟨if_pos (List.contains_iff_mem.2 ho), ho⟩
  rw [if_neg (mt List.contains_iff_mem.1 ho)]
  by_cases hb : word ∈ truthWords
  · exact .inr (.inl ⟨if_pos (List.contains_iff_mem.2 hb), hb⟩)
  rw [if_neg (mt List.contains_iff_mem.1 hb)]
  by_cases hn : word = "nil"
  · exact .inr (.inr (.inl ⟨if_pos hn, hn⟩))
  · refine .inr (.inr (.inr ⟨if_neg hn, fun hm => ?_⟩))
    simp only [reservedWords, List.mem_append, List.mem_singleton] at hm
    exact hm.elim ho fun h => h.elim hb hn

theorem Reads.unique {kind' : TokenKind} {tail' : List Char} (h : Reads c cs kind tail)
    (h' : Reads c cs kind' tail') : kind = kind' ∧ tail = tail' := by
  have he : lexeme c cs 0 = .ok (kind, tail) := lexeme_eq_ok_iff.2 h
  rw [lexeme_eq_ok_iff.2 h'] at he
  exact ⟨(Prod.mk.inj (Except.ok.inj he)).1.symm, (Prod.mk.inj (Except.ok.inj he)).2.symm⟩

theorem Reads.spells (h : Reads c cs kind tail) : Spells kind (c :: tail) := by
  cases h with
  | single hs =>
      rcases single?_cases hs with ⟨rfl, rfl⟩ | ⟨rfl, rfl⟩ | ⟨rfl, rfl⟩ | ⟨rfl, rfl⟩ | ⟨rfl, rfl⟩ | ⟨rfl, rfl⟩
      · exact .pipe
      · exact .colon
      · exact .dot
      · exact .comma
      · exact .leftBracket
      · exact .rightBracket
  | integer hd =>
      refine .integer (List.cons_ne_nil _ _) (List.forall_mem_cons.2 ⟨hd, fun d hm => ?_⟩)
      exact List.mem_takeWhile_imp hm
  | string hq _ =>
      refine .string hq fun hm => ?_
      simpa using List.mem_takeWhile_imp hm
  | word hw =>
      have hparts : ∀ x ∈ cs.takeWhile isWordPart, isWordPart x := fun x hm => List.mem_takeWhile_imp hm
      rcases wordKind_cases (String.ofList (c :: cs.takeWhile isWordPart)) with
        ⟨hk, hm⟩ | ⟨hk, hm⟩ | ⟨hk, hm⟩ | ⟨hk, hm⟩
      · rw [hk]
        exact .wordOperator hm
      · rw [hk]
        exact .truth hm
      · have hnil : c :: cs.takeWhile isWordPart = ['n', 'i', 'l'] := by
          rw [← String.toList_ofList (l := c :: _), hm]
          rfl
        rw [hk, hnil]
        exact .nil
      · rw [hk]
        exact .name hw hparts hm
  | symbol hs =>
      refine .symbol ?_
      rcases symbolTail_cases c cs with h | ⟨h, hc⟩ | ⟨h, rfl⟩
      · rw [h]
        rcases isSymbol_iff.1 hs with rfl | rfl | rfl | rfl | rfl | rfl | rfl | rfl <;> decide
      · rw [h]
        simp only [List.contains_eq_mem, decide_eq_true_eq, List.mem_cons, List.not_mem_nil, or_false] at hc
        rcases hc with rfl | rfl | rfl | rfl <;> decide
      · rw [h]
        decide

theorem word_of_reserved (h : String.ofList (c :: tail) ∈ reservedWords) :
    isWordStart c ∧ ∀ x ∈ tail, isWordPart x := by
  have hall : reservedWords.all fun word =>
      word.toList.head?.any isWordStart && word.toList.tail.all isWordPart := by decide
  have hword := List.all_eq_true.1 hall _ h
  rw [String.toList_ofList, Bool.and_eq_true, List.all_eq_true] at hword
  exact hword

theorem reads_of_word (hw : isWordStart c) (hparts : ∀ x ∈ tail, isWordPart x)
    (hk : wordKind (String.ofList (c :: tail)) = kind) (hp : tail <+: cs) :
    ∃ kind' tail', Reads c cs kind' tail' ∧ tail.length ≤ tail'.length ∧
      (tail.length = tail'.length → kind' = kind) := by
  obtain ⟨rest, rfl⟩ := hp
  have hrun : (tail ++ rest).takeWhile isWordPart = tail ++ rest.takeWhile isWordPart :=
    List.takeWhile_append_of_pos hparts
  refine ⟨_, _, .word hw, ?_, fun hlen => ?_⟩
  · rw [hrun, List.length_append]
    exact Nat.le_add_right _ _
  · rw [hrun, List.length_append, Nat.left_eq_add, List.length_eq_zero_iff] at hlen
    rw [hrun, hlen, List.append_nil, hk]

/-- Where a token stands a token is read, one that is at least as long. -/
theorem Spells.reads (h : Spells kind (c :: tail)) (hp : tail <+: cs) :
    ∃ kind' tail', Reads c cs kind' tail' ∧ tail.length ≤ tail'.length ∧
      (tail.length = tail'.length → kind' = kind) := by
  generalize hs : c :: tail = s at h
  cases h with
  | pipe | colon | dot | comma | leftBracket | rightBracket =>
      cases hs
      exact ⟨_, [], .single rfl, Nat.le_refl _, fun _ => rfl⟩
  | integer _ hd =>
      subst hs
      obtain ⟨hc, htail⟩ := List.forall_mem_cons.1 hd
      obtain ⟨rest, rfl⟩ := hp
      refine ⟨_, _, .integer hc, ?_, fun _ => rfl⟩
      rw [List.takeWhile_append_of_pos htail, List.length_append]
      exact Nat.le_add_right _ _
  | @string quote body hq hn =>
      cases hs
      obtain ⟨rest, rfl⟩ := hp
      have hrun : ((body ++ [c]) ++ rest).takeWhile (· ≠ c) = body := by
        rw [List.append_assoc]
        exact takeWhile_ne_append hn rest
      refine ⟨_, _, .string hq (by simp), ?_, fun _ => rfl⟩
      rw [hrun]
  | symbol hm =>
      subst hs
      have hsymbol : isSymbol c ∧ (tail = [] ∨ ∃ x, tail = [x] ∧ ∀ rest, symbolTail c (x :: rest) = [x]) := by
        simp only [operatorSymbols, List.mem_cons, List.cons.injEq, List.not_mem_nil, or_false] at hm
        rcases hm with ⟨rfl, rfl⟩ | ⟨rfl, rfl⟩ | ⟨rfl, rfl⟩ | ⟨rfl, rfl⟩ | ⟨rfl, rfl⟩ | ⟨rfl, rfl⟩ |
          ⟨rfl, rfl⟩ | ⟨rfl, rfl⟩ | ⟨rfl, rfl⟩ | ⟨rfl, rfl⟩ | ⟨rfl, rfl⟩ | ⟨rfl, rfl⟩ | ⟨rfl, rfl⟩
        all_goals refine ⟨by decide, ?_⟩
        all_goals first | exact .inl rfl | exact .inr ⟨_, rfl, fun _ => rfl⟩
      obtain ⟨hc, htail⟩ := hsymbol
      refine ⟨_, _, .symbol hc, ?_, fun _ => rfl⟩
      rcases htail with rfl | ⟨x, rfl, hx⟩
      · exact Nat.zero_le _
      · obtain ⟨rest, rfl⟩ := hp
        rw [List.singleton_append, hx]
  | wordOperator hm =>
      subst hs
      have hreserved : String.ofList (c :: tail) ∈ reservedWords := List.mem_append_left _ hm
      obtain ⟨hw, hparts⟩ := word_of_reserved hreserved
      exact reads_of_word hw hparts (if_pos (List.contains_iff_mem.2 hm)) hp
  | truth hm =>
      subst hs
      have hreserved : String.ofList (c :: tail) ∈ reservedWords :=
        List.mem_append_right _ (List.mem_append_left _ hm)
      obtain ⟨hw, hparts⟩ := word_of_reserved hreserved
      refine reads_of_word hw hparts ?_ hp
      have hkinds : ∀ word ∈ truthWords, wordKind word = .boolean := by decide
      exact hkinds _ hm
  | nil =>
      cases hs
      exact reads_of_word rfl (List.all_eq_true.1 rfl) rfl hp
  | name hw hparts hm =>
      cases hs
      refine reads_of_word hw hparts ?_ hp
      rcases wordKind_cases (String.ofList (c :: tail)) with ⟨-, h⟩ | ⟨-, h⟩ | ⟨-, h⟩ | ⟨h, -⟩
      · exact absurd (List.mem_append_left _ h) hm
      · exact absurd (List.mem_append_right _ (List.mem_append_left _ h)) hm
      · exact absurd (by rw [h]; decide) hm
      · exact h

theorem Spells.exists_cons {text : List Char} (h : Spells kind text) : ∃ c tail, text = c :: tail := by
  cases text with
  | cons c tail => exact ⟨c, tail, rfl⟩
  | nil =>
      exfalso
      generalize hs : [] = s at h
      cases h with
      | integer hne => exact hne hs.symm
      | symbol hm => exact absurd hm (by subst hs; decide)
      | wordOperator hm | truth hm => exact absurd hm (by subst hs; decide)
      | _ => cases hs

/-- What is read is the longest token, and the longest token is what is read. -/
theorem reads_iff_longest : Reads c cs kind tail ↔ Longest kind (c :: tail) (c :: cs) := by
  constructor
  · intro h
    refine ⟨List.cons_prefix_cons.2 ⟨rfl, h.begins⟩, h.spells, fun {kind' text'} hs hp => ?_⟩
    obtain ⟨d, tail', rfl⟩ := hs.exists_cons
    obtain ⟨rfl, hp'⟩ := List.cons_prefix_cons.1 hp
    obtain ⟨kind'', tail'', hr, hle, -⟩ := hs.reads hp'
    obtain ⟨rfl, rfl⟩ := hr.unique h
    exact Nat.succ_le_succ hle
  · intro h
    have hp := (List.cons_prefix_cons.1 h.begins).2
    obtain ⟨kind', tail', hr, hle, hkind⟩ := h.spells.reads hp
    have hge := h.length_le hr.spells (List.cons_prefix_cons.2 ⟨rfl, hr.begins⟩)
    have hlen : tail.length = tail'.length := Nat.le_antisymm hle (Nat.le_of_succ_le_succ hge)
    obtain rfl := hkind hlen
    rw [List.prefix_iff_eq_take.1 hp, hlen, ← List.prefix_iff_eq_take.1 hr.begins]
    exact hr

end Stencil.Token

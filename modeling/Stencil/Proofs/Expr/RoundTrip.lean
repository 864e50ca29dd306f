import Stencil.Proofs.Expr.Canonical
import Stencil.Proofs.Token.Spacing
import Mathlib
import Stencil.Proofs.Expr.Placement

namespace Stencil

namespace Token

variable {t t' : Token} {kind : TokenKind} {text : String} {offset : Nat}

theorem Lexical.congr (h : t.Lexical) (hk : t'.kind = t.kind) (ht : t'.text = t.text) : t'.Lexical := by
  rw [Lexical]
  rw [hk, ht]
  exact h

theorem Lexical.of_lexeme (c : Char) (tail : List Char) (ht : text = String.ofList (c :: tail))
    (hc : ¬isSpace c) (h : lexeme c tail 0 = .ok (kind, tail)) : Lexical ⟨kind, text, offset⟩ :=
  ⟨c, tail, ht, hc, fun _ hrest => (lexeme_eq_ok_iff.1 h).before_blank hrest⟩

theorem lexical_digits (n : Nat) : Lexical ⟨.integer, Nat.repr n, offset⟩ := by
  have hdigits : ∀ c ∈ Nat.toDigits 10 n, c.isDigit := fun c hc =>
    Nat.isDigit_of_mem_toDigits (by decide) (by decide) hc
  cases h : Nat.toDigits 10 n with
  | nil => exact absurd h Nat.toDigits_ne_nil
  | cons c tail =>
      rw [h] at hdigits
      obtain ⟨hc, htail⟩ := List.forall_mem_cons.1 hdigits
      refine ⟨c, tail, by rw [← h]; rfl, ?_, fun rest hrest => ?_⟩
      · intro hs
        rw [isDigit_eq_false_of_isSpace c hs] at hc
        cases hc
      · have hr : Reads c (tail ++ rest) .integer _ := .integer hc
        rw [takeWhile_append_blank isDigit_eq_false_of_isSpace htail hrest] at hr
        exact hr

theorem lexical_quoted {s : String} (h : quoteFor s ∉ s.toList) :
    Lexical ⟨.string, quoted s, offset⟩ := by
  have hquote : quoteFor s = '\'' ∨ quoteFor s = '"' := by
    rw [quoteFor]
    split
    · exact .inl rfl
    · exact .inr rfl
  refine ⟨quoteFor s, s.toList ++ [quoteFor s], rfl, ?_, fun rest hrest => ?_⟩
  · rcases hquote with hq | hq <;> rw [hq] <;> decide
  · have hall : ∀ c ∈ s.toList, decide (c ≠ quoteFor s) = true := by
      intro c hc
      refine decide_eq_true fun he => ?_
      rw [he] at hc
      exact h hc
    have hbody : ((s.toList ++ [quoteFor s]) ++ rest).takeWhile (· ≠ quoteFor s) = s.toList := by
      rw [List.append_assoc, List.takeWhile_append_of_pos hall]
      simp
    have hr : Reads (quoteFor s) ((s.toList ++ [quoteFor s]) ++ rest) .string _ := .string hquote (by simp)
    rw [hbody] at hr
    exact hr

theorem Lexical.quoteFor_notMem (h : t.Lexical) (hk : t.kind = .string) :
    quoteFor t.unquoted ∉ t.unquoted.toList := by
  obtain ⟨c, tail, ht, -, hr⟩ := h
  have hread := hr [] (fun x hx => nomatch hx)
  rw [hk, List.append_nil] at hread
  obtain ⟨hq, htail⟩ := hread.of_string
  have hbody : t.unquoted.toList = tail.takeWhile (· ≠ c) := by
    rw [unquoted, if_pos hk, String.toList_ofList, ht, String.toList_ofList, List.drop_one, List.tail_cons]
    exact (congrArg List.dropLast htail).trans List.dropLast_concat
  have hc : c ∉ t.unquoted.toList := by
    rw [hbody]
    intro hm
    simpa using List.all_eq_true.1 List.all_takeWhile c hm
  rw [quoteFor]
  split
  next hm =>
    rcases hq with rfl | rfl
    · exact hc
    · exact absurd hm hc
  next hm => exact hm

theorem lexical_symbol (op : BinaryOp) : Lexical ⟨.operator, op.symbol, offset⟩ := by
  cases op with
  | or => exact .of_lexeme 'o' ['r'] rfl (by decide) rfl
  | and => exact .of_lexeme 'a' ['n', 'd'] rfl (by decide) rfl
  | xor => exact .of_lexeme 'x' ['o', 'r'] rfl (by decide) rfl
  | equal => exact .of_lexeme '=' ['='] rfl (by decide) rfl
  | unequal => exact .of_lexeme '!' ['='] rfl (by decide) rfl
  | less => exact .of_lexeme '<' [] rfl (by decide) rfl
  | atMost => exact .of_lexeme '<' ['='] rfl (by decide) rfl
  | greater => exact .of_lexeme '>' [] rfl (by decide) rfl
  | atLeast => exact .of_lexeme '>' ['='] rfl (by decide) rfl
  | add => exact .of_lexeme '+' [] rfl (by decide) rfl
  | subtract => exact .of_lexeme '-' [] rfl (by decide) rfl
  | multiply => exact .of_lexeme '*' [] rfl (by decide) rfl
  | divide => exact .of_lexeme '/' [] rfl (by decide) rfl

theorem lexical_opening : Lexical ⟨.leftBracket, "[", offset⟩ :=
  .of_lexeme '[' [] rfl (by decide) rfl

theorem lexical_closing : Lexical ⟨.rightBracket, "]", offset⟩ :=
  .of_lexeme ']' [] rfl (by decide) rfl

theorem lexical_comma : Lexical ⟨.comma, ",", offset⟩ :=
  .of_lexeme ',' [] rfl (by decide) rfl

def AllLexical (ts : List Token) : Prop :=
  ∀ t ∈ ts, t.Lexical

theorem AllLexical.append {ts us : List Token} (h : AllLexical ts) (hu : AllLexical us) :
    AllLexical (ts ++ us) :=
  List.forall_mem_append.2 ⟨h, hu⟩

theorem AllLexical.cons {ts : List Token} (h : t.Lexical) (hts : AllLexical ts) : AllLexical (t :: ts) :=
  List.forall_mem_cons.2 ⟨h, hts⟩

theorem AllLexical.left {ts us : List Token} (h : AllLexical (ts ++ us)) : AllLexical ts :=
  (List.forall_mem_append.1 h).1

theorem AllLexical.right {ts us : List Token} (h : AllLexical (ts ++ us)) : AllLexical us :=
  (List.forall_mem_append.1 h).2

theorem AllLexical.head {ts : List Token} (h : AllLexical (t :: ts)) : t.Lexical :=
  (List.forall_mem_cons.1 h).1

theorem AllLexical.tail {ts : List Token} (h : AllLexical (t :: ts)) : AllLexical ts :=
  (List.forall_mem_cons.1 h).2

theorem AllLexical.bracketed {ts : List Token} {o o' : Nat} (h : AllLexical ts) :
    AllLexical (⟨.leftBracket, "[", o⟩ :: (ts ++ [⟨.rightBracket, "]", o'⟩])) :=
  .cons lexical_opening (h.append (.cons lexical_closing (List.forall_mem_nil _)))

end Token

namespace Expr

open Token (AllLexical)

variable {ts : List Token} {many : Bool}

theorem Literal.lexical {v : Value} (h : Literal ts v) (hts : AllLexical ts) (offset : Nat) :
    AllLexical (v.tokens offset) := by
  have hint (n : Int64) : AllLexical ((Value.int n).tokens offset) := by
    rw [Value.tokens]
    split
    · exact .cons (Token.lexical_symbol .subtract) (.cons (Token.lexical_digits _) (List.forall_mem_nil _))
    · exact .cons (Token.lexical_digits _) (List.forall_mem_nil _)
  cases h with
  | integer | negative => exact hint _
  | nil => exact .cons (.of_lexeme 'n' ['i', 'l'] rfl (by decide) rfl) (List.forall_mem_nil _)
  | @string t hk =>
      have ht := hts t (List.mem_singleton.2 rfl)
      exact .cons (Token.lexical_quoted (ht.quoteFor_notMem hk)) (List.forall_mem_nil _)
  | @boolean t hk =>
      generalize decide (t.text = "true") = b
      cases b with
      | true =>
          exact .cons (.of_lexeme 't' ['r', 'u', 'e'] rfl (by decide) rfl) (List.forall_mem_nil _)
      | false =>
          exact .cons (.of_lexeme 'f' ['a', 'l', 's', 'e'] rfl (by decide) rfl) (List.forall_mem_nil _)

mutual

theorem Constant.lexical {ts : List Token} {v : Value} : Constant ts v → AllLexical ts →
    ∀ offset : Nat, AllLexical (v.tokens offset)
  | .literal h => fun hts offset => h.lexical hts offset
  | .emptyArray _ _ => fun _ _ => .bracketed (List.forall_mem_nil _)
  | .array _ _ hi => fun hts _ => .bracketed (hi.lexical hts.tail.left)

theorem Constants.lexical {ts : List Token} {vs : List Value} : Constants ts vs → AllLexical ts →
    AllLexical (Value.tokensAll vs)
  | .one h => fun hts => h.lexical hts 0
  | .more h _ hr => by
      intro hts
      rw [Value.tokensAll_cons hr.values_ne_nil]
      exact (h.lexical hts.left 0).append (.cons Token.lexical_comma (hr.lexical hts.right.tail))

end

theorem Arguments.lexical {vs : List Value} (h : Arguments many ts vs) (hts : AllLexical ts) :
    AllLexical (Value.tokensAll vs) := by
  induction h with
  | nil => exact List.forall_mem_nil _
  | one h => exact h.lexical hts 0
  | @more _ _ _ v vs _ h _ _ ih =>
      by_cases hvs : vs = []
      · subst hvs
        exact h.lexical hts.left 0
      · rw [Value.tokensAll_cons hvs]
        exact (h.lexical hts.left 0).append (.cons Token.lexical_comma (ih hts.right.tail))

theorem Filters.lexical {e e' : Expr} (h : Filters many e ts e') (he : AllLexical e.tokens)
    (hts : AllLexical ts) : AllLexical e'.tokens := by
  have hbar {offset : Nat} : Token.Lexical ⟨.pipe, "|", offset⟩ := .of_lexeme '|' [] rfl (by decide) rfl
  have hcolon {offset : Nat} : Token.Lexical ⟨.colon, ":", offset⟩ := .of_lexeme ':' [] rfl (by decide) rfl
  induction h with
  | nil => exact he
  | bare _ hn _ ih =>
      refine ih ?_ hts.tail.tail
      exact he.append (.cons hbar (.cons (hts.tail.head.congr hn.symm rfl) (List.forall_mem_nil _)))
  | @applied _ _ _ _ _ _ _ vs _ hn _ ha _ ih =>
      refine ih ?_ hts.tail.tail.tail.right
      refine he.append (.cons hbar (.cons (hts.tail.head.congr hn.symm rfl) ?_))
      have harguments := ha.lexical hts.tail.tail.tail.left
      cases vs with
      | nil => exact List.forall_mem_nil _
      | cons v vs => exact .cons hcolon harguments

mutual

theorem Sentence.lexical {many : Bool} {ts : List Token} {e : Expr} : Sentence many ts e →
    AllLexical ts → AllLexical e.tokens
  | .chain hf hc hr => by
      intro hts
      refine hr.lexical ?_ hts.right.right
      rw [Operation.tokens_fold]
      exact (hf.lexical hts.left).append (hc.lexical hts.right.left)

theorem Operations.lexical {ts : List Token} {chain : List Operation} : Operations ts chain →
    AllLexical ts → AllLexical (Operation.tokens chain)
  | .nil => fun _ => List.forall_mem_nil _
  | .cons _ _ ho hr => fun hts =>
      .append (.cons (Token.lexical_symbol _) (ho.lexical hts.tail.left)) (hr.lexical hts.tail.right)

theorem Operand.lexical {ts : List Token} {e : Expr} : Operand ts e → AllLexical ts → AllLexical e.tokens
  | .negation _ ho => fun hts =>
      .cons (.of_lexeme 'n' ['o', 't'] rfl (by decide) rfl) (ho.lexical hts.tail)
  | .primary hp ha => fun hts => ha.lexical (hp.lexical hts.left) hts.right

theorem Primary.lexical {ts : List Token} {e : Expr} : Primary ts e → AllLexical ts → AllLexical e.tokens
  | .variable hk => fun hts => .cons (hts.head.congr hk.symm rfl) (List.forall_mem_nil _)
  | .literal h => fun hts => h.lexical hts _
  | .emptyArray _ _ => fun _ => .bracketed (List.forall_mem_nil _)
  | .array _ _ hi => fun hts => .bracketed (hi.lexical hts.tail.left)

theorem Accesses.lexical {ts : List Token} {e e' : Expr} : Accesses e ts e' →
    AllLexical e.tokens → AllLexical ts → AllLexical e'.tokens
  | .nil => fun he _ => he
  | .member _ hn hr => by
      intro he hts
      refine hr.lexical (he.append (.cons (.of_lexeme '.' [] rfl (by decide) rfl) ?_)) hts.tail.tail
      exact .cons (hts.tail.head.congr hn.symm rfl) (List.forall_mem_nil _)
  | .index _ _ hi hr => by
      intro he hts
      refine hr.lexical (he.append (.bracketed (hi.lexical ?_))) hts.tail.right.tail
      exact hts.tail.left

theorem Items.lexical {ts : List Token} {es : List Expr} : Items ts es → AllLexical ts →
    AllLexical (tokensAll es)
  | .one h => fun hts => h.lexical hts
  | .more h _ hr => by
      intro hts
      rw [tokensAll_cons hr.exprs_ne_nil]
      exact (h.lexical hts.left).append (.cons Token.lexical_comma (hr.lexical hts.right.tail))

end

variable {source : String} {start stop limit : Nat} {ts : List Token} {e : Expr}

theorem read_of_spaced (ht : tokenize source start stop = .ok ts) (he : ofTokens ts limit = .ok e)
    {text : List Char} (htext : Token.Spaced e.tokens text) (offset : Nat) :
    ∃ ts' e', Token.scan offset text = .ok ts' ∧ (∀ limit', ofTokens ts' limit' = .ok e') ∧
      e'.unplaced = e.unplaced := by
  have hsentence : Sentence true ts e := ofTokens_ok_iff.1 he
  have hlexical : Token.AllLexical e.tokens := hsentence.lexical (Token.lexical_of_scan ht)
  obtain ⟨ts', hscan, halike⟩ := Token.scan_of_spaced htext hlexical offset
  obtain ⟨e', hread, hunplaced⟩ := hsentence.canonical.elsewhere halike
  exact ⟨ts', e', hscan, hread.complete, hunplaced⟩

/-- What was read as an expression, printed and read again, is that expression up to its offsets. -/
theorem read_printed (ht : tokenize source start stop = .ok ts) (he : ofTokens ts limit = .ok e) :
    ∃ ts' e', tokenize e.printed 0 (Text.byteLength e.printed.toList) = .ok ts' ∧
      (∀ limit', ofTokens ts' limit' = .ok e') ∧ e'.unplaced = e.unplaced := by
  obtain ⟨ts', e', hscan, hread⟩ := read_of_spaced ht he (Token.spaced_intercalate e.tokens) 0
  refine ⟨ts', e', ?_, hread⟩
  rw [tokenize, Text.span_all]
  exact hscan

def tightSource : String :=
  "1--2*not a['x']|f:'\"',[]"

def tight : Expr :=
  .pipe
    (.binary .subtract (.literal (.int 1) 0)
      (.binary .multiply (.literal (.int (-2)) 2)
        (.negation (.index (.variable "a" 9) (.literal (.string "x") 11) 10) 5) 4) 1)
    "f" [.string "\"", .array []] 16

theorem read_printed_tight :
    tight.printed = "1 - - 2 * not a [ \"x\" ] | f : '\"' , [ ]" ∧
      ∃ ts, tokenize tightSource 0 24 = .ok ts ∧ ofTokens ts 24 = .ok tight ∧
        ∃ ts' e', tokenize tight.printed 0 (Text.byteLength tight.printed.toList) = .ok ts' ∧
          (∀ limit, ofTokens ts' limit = .ok e') ∧ e'.unplaced = tight.unplaced := by
  have h : ∃ ts, tokenize tightSource 0 24 = .ok ts ∧ ofTokens ts 24 = .ok tight := ⟨_, by cbv, by cbv⟩
  obtain ⟨ts, ht, he⟩ := h
  exact ⟨by cbv, ts, ht, he, read_printed ht he⟩

end Expr

end Stencil

import Stencil.Proofs.Expr.Calculation
import Stencil.Proofs.Expr.Equations
import Stencil.Proofs.Token.Scanned

namespace Stencil

def Blanks (cs : List Char) : Prop :=
  ∀ c ∈ cs, Token.isSpace c

structure Numeral where
  sign : Option (List Char)
  digits : List Char
  blanks : ∀ gap ∈ sign, Blanks gap := by simp [Blanks, Token.isSpace]
  digits_ne_nil : digits ≠ [] := by decide
  isDigit : ∀ d ∈ digits, d.isDigit := by simp

namespace Numeral

def text (m : Numeral) : List Char :=
  match m.sign with
  | none => m.digits
  | some gap => '-' :: (gap ++ m.digits)

def value (m : Numeral) : Int :=
  match m.sign with
  | none => ofDigits m.digits
  | some _ => -(ofDigits m.digits : Int)

def tokens (m : Numeral) (o : Nat) : List Token :=
  match m.sign with
  | none => [⟨.integer, String.ofList m.digits, o⟩]
  | some gap =>
      [⟨.operator, String.ofList ['-'], o⟩,
        ⟨.integer, String.ofList m.digits, o + 1 + Text.byteLength gap⟩]

end Numeral

namespace Value.Arithmetic

def sign : Arithmetic → Char
  | add => '+'
  | subtract => '-'
  | multiply => '*'
  | divide => '/'

theorem ofSymbol?_sign (f : Arithmetic) : BinaryOp.ofSymbol? (String.ofList [f.sign]) = some f.operator := by
  cases f <;> rfl

theorem utf8Size_sign (f : Arithmetic) : f.sign.utf8Size = 1 := by
  cases f <;> rfl

theorem not_isDigit_sign (f : Arithmetic) : ¬f.sign.isDigit := by
  cases f <;> decide

theorem longest_sign (f : Arithmetic) (cs : List Char) : Token.Longest .operator [f.sign] ([f.sign] ++ cs) := by
  have htail : Token.symbolTail f.sign cs = [] := by
    rcases Token.symbolTail_cases f.sign cs with h | ⟨-, h⟩ | ⟨-, h⟩
    · exact h
    · cases f <;> cases h
    · cases f <;> cases h
  have hsymbol : Token.isSymbol f.sign := by cases f <;> rfl
  have hr : Token.Reads f.sign cs .operator (Token.symbolTail f.sign cs) := .symbol hsymbol
  rw [htail] at hr
  exact Token.reads_iff_longest.1 hr

theorem scanned_sign (f : Arithmetic) (o : Nat) (cs : List Char) :
    Token.Scanned o (f.sign :: cs) [⟨.operator, String.ofList [f.sign], o⟩] (o + 1) cs := by
  have h := Token.Scanned.token (o := o) (f.longest_sign cs) .start
  rw [Text.byteLength, f.utf8Size_sign] at h
  exact h

end Value.Arithmetic

namespace Calculation

open Value (Arithmetic)

structure Link where
  before : List Char
  op : Arithmetic
  after : List Char
  numeral : Numeral
  blanks_before : Blanks before := by simp [Blanks, Token.isSpace]
  blanks_after : Blanks after := by simp [Blanks, Token.isSpace]

def Link.text (k : Link) : List Char :=
  k.before ++ k.op.sign :: (k.after ++ k.numeral.text)

def Link.place (k : Link) (o : Nat) : Nat :=
  o + Text.byteLength k.before

def Link.numeralPlace (k : Link) (o : Nat) : Nat :=
  k.place o + 1 + Text.byteLength k.after

def Link.tokens (k : Link) (o : Nat) : List Token :=
  ⟨.operator, String.ofList [k.op.sign], k.place o⟩ :: k.numeral.tokens (k.numeralPlace o)

def textOf (ks : List Link) : List Char :=
  ks.flatMap Link.text

def terms (o : Nat) : List Link → List Term
  | [] => []
  | k :: ks =>
      ⟨k.op, k.place o, k.numeral.value, k.numeralPlace o⟩ :: terms (o + Text.byteLength k.text) ks

def tokensOf (o : Nat) : List Link → List Token
  | [] => []
  | k :: ks => k.tokens o ++ tokensOf (o + Text.byteLength k.text) ks

end Calculation

def StartsNoDigit (cs : List Char) : Prop :=
  ∀ c ∈ cs.head?, ¬c.isDigit

variable {cs : List Char}

theorem Blanks.startsNoDigit {gap : List Char} (h : Blanks gap) (hcs : StartsNoDigit cs) :
    StartsNoDigit (gap ++ cs) := by
  cases gap with
  | nil => exact hcs
  | cons c gap =>
      rintro d ⟨⟩
      rw [Token.isDigit_eq_false_of_isSpace c (h c List.mem_cons_self)]
      decide

theorem Calculation.startsNoDigit_textOf (ks : List Link) (hcs : StartsNoDigit cs) :
    StartsNoDigit (textOf ks ++ cs) := by
  cases ks with
  | nil => exact hcs
  | cons k ks =>
      rw [textOf, List.flatMap_cons, Link.text, List.append_assoc, List.append_assoc, List.cons_append]
      refine k.blanks_before.startsNoDigit ?_
      rintro c ⟨⟩
      exact k.op.not_isDigit_sign

namespace Numeral

variable {m : Numeral}

theorem longest_digits (m : Numeral) (hcs : StartsNoDigit cs) :
    Token.Longest .integer m.digits (m.digits ++ cs) := by
  obtain ⟨d, digits, hm⟩ := List.exists_cons_of_ne_nil m.digits_ne_nil
  have hdigits := m.isDigit
  rw [hm] at hdigits ⊢
  obtain ⟨hd, hdigits⟩ := List.forall_mem_cons.1 hdigits
  have hrun : (digits ++ cs).takeWhile Char.isDigit = digits := by
    rw [List.takeWhile_append_of_pos hdigits]
    cases cs with
    | nil => exact List.append_nil digits
    | cons c cs => rw [List.takeWhile_cons_of_neg (hcs c rfl), List.append_nil]
  have hr : Token.Reads d (digits ++ cs) .integer ((digits ++ cs).takeWhile Char.isDigit) := .integer hd
  rw [hrun] at hr
  exact Token.reads_iff_longest.1 hr

theorem scanned (m : Numeral) (o : Nat) (hcs : StartsNoDigit cs) :
    Token.Scanned o (m.text ++ cs) (m.tokens o) (o + Text.byteLength m.text) cs := by
  have hdigits := m.longest_digits hcs
  rw [text, tokens]
  cases hs : m.sign with
  | none => exact .token hdigits .start
  | some gap =>
      have hgap := Token.Scanned.gap (m.blanks gap hs) (o + 1) (m.digits ++ cs)
      have h := (Value.Arithmetic.subtract.scanned_sign o _).trans (hgap.trans (.token hdigits .start))
      have hlen : o + Text.byteLength ('-' :: (gap ++ m.digits)) =
          o + 1 + Text.byteLength gap + Text.byteLength m.digits := by
        rw [Text.byteLength, Text.byteLength_append, ← Nat.add_assoc, ← Nat.add_assoc]
        rfl
      rw [hlen, List.cons_append, List.append_assoc]
      exact h

theorem operand_tokens (m : Numeral) (hfits : Fits m.value) (o stop : Nat) {ts : List Token}
    (hts : Expr.StartsNoAccess ts) :
    Expr.unbounded (Expr.operand (m.tokens o ++ ts) stop) =
      .ok (.literal (.int (Int64.ofInt m.value)) o, ts) := by
  have hof {n : Int} (hn : Fits n) : Expr.integerOf n o = .ok (.int (Int64.ofInt n)) := by
    rw [Expr.integerOf, integer?_of_fits hn]
  rw [tokens]
  rw [value] at hfits ⊢
  cases hs : m.sign with
  | none =>
      rw [hs] at hfits
      rw [List.singleton_append, Expr.operand_literal rfl, Expr.literalValue]
      dsimp only
      rw [String.toList_ofList, hof hfits]
      exact Expr.accesses_stop hts
  | some gap =>
      rw [hs] at hfits
      rw [List.cons_append, List.singleton_append, Expr.operand_negative rfl rfl]
      dsimp only
      rw [String.toList_ofList, hof hfits]
      exact Expr.accesses_stop hts

end Numeral

namespace Calculation

theorem Link.byteLength_text (k : Link) (o : Nat) :
    o + Text.byteLength k.text = k.numeralPlace o + Text.byteLength k.numeral.text := by
  simp only [text, numeralPlace, place, Text.byteLength_append, Text.byteLength, k.op.utf8Size_sign]
  omega

theorem Link.scanned (k : Link) (o : Nat) (hcs : StartsNoDigit cs) :
    Token.Scanned o (k.text ++ cs) (k.tokens o) (o + Text.byteLength k.text) cs := by
  have hnumeral := k.numeral.scanned (k.numeralPlace o) hcs
  have hafter := (Token.Scanned.gap k.blanks_after (k.place o + 1) _).trans hnumeral
  have hop := (k.op.scanned_sign (k.place o) _).trans hafter
  rw [k.byteLength_text, text, List.append_assoc, List.cons_append, List.append_assoc]
  exact (Token.Scanned.gap k.blanks_before o _).trans hop

theorem scanned_textOf (ks : List Link) (o : Nat) (hcs : StartsNoDigit cs) :
    Token.Scanned o (textOf ks ++ cs) (tokensOf o ks) (o + Text.byteLength (textOf ks)) cs := by
  induction ks generalizing o with
  | nil => exact .start
  | cons k ks ih =>
      have h := (k.scanned o (startsNoDigit_textOf ks hcs)).trans (ih _)
      rw [textOf, List.flatMap_cons, List.append_assoc, Text.byteLength_append, ← Nat.add_assoc]
      exact h

theorem startsNoAccess_tokensOf (ks : List Link) (o : Nat) : Expr.StartsNoAccess (tokensOf o ks) := by
  cases ks with
  | nil => exact nofun
  | cons k ks =>
      rintro t ⟨⟩
      exact ⟨nofun, nofun⟩

theorem fits_of_mem_terms {ks : List Link} (hks : ∀ k ∈ ks, Fits k.numeral.value) (o : Nat) :
    ∀ t ∈ terms o ks, Fits t.value := by
  induction ks generalizing o with
  | nil => exact List.forall_mem_nil _
  | cons k ks ih =>
      obtain ⟨hk, hks⟩ := List.forall_mem_cons.1 hks
      exact List.forall_mem_cons.2 ⟨hk, ih hks _⟩

theorem operations_tokensOf (ks : List Link) (hks : ∀ k ∈ ks, Fits k.numeral.value) (o stop : Nat) :
    Expr.unbounded (Expr.operations (tokensOf o ks) stop) = .ok ((terms o ks).map Term.operation, []) := by
  induction ks generalizing o with
  | nil => exact Expr.operations_stop nofun
  | cons k ks ih =>
      obtain ⟨hk, hks⟩ := List.forall_mem_cons.1 hks
      have hoperand := k.numeral.operand_tokens hk (k.numeralPlace o) stop
        (startsNoAccess_tokensOf ks (o + Text.byteLength k.text))
      rw [tokensOf, Link.tokens, List.cons_append, Expr.operations_cons rfl k.op.ofSymbol?_sign, hoperand]
      dsimp only [bind, Except.bind]
      rw [ih hks]
      rfl

end Calculation

structure Formula where
  lead : List Char
  first : Numeral
  links : List Calculation.Link
  trail : List Char
  blanks_lead : Blanks lead := by simp [Blanks, Token.isSpace]
  blanks_trail : Blanks trail := by simp [Blanks, Token.isSpace]

namespace Formula

def text (f : Formula) : List Char :=
  f.lead ++ (f.first.text ++ (Calculation.textOf f.links ++ f.trail))

def place (f : Formula) (o : Nat) : Nat :=
  o + Text.byteLength f.lead

def terms (f : Formula) (o : Nat) : List Calculation.Term :=
  Calculation.terms (f.place o + Text.byteLength f.first.text) f.links

def tokens (f : Formula) (o : Nat) : List Token :=
  f.first.tokens (f.place o) ++ Calculation.tokensOf (f.place o + Text.byteLength f.first.text) f.links

theorem scan_text (f : Formula) (o : Nat) : Token.scan o f.text = .ok (f.tokens o) := by
  have htrail : StartsNoDigit f.trail := by
    have h : StartsNoDigit (f.trail ++ []) := f.blanks_trail.startsNoDigit nofun
    rwa [List.append_nil] at h
  have hend := Token.Scanned.gap f.blanks_trail
    (f.place o + Text.byteLength f.first.text + Text.byteLength (Calculation.textOf f.links)) []
  rw [List.append_nil] at hend
  have hlinks := (Calculation.scanned_textOf f.links _ htrail).trans hend
  have hfirst := (f.first.scanned (f.place o) (Calculation.startsNoDigit_textOf f.links htrail)).trans hlinks
  have h := ((Token.Scanned.gap f.blanks_lead o _).trans hfirst).scan_ok
  rw [List.append_nil] at h
  exact h

theorem ofTokens_tokens (f : Formula) (hfirst : Fits f.first.value)
    (hlinks : ∀ k ∈ f.links, Fits k.numeral.value) (o stop : Nat) :
    Expr.ofTokens (f.tokens o) stop =
      .ok (Operation.fold (.literal (.int (Int64.ofInt f.first.value)) (f.place o))
        ((f.terms o).map Calculation.Term.operation)) := by
  have hne : f.tokens o ≠ [] := by
    rw [tokens, Numeral.tokens]
    cases f.first.sign <;> exact List.cons_ne_nil _ _
  rw [Expr.ofTokens_eq hne, tokens,
    f.first.operand_tokens hfirst _ _ (Calculation.startsNoAccess_tokensOf f.links _)]
  dsimp only [bind, Except.bind]
  rw [Calculation.operations_tokensOf f.links hlinks]
  dsimp only
  rw [Expr.pipeline]
  rfl

end Formula

end Stencil

import Stencil.Proofs.Expr.Equations

namespace Stencil.Phrase

inductive Literal : List Token → Prop
  | boolean {t : Token} : t.kind = .boolean → Literal [t]
  | nil {t : Token} : t.kind = .nil → Literal [t]
  | string {t : Token} : t.kind = .string → Literal [t]
  | integer {t : Token} : t.kind = .integer → ofDigits t.text.toList ≤ Int64.maxValue.toInt → Literal [t]
  | negative {sign digits : Token} : sign.isOperator "-" → digits.kind = .integer →
      Int64.minValue.toInt ≤ -ofDigits digits.text.toList → Literal [sign, digits]

mutual

inductive Constant : List Token → Prop
  | literal {ts : List Token} : Literal ts → Constant ts
  | emptyArray {opening closing : Token} :
      opening.kind = .leftBracket → closing.kind = .rightBracket → Constant [opening, closing]
  | array {opening closing : Token} {inner : List Token} : opening.kind = .leftBracket →
      closing.kind = .rightBracket → Constants inner → Constant (opening :: (inner ++ [closing]))

inductive Constants : List Token → Prop
  | one {ts : List Token} : Constant ts → Constants ts
  | more {ts rest : List Token} {comma : Token} :
      Constant ts → comma.kind = .comma → Constants rest → Constants (ts ++ comma :: rest)

end

/-- `identifier (':' constant (',' constant)*)?` -/
inductive Filter : List Token → Prop
  | bare {name : Token} : name.kind = .identifier → Filter [name]
  | applied {name colon : Token} {ts : List Token} :
      name.kind = .identifier → colon.kind = .colon → Constants ts → Filter (name :: colon :: ts)

inductive Filters : List Token → Prop
  | nil : Filters []
  | cons {bar : Token} {ts rest : List Token} :
      bar.kind = .pipe → Filter ts → Filters rest → Filters (bar :: (ts ++ rest))

def binarySymbols : List String :=
  ["or", "and", "xor", "==", "!=", "<>", "<", "<=", ">", ">=", "+", "-", "*", "/"]

def IsOperator (t : Token) : Prop :=
  t.kind = .operator ∧ t.text ∈ binarySymbols

mutual

/-- `operand (operator operand)* ('|' filter)*` -/
inductive Expression : List Token → Prop
  | chain {ts more rest : List Token} :
      Operand ts → Operations more → Filters rest → Expression (ts ++ (more ++ rest))

inductive Operations : List Token → Prop
  | nil : Operations []
  | cons {t : Token} {ts more : List Token} :
      IsOperator t → Operand ts → Operations more → Operations (t :: (ts ++ more))

inductive Operand : List Token → Prop
  | negation {t : Token} {ts : List Token} :
      t.isOperator "not" ∨ t.isOperator "!" → Operand ts → Operand (t :: ts)
  | primary {ts more : List Token} : Primary ts → Accesses more → Operand (ts ++ more)

inductive Accesses : List Token → Prop
  | nil : Accesses []
  | member {dot name : Token} {rest : List Token} :
      dot.kind = .dot → name.kind = .identifier → Accesses rest → Accesses (dot :: name :: rest)
  | index {opening closing : Token} {inner rest : List Token} :
      opening.kind = .leftBracket → closing.kind = .rightBracket → Expression inner →
        Accesses rest → Accesses (opening :: (inner ++ closing :: rest))

inductive Primary : List Token → Prop
  | variable {t : Token} : t.kind = .identifier → Primary [t]
  | literal {ts : List Token} : Literal ts → Primary ts
  | emptyArray {opening closing : Token} :
      opening.kind = .leftBracket → closing.kind = .rightBracket → Primary [opening, closing]
  | array {opening closing : Token} {inner : List Token} : opening.kind = .leftBracket →
      closing.kind = .rightBracket → Items inner → Primary (opening :: (inner ++ [closing]))

inductive Items : List Token → Prop
  | one {ts : List Token} : Expression ts → Items ts
  | more {ts rest : List Token} {comma : Token} :
      Expression ts → comma.kind = .comma → Items rest → Items (ts ++ comma :: rest)

end

def EndsItem (ts : List Token) : Prop :=
  ∀ t ∈ ts.head?, t.kind = .pipe ∨ t.kind = .comma ∨ t.kind = .rightBracket

def IsSeparator (t : Token) : Prop :=
  t.kind = .colon ∨ t.kind = .comma

/-- Some colon or comma has nothing behind it that it could introduce. -/
def Dangling (ts : List Token) : Prop :=
  ∃ before t after, ts = before ++ t :: after ∧ IsSeparator t ∧ EndsItem after

variable {t : Token} {ts us rest : List Token}

theorem endsItem_nil : EndsItem [] :=
  fun _ ht => nomatch ht

theorem endsItem_cons (ht : t.kind = .pipe ∨ t.kind = .comma ∨ t.kind = .rightBracket) : EndsItem (t :: ts) := by
  rintro u ⟨⟩
  exact ht

theorem not_endsItem {kind : TokenKind} (ht : t.kind = kind)
    (hk : kind ≠ .pipe ∧ kind ≠ .comma ∧ kind ≠ .rightBracket) : ¬EndsItem (t :: ts) := by
  subst ht
  intro h
  rcases h t rfl with h | h | h
  · exact hk.1 h
  · exact hk.2.1 h
  · exact hk.2.2 h

theorem not_dangling_nil : ¬Dangling [] := by
  rintro ⟨before, t, after, h, -⟩
  simp at h

theorem dangling_cons_iff : Dangling (t :: ts) ↔ IsSeparator t ∧ EndsItem ts ∨ Dangling ts := by
  constructor
  · rintro ⟨before, u, after, h, hu, ha⟩
    cases before with
    | nil =>
        obtain ⟨rfl, rfl⟩ := List.cons.inj h
        exact .inl ⟨hu, ha⟩
    | cons b before =>
        obtain ⟨rfl, rfl⟩ := List.cons.inj h
        exact .inr ⟨before, u, after, rfl, hu, ha⟩
  · rintro (⟨ht, hts⟩ | ⟨before, u, after, rfl, hu, ha⟩)
    · exact ⟨[], t, ts, rfl, ht, hts⟩
    · exact ⟨t :: before, u, after, rfl, hu, ha⟩

theorem Dangling.append_left (h : Dangling ts) (us : List Token) : Dangling (us ++ ts) := by
  obtain ⟨before, t, after, rfl, ht, ha⟩ := h
  exact ⟨us ++ before, t, after, (List.append_assoc ..).symm, ht, ha⟩

theorem not_dangling_append (h : ¬Dangling ts) (hu : ¬Dangling us) : ¬Dangling (ts ++ us) := by
  induction ts with
  | nil => exact hu
  | cons t ts ih =>
      rw [dangling_cons_iff, not_or] at h
      rw [List.cons_append, dangling_cons_iff, not_or]
      refine ⟨fun hs => h.1 ⟨hs.1, ?_⟩, ih h.2⟩
      cases ts with
      | nil => exact endsItem_nil
      | cons u ts => exact hs.2

theorem not_dangling_cons {kind : TokenKind} (ht : t.kind = kind) (hk : kind ≠ .colon ∧ kind ≠ .comma)
    (h : ¬Dangling ts) : ¬Dangling (t :: ts) := by
  subst ht
  rw [dangling_cons_iff]
  rintro (⟨hc | hc, -⟩ | hts)
  · exact hk.1 hc
  · exact hk.2 hc
  · exact h hts

theorem not_dangling_separator (hts : ¬EndsItem ts) (h : ¬Dangling ts) : ¬Dangling (t :: ts) := by
  rw [dangling_cons_iff]
  rintro (⟨-, he⟩ | hd)
  · exact hts he
  · exact h hd

theorem not_endsItem_append (h : ¬EndsItem ts) (us : List Token) : ¬EndsItem (ts ++ us) := by
  cases ts with
  | nil => exact absurd endsItem_nil h
  | cons t ts => exact h

theorem Literal.not_endsItem (h : Literal ts) : ¬EndsItem ts := by
  cases h with
  | boolean hk | nil hk | string hk | integer hk => exact Phrase.not_endsItem hk (by decide)
  | negative hs => exact Phrase.not_endsItem (Token.kind_of_isOperator hs) (by decide)

theorem Literal.not_dangling (h : Literal ts) : ¬Dangling ts := by
  cases h with
  | boolean hk | nil hk | string hk | integer hk => exact not_dangling_cons hk (by decide) not_dangling_nil
  | negative hs hk =>
      exact not_dangling_cons (Token.kind_of_isOperator hs) (by decide)
        (not_dangling_cons hk (by decide) not_dangling_nil)

theorem Constant.not_endsItem (h : Constant ts) : ¬EndsItem ts := by
  cases h with
  | literal h => exact h.not_endsItem
  | emptyArray ho | array ho => exact Phrase.not_endsItem ho (by decide)

theorem Constants.not_endsItem (h : Constants ts) : ¬EndsItem ts := by
  cases h with
  | one h => exact h.not_endsItem
  | more h => exact not_endsItem_append h.not_endsItem _

theorem not_dangling_group {opening closing : Token} (ho : opening.kind = .leftBracket)
    (hc : closing.kind = .rightBracket) (h : ¬Dangling ts) (hr : ¬Dangling rest) :
    ¬Dangling (opening :: (ts ++ closing :: rest)) :=
  not_dangling_cons ho (by decide) (not_dangling_append h (not_dangling_cons hc (by decide) hr))

mutual

theorem Constant.not_dangling {ts : List Token} : Constant ts → ¬Dangling ts
  | .literal h => h.not_dangling
  | .emptyArray ho hc => not_dangling_group ho hc not_dangling_nil not_dangling_nil
  | .array ho hc hi => not_dangling_group ho hc hi.not_dangling not_dangling_nil

theorem Constants.not_dangling {ts : List Token} : Constants ts → ¬Dangling ts
  | .one h => h.not_dangling
  | .more h _ hr => not_dangling_append h.not_dangling (not_dangling_separator hr.not_endsItem hr.not_dangling)

end

theorem Filter.not_dangling (h : Filter ts) : ¬Dangling ts := by
  cases h with
  | bare hn => exact not_dangling_cons hn (by decide) not_dangling_nil
  | applied hn _ ha =>
      exact not_dangling_cons hn (by decide) (not_dangling_separator ha.not_endsItem ha.not_dangling)

theorem Filters.not_dangling (h : Filters ts) : ¬Dangling ts := by
  induction h with
  | nil => exact not_dangling_nil
  | cons hb hf _ ih => exact not_dangling_cons hb (by decide) (not_dangling_append hf.not_dangling ih)

theorem Primary.not_endsItem (h : Primary ts) : ¬EndsItem ts := by
  cases h with
  | «variable» hk => exact Phrase.not_endsItem hk (by decide)
  | literal h => exact h.not_endsItem
  | emptyArray ho | array ho => exact Phrase.not_endsItem ho (by decide)

theorem Operand.not_endsItem (h : Operand ts) : ¬EndsItem ts := by
  cases h with
  | negation ht =>
      exact Phrase.not_endsItem (ht.elim Token.kind_of_isOperator Token.kind_of_isOperator) (by decide)
  | primary hp => exact not_endsItem_append hp.not_endsItem _

theorem Items.not_endsItem (h : Items ts) : ¬EndsItem ts := by
  have hexpression : ∀ {us}, Expression us → ¬EndsItem us := by
    rintro us ⟨hf, -, -⟩
    exact not_endsItem_append hf.not_endsItem _
  cases h with
  | one h => exact hexpression h
  | more h => exact not_endsItem_append (hexpression h) _

mutual

theorem Expression.not_dangling {ts : List Token} : Expression ts → ¬Dangling ts
  | .chain hf hc hr =>
      not_dangling_append hf.not_dangling (not_dangling_append hc.not_dangling hr.not_dangling)

theorem Operations.not_dangling {ts : List Token} : Operations ts → ¬Dangling ts
  | .nil => not_dangling_nil
  | .cons ht ho hr =>
      not_dangling_cons ht.1 (by decide) (not_dangling_append ho.not_dangling hr.not_dangling)

theorem Operand.not_dangling {ts : List Token} : Operand ts → ¬Dangling ts
  | .negation ht ho =>
      not_dangling_cons (ht.elim Token.kind_of_isOperator Token.kind_of_isOperator) (by decide) ho.not_dangling
  | .primary hp ha => not_dangling_append hp.not_dangling ha.not_dangling

theorem Accesses.not_dangling {ts : List Token} : Accesses ts → ¬Dangling ts
  | .nil => not_dangling_nil
  | .member hd hn hr => not_dangling_cons hd (by decide) (not_dangling_cons hn (by decide) hr.not_dangling)
  | .index ho hc hi hr => not_dangling_group ho hc hi.not_dangling hr.not_dangling

theorem Primary.not_dangling {ts : List Token} : Primary ts → ¬Dangling ts
  | .variable hk => not_dangling_cons hk (by decide) not_dangling_nil
  | .literal h => h.not_dangling
  | .emptyArray ho hc => not_dangling_group ho hc not_dangling_nil not_dangling_nil
  | .array ho hc hi => not_dangling_group ho hc hi.not_dangling not_dangling_nil

theorem Items.not_dangling {ts : List Token} : Items ts → ¬Dangling ts
  | .one h => h.not_dangling
  | .more h _ hr => not_dangling_append h.not_dangling (not_dangling_separator hr.not_endsItem hr.not_dangling)

end

end Stencil.Phrase

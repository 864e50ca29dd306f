import Stencil.Proofs.Expr.Printed

namespace Stencil

theorem ofDigits_repr (n : Nat) : ofDigits (Nat.repr n).toList = n := by
  rw [Nat.toList_repr]
  exact Nat.ofDigitChars_ten_toDigits

theorem Token.unquoted_quoted (s : String) (offset : Nat) :
    (⟨.string, quoted s, offset⟩ : Token).unquoted = s := by
  rw [unquoted, if_pos rfl, quoted, String.toList_ofList, List.drop_one, List.tail_cons,
    List.dropLast_concat, String.ofList_toList]

namespace Expr

variable {ts : List Token} {many : Bool}

theorem Literal.int (n : Int64) (offset : Nat) :
    ∃ t more, (Value.int n).tokens offset = t :: more ∧ t.offset = offset ∧ Literal (t :: more) (.int n) := by
  rw [Value.tokens]
  split
  next h =>
    refine ⟨_, _, rfl, rfl, .negative rfl rfl ?_⟩
    rw [ofDigits_repr]
    have habs : -(n.toInt.natAbs : Int) = n.toInt := by omega
    rw [habs, integer?_toInt]
  next h =>
    refine ⟨_, _, rfl, rfl, .integer rfl ?_⟩
    rw [ofDigits_repr]
    have habs : (n.toInt.natAbs : Int) = n.toInt := by omega
    rw [habs, integer?_toInt]

theorem Literal.canonical {v : Value} (h : Literal ts v) (offset : Nat) :
    ∃ t more, v.tokens offset = t :: more ∧ t.offset = offset ∧ Literal (t :: more) v := by
  cases h with
  | integer | negative => exact Literal.int _ offset
  | nil => exact ⟨_, _, rfl, rfl, .nil rfl⟩
  | @string t hk =>
      have hl : Literal [⟨.string, quoted t.unquoted, offset⟩] _ := .string rfl
      rw [Token.unquoted_quoted] at hl
      exact ⟨_, _, rfl, rfl, hl⟩
  | @boolean t hk =>
      generalize decide (t.text = "true") = b
      have hl : Literal [⟨.boolean, if b then "true" else "false", offset⟩] _ := .boolean rfl
      cases b with
      | true => exact ⟨_, _, rfl, rfl, hl⟩
      | false => exact ⟨_, _, rfl, rfl, hl⟩

theorem Constants.values_ne_nil {vs : List Value} (h : Constants ts vs) : vs ≠ [] := by
  cases h <;> exact List.cons_ne_nil _ _

mutual

theorem Constant.canonical {ts : List Token} {v : Value} : Constant ts v →
    ∀ offset : Nat, Constant (v.tokens offset) v
  | .literal h => by
      intro offset
      obtain ⟨t, more, he, -, hl⟩ := h.canonical offset
      rw [he]
      exact .literal hl
  | .emptyArray _ _ => fun offset => .emptyArray rfl rfl
  | .array _ _ hi => fun offset => .array rfl rfl hi.canonical

theorem Constants.canonical {ts : List Token} {vs : List Value} : Constants ts vs →
    Constants (Value.tokensAll vs) vs
  | .one h => .one (h.canonical 0)
  | .more h _ hr => by
      rw [Value.tokensAll_cons hr.values_ne_nil]
      exact .more (h.canonical 0) rfl hr.canonical

end

/-- A comma at the end is not written. -/
theorem Arguments.canonical {vs : List Value} (h : Arguments many ts vs) :
    Arguments many (Value.tokensAll vs) vs := by
  induction h with
  | nil => exact .nil
  | one h => exact .one (h.canonical 0)
  | @more _ _ _ v vs hm h _ _ ih =>
      by_cases hvs : vs = []
      · subst hvs
        exact .one (h.canonical 0)
      · rw [Value.tokensAll_cons hvs]
        exact .more hm (h.canonical 0) rfl ih

/-- What is written for filters stands behind what they are applied to. -/
theorem Filters.canonical {e e' : Expr} (h : Filters many e ts e') :
    ∃ more, e'.tokens = e.tokens ++ more ∧ Filters many e more e' := by
  induction h with
  | nil => exact ⟨[], (List.append_nil _).symm, .nil⟩
  | bare hb hn _ ih =>
      obtain ⟨more, he, hf⟩ := ih
      rw [tokens, List.append_assoc] at he
      exact ⟨_, he, .bare rfl rfl hf⟩
  | @applied e e' bar name colon ts rest vs hb hn hc ha _ ih =>
      obtain ⟨more, he, hf⟩ := ih
      rw [tokens, List.append_assoc] at he
      refine ⟨_, he, ?_⟩
      have ha := ha.canonical
      cases vs with
      | nil => exact .bare rfl rfl hf
      | cons v vs => exact .applied rfl rfl rfl ha hf

theorem Items.exprs_ne_nil {es : List Expr} (h : Items ts es) : es ≠ [] := by
  cases h <;> exact List.cons_ne_nil _ _

mutual

theorem Sentence.canonical {many : Bool} {ts : List Token} {e : Expr} : Sentence many ts e →
    Sentence many e.tokens e
  | .chain hf hc hr => by
      obtain ⟨more, he, hr⟩ := hr.canonical
      rw [he, Operation.tokens_fold, List.append_assoc]
      exact .chain hf.canonical hc.canonical hr

theorem Operations.canonical {ts : List Token} {chain : List Operation} : Operations ts chain →
    Operations (Operation.tokens chain) chain
  | .nil => .nil
  | .cons _ _ ho hr => .cons rfl (BinaryOp.ofSymbol?_symbol _) ho.canonical hr.canonical

theorem Operand.canonical {ts : List Token} {e : Expr} : Operand ts e → Operand e.tokens e
  | .negation _ ho => .negation (.inl rfl) ho.canonical
  | .primary hp ha => by
      obtain ⟨more, he, ha⟩ := ha.canonical
      rw [he]
      exact .primary hp.canonical ha

theorem Primary.canonical {ts : List Token} {e : Expr} : Primary ts e → Primary e.tokens e
  | .variable _ => .variable rfl
  | .literal h => by
      obtain ⟨t, more, he, ho, hl⟩ := h.canonical _
      rw [tokens, he, ← ho]
      exact .literal hl
  | .emptyArray _ _ => .emptyArray rfl rfl
  | .array _ _ hi => .array rfl rfl hi.canonical

theorem Accesses.canonical {ts : List Token} {e e' : Expr} : Accesses e ts e' →
    ∃ more, e'.tokens = e.tokens ++ more ∧ Accesses e more e'
  | .nil => ⟨[], (List.append_nil _).symm, .nil⟩
  | .member _ _ hr => by
      obtain ⟨more, he, ha⟩ := hr.canonical
      rw [tokens, List.append_assoc] at he
      exact ⟨_, he, .member rfl rfl ha⟩
  | .index _ _ hi hr => by
      obtain ⟨more, he, ha⟩ := hr.canonical
      rw [tokens, List.append_assoc, List.cons_append, List.append_assoc] at he
      exact ⟨_, he, .index rfl rfl hi.canonical ha⟩

theorem Items.canonical {ts : List Token} {es : List Expr} : Items ts es → Items (tokensAll es) es
  | .one h => .one h.canonical
  | .more h _ hr => by
      rw [tokensAll_cons hr.exprs_ne_nil]
      exact .more h.canonical rfl hr.canonical

end

end Expr

end Stencil

import Stencil.Proofs.Expr.Soundness

namespace Stencil.Expr

variable {ts rest : List Token} {many : Bool}

/-- A literal is one token, or a sign and digits. -/
theorem Literal.cases_eq {v : Value} (h : Literal ts v) :
    (∃ t, ts = [t] ∧ isLiteral t ∧ literalValue t = .ok v) ∨
      ∃ t digits, ts = [t, digits] ∧ t.isOperator "-" ∧ digits.kind = .integer ∧
        integerOf (-(ofDigits digits.text.toList : Int)) t.offset = .ok v := by
  cases h with
  | boolean hk => exact .inl ⟨_, rfl, by simp [isLiteral, hk], by simp [literalValue, hk]⟩
  | integer hk hn =>
      exact .inl ⟨_, rfl, by simp [isLiteral, hk], by simp [literalValue, hk, integerOf, hn]⟩
  | negative hs hk hn => exact .inr ⟨_, _, rfl, hs, hk, by simp [integerOf, hn]⟩
  | string hk => exact .inl ⟨_, rfl, by simp [isLiteral, hk], by simp [literalValue, hk]⟩
  | nil hk => exact .inl ⟨_, rfl, by simp [isLiteral, hk], by simp [literalValue, hk]⟩

/-- A constant does not start with a filter. -/
theorem Constant.exists_cons {v : Value} (h : Constant ts v) :
    ∃ t more, ts = t :: more ∧ t.kind ≠ .pipe := by
  cases h with
  | literal h =>
      cases h with
      | boolean hk | integer hk | string hk | nil hk => exact ⟨_, _, rfl, by rw [hk]; decide⟩
      | negative hs => exact ⟨_, _, rfl, by rw [Token.kind_of_isOperator hs]; decide⟩
  | emptyArray ho => exact ⟨_, _, rfl, by rw [ho]; decide⟩
  | array ho => exact ⟨_, _, rfl, by rw [ho]; decide⟩

theorem Constants.ne_nil {vs : List Value} (h : Constants ts vs) : ts ≠ [] := by
  cases h with
  | one h =>
      obtain ⟨t, more, rfl, -⟩ := h.exists_cons
      exact List.cons_ne_nil _ _
  | more => exact List.append_ne_nil_of_right_ne_nil _ (List.cons_ne_nil _ _)

theorem onlyConstant_ok {stop : Nat} {v : Value} (h : unbounded (constant ts stop) = .ok (v, [])) :
    onlyConstant ts stop = .ok v := by
  rw [onlyConstant]
  cases hc : constant ts stop with
  | error e =>
      rw [hc] at h
      cases h
  | ok p =>
      obtain ⟨v', left, hleft⟩ := p
      rw [hc] at h
      obtain ⟨rfl, rfl⟩ := Prod.mk.inj (Except.ok.inj h)
      rfl

mutual

theorem Constant.complete {ts : List Token} {v : Value} : Constant ts v →
    ∀ (rest : List Token) (stop : Nat), unbounded (constant (ts ++ rest) stop) = .ok (v, rest)
  | .literal h => by
      intro rest stop
      rcases h.cases_eq with ⟨t, rfl, ht, hv⟩ | ⟨t, digits, rfl, hs, hd, hv⟩
      · rw [List.singleton_append, constant_literal ht, hv]
        rfl
      · rw [List.cons_append, List.singleton_append, constant_negative hs hd, hv]
        rfl
  | .emptyArray ho hc => by
      intro rest stop
      exact constant_array ho (Token.takeBracketed_of_balanced .nil hc)
  | .array ho hc hi => by
      intro rest stop
      rw [List.cons_append, List.append_assoc, List.singleton_append,
        constant_array ho (Token.takeBracketed_of_balanced hi.balanced hc),
        Token.splitTopLevel_of_ne_nil hi.ne_nil, hi.complete]
      rfl

theorem Constants.complete {ts : List Token} {vs : List Value} : Constants ts vs → ∀ stop : Nat,
    (Token.splitAtDepth .comma 0 ts).mapM (onlyConstant · stop) = .ok vs
  | .one h => by
      intro stop
      have hc := h.complete [] stop
      rw [List.append_nil] at hc
      rw [Token.splitAtDepth_of_whole h.whole, List.mapM_cons, onlyConstant_ok hc]
      rfl
  | .more h hcomma hr => by
      intro stop
      have hc := h.complete [] stop
      rw [List.append_nil] at hc
      rw [Token.splitAtDepth_cons h.whole hcomma, List.mapM_cons, hr.complete, onlyConstant_ok hc]
      rfl

end

theorem Arguments.complete {vs : List Value} (h : Arguments many ts vs) (hrest : StartsPipe rest)
    (stop : Nat) : unbounded (arguments (ts ++ rest) stop) = .ok (vs, rest) := by
  induction h with
  | nil => exact arguments_stop hrest
  | one h =>
      have hc := h.complete rest stop
      obtain ⟨t, more, rfl, ht⟩ := h.exists_cons
      exact arguments_last ht hc hrest
  | @more ts ts' comma v vs _ h hcomma _ ih =>
      have hc := h.complete (comma :: (ts' ++ rest)) stop
      obtain ⟨t, more, rfl, ht⟩ := h.exists_cons
      rw [List.append_assoc, List.cons_append]
      refine (arguments_more ht hc hcomma).trans ?_
      rw [ih]
      rfl

theorem Filters.startsPipe {e e' : Expr} (h : Filters many e ts e') : StartsPipe ts := by
  cases h with
  | nil => exact fun t ht => nomatch ht
  | bare hb | applied hb =>
      intro t ht
      obtain rfl := Option.some.inj ht
      exact hb

theorem Filters.complete {e e' : Expr} (h : Filters many e ts e') (stop : Nat) :
    pipeline e ts stop = .ok e' := by
  induction h with
  | nil => rw [pipeline]
  | bare hb hn hr ih => rw [pipeline_bare hb hn hr.startsPipe, ih]
  | applied hb hn hc ha hr ih =>
      rw [pipeline_applied hb hn hc, ha.complete hr.startsPipe]
      exact ih

theorem Primary.ne_nil {e : Expr} (h : Primary ts e) : ts ≠ [] := by
  cases h <;> exact List.cons_ne_nil _ _

theorem Operand.ne_nil {e : Expr} (h : Operand ts e) : ts ≠ [] := by
  cases h with
  | negation => exact List.cons_ne_nil _ _
  | primary hp => exact List.append_ne_nil_of_left_ne_nil hp.ne_nil _

theorem Sentence.ne_nil {e : Expr} (h : Sentence many ts e) : ts ≠ [] := by
  cases h with
  | chain hf => exact List.append_ne_nil_of_left_ne_nil hf.ne_nil _

theorem Items.ne_nil {es : List Expr} (h : Items ts es) : ts ≠ [] := by
  cases h with
  | one h => exact h.ne_nil
  | more => exact List.append_ne_nil_of_right_ne_nil _ (List.cons_ne_nil _ _)

/-- What follows an operand in a chain does not belong to it. -/
theorem Operations.noAccess {chain : List Operation} (h : Operations ts chain) (hrest : StartsPipe rest) :
    StartsNoAccess (ts ++ rest) := by
  cases h with
  | nil => exact hrest.noAccess
  | cons hk =>
      intro t ht
      obtain rfl := Option.some.inj ht
      rw [hk]
      decide

mutual

theorem Sentence.complete {many : Bool} {ts : List Token} {e : Expr} : Sentence many ts e → ∀ stop : Nat,
    ofTokens ts stop = .ok e
  | .chain hf hc hr => by
      intro stop
      have hne := List.append_ne_nil_of_left_ne_nil hf.ne_nil
      have hrest := hr.startsPipe
      rw [ofTokens_eq (hne _), hf.complete _ stop (hc.noAccess hrest)]
      show unbounded (operations _ stop) >>= _ = _
      rw [hc.complete _ stop hrest]
      exact hr.complete stop

theorem Operations.complete {ts : List Token} {chain : List Operation} : Operations ts chain →
    ∀ (rest : List Token) (stop : Nat), StartsPipe rest →
      unbounded (operations (ts ++ rest) stop) = .ok (chain, rest)
  | .nil => fun rest stop hrest => operations_stop hrest
  | .cons hk hs ho hr => by
      intro rest stop hrest
      rw [List.cons_append, List.append_assoc, operations_cons hk hs,
        ho.complete _ stop (hr.noAccess hrest)]
      show (unbounded (operations _ stop)).map _ = _
      rw [hr.complete rest stop hrest]
      rfl

theorem Operand.complete {ts : List Token} {e : Expr} : Operand ts e →
    ∀ (rest : List Token) (stop : Nat), StartsNoAccess rest →
      unbounded (operand (ts ++ rest) stop) = .ok (e, rest)
  | .negation ht ho => by
      intro rest stop hrest
      rw [List.cons_append, operand_not ht, ho.complete rest stop hrest]
      rfl
  | .primary hp ha => by
      intro rest stop hrest
      rw [List.append_assoc, hp.complete, ha.complete rest hrest]

theorem Primary.complete {ts : List Token} {e : Expr} : Primary ts e →
    ∀ (rest : List Token) (stop : Nat),
      unbounded (operand (ts ++ rest) stop) = unbounded (accesses e rest)
  | .variable hk => fun rest stop => operand_variable hk
  | .literal h => by
      intro rest stop
      rcases h.cases_eq with ⟨t, he, ht, hv⟩ | ⟨t, digits, he, hs, hd, hv⟩
      · obtain ⟨rfl, rfl⟩ := List.cons.inj he
        rw [List.singleton_append, operand_literal ht, hv]
        rfl
      · obtain ⟨rfl, rfl⟩ := List.cons.inj he
        rw [List.cons_append, List.singleton_append, operand_negative hs hd, hv]
        rfl
  | .emptyArray ho hc => fun rest stop => operand_array ho (Token.takeBracketed_of_balanced .nil hc)
  | .array ho hc hi => by
      intro rest stop
      rw [List.cons_append, List.append_assoc, List.singleton_append,
        operand_array ho (Token.takeBracketed_of_balanced hi.balanced hc),
        Token.splitTopLevel_of_ne_nil hi.ne_nil, hi.complete]
      rfl

theorem Accesses.complete {ts : List Token} {e e' : Expr} : Accesses e ts e' →
    ∀ rest : List Token, StartsNoAccess rest → unbounded (accesses e (ts ++ rest)) = .ok (e', rest)
  | .nil => fun rest hrest => accesses_stop hrest
  | .member hd hn hr => by
      intro rest hrest
      rw [List.cons_append, List.cons_append, accesses_member hd hn, hr.complete rest hrest]
  | .index ho hc hi hr => by
      intro rest hrest
      rw [List.cons_append, List.append_assoc, List.cons_append,
        accesses_index ho hi.ne_nil (Token.takeBracketed_of_balanced hi.balanced hc), hi.complete]
      exact hr.complete rest hrest

theorem Items.complete {ts : List Token} {es : List Expr} : Items ts es → ∀ stop : Nat,
    (Token.splitAtDepth .comma 0 ts).mapM (ofTokens · stop) = .ok es
  | .one h => by
      intro stop
      rw [Token.splitAtDepth_of_whole h.whole, List.mapM_cons, h.complete]
      rfl
  | .more h hcomma hr => by
      intro stop
      rw [Token.splitAtDepth_cons h.whole hcomma, List.mapM_cons, hr.complete, h.complete]
      rfl

end

/-- The grammar is what is read. -/
theorem ofTokens_ok_iff {stop : Nat} {e : Expr} : ofTokens ts stop = .ok e ↔ Sentence true ts e := by
  constructor
  · intro h
    exact ofTokens_sound ts stop e h
  · intro h
    exact h.complete stop

/-- The offset that is blamed when tokens run out plays no part in what is read. -/
theorem ofTokens_ok_of_ok {stop stop' : Nat} {e : Expr} (h : ofTokens ts stop = .ok e) :
    ofTokens ts stop' = .ok e :=
  ofTokens_ok_iff.2 (ofTokens_ok_iff.1 h)

end Stencil.Expr

import Stencil.Proofs.Bind
import Stencil.Proofs.Expr.Whole

namespace Stencil

namespace Expr

section

variable {β : Type} {P : List Token → β → Prop} {Q : List Token → List β → Prop}
  {f : List Token → Parsing β}

/-- What holds of a list with commas in it, if it is built from what holds of the pieces. -/
theorem of_mapM_pieces (hone : ∀ {ts b}, P ts b → Q ts [b])
    (hmore : ∀ {ts comma rest b bs}, P ts b → comma.kind = TokenKind.comma → Q rest bs →
      Q (ts ++ comma :: rest) (b :: bs))
    {pieces : List (List Token)} {ts : List Token} {bs : List β}
    (hs : Token.splitAtDepth .comma 0 ts = pieces) (hf : pieces.mapM f = .ok bs)
    (hp : ∀ piece ∈ pieces, Token.splitAtDepth .comma 0 piece = [piece] →
      ∀ b, f piece = .ok b → P piece b) : Q ts bs := by
  induction pieces generalizing ts bs with
  | nil => exact absurd hs (Token.splitAtDepth_ne_nil _ _ _)
  | cons piece pieces ih =>
      obtain ⟨b, bs, hb, hbs, rfl⟩ := Except.of_mapM_cons hf
      obtain ⟨hfirst, hrest⟩ := List.forall_mem_cons.1 hp
      obtain ⟨hpiece, ⟨rfl, rfl⟩ | ⟨comma, rest, hc, rfl, hrest'⟩⟩ := Token.of_splitAtDepth hs
      · obtain rfl := Except.ok.inj hbs
        exact hone (hfirst hpiece b hb)
      · exact hmore (hfirst hpiece b hb) hc (ih hrest' hbs hrest)

end

theorem of_integerOf {n : Int} {offset : Nat} {v : Value} (h : integerOf n offset = .ok v) :
    ∃ k, integer? n = some k ∧ v = .int k := by
  simp only [integerOf] at h
  split at h
  next k hk => exact ⟨k, hk, (Except.ok.inj h).symm⟩
  next => cases h

theorem literal_of_literalValue {t : Token} {v : Value} (ht : isLiteral t) (h : literalValue t = .ok v) :
    Literal [t] v := by
  rw [literalValue] at h
  split at h
  next hk =>
    obtain rfl := Except.ok.inj h
    exact .boolean hk
  next hk =>
    obtain ⟨k, hn, rfl⟩ := of_integerOf h
    exact .integer hk hn
  next hk =>
    obtain rfl := Except.ok.inj h
    exact .string hk
  next =>
    obtain rfl := Except.ok.inj h
    refine .nil ?_
    simp_all [isLiteral]

theorem of_negative {sign : Token} {ts : List Token} {stop : Nat} {v : Value} {rest : NotLonger ts}
    (hs : sign.isOperator "-") (h : negative sign ts stop = .ok (v, rest)) :
    ∃ digits, ts = digits :: rest.1 ∧ Literal [sign, digits] v := by
  simp only [negative] at h
  split at h
  · cases h
  next digits ts =>
    split at h
    next hk =>
      obtain ⟨v', hv, h⟩ := Except.of_bind_ok h
      obtain ⟨rfl, rfl⟩ := Prod.mk.inj (Except.ok.inj h)
      obtain ⟨k, hn, rfl⟩ := of_integerOf hv
      exact ⟨digits, rfl, .negative hs hk hn⟩
    next => cases h

theorem constant_sound (ts : List Token) (stop : Nat) (v : Value) (rest : Shorter ts)
    (h : constant ts stop = .ok (v, rest)) : ∃ front, ts = front ++ rest.1 ∧ Constant front v := by
  cases ts with
  | nil =>
      rw [constant] at h
      cases h
  | cons t ts =>
      have hc := h
      rw [constant] at hc
      split at hc
      next ht =>
        obtain ⟨v', hv, hc⟩ := Except.of_bind_ok hc
        obtain ⟨rfl, rfl⟩ := Prod.mk.inj (Except.ok.inj hc)
        exact ⟨[t], rfl, .literal (literal_of_literalValue ht hv)⟩
      split at hc
      next hsign =>
        obtain ⟨⟨v', left⟩, hn, hc⟩ := Except.of_bind_ok hc
        obtain ⟨rfl, rfl⟩ := Prod.mk.inj (Except.ok.inj hc)
        obtain ⟨digits, hts, hl⟩ := of_negative hsign hn
        exact ⟨[t, digits], congrArg (t :: ·) hts, .literal hl⟩
      split at hc
      next ho =>
        split at hc
        next => cases hc
        next inner close left hb =>
          have hlen := Token.length_of_takeBracketed hb
          have hclose := Token.close_kind_of_takeBracketed hb
          have hu : unbounded (constant (t :: ts) stop) = .ok (v, rest.1) := by
            rw [h]
            rfl
          rw [constant_array ho hb] at hu
          obtain ⟨items, hitems, hu⟩ := Except.of_map_ok hu
          obtain ⟨rfl, hrest⟩ := Prod.mk.inj hu
          have hts : t :: ts = (t :: (inner ++ [close])) ++ rest.1 := by
            rw [← hrest, List.cons_append, List.append_assoc, List.singleton_append,
              ← Token.eq_append_of_takeBracketed hb]
          by_cases hi : inner = []
          · subst hi
            obtain rfl := Except.ok.inj hitems
            exact ⟨[t, close], hts, .emptyArray ho hclose⟩
          · rw [Token.splitTopLevel_of_ne_nil hi] at hitems
            refine ⟨t :: (inner ++ [close]), hts, .array ho hclose ?_⟩
            refine of_mapM_pieces .one .more rfl hitems ?_
            intro piece hp _ b hb
            have hpiece := Token.length_le_of_mem_splitAtDepth hp
            obtain ⟨⟨b', left⟩, hread, hb⟩ := Except.of_bind_ok hb
            obtain ⟨front, hfront, hconstant⟩ := constant_sound piece close.offset b' left hread
            dsimp only at hb
            split at hb
            next hnil =>
              obtain rfl := Except.ok.inj hb
              rw [hnil, List.append_nil] at hfront
              rw [hfront]
              exact hconstant
            next => cases hb
      next => cases hc
termination_by ts.length
decreasing_by
  subst_vars
  simp only [List.length_cons]
  omega

theorem arguments_sound (ts : List Token) (stop : Nat) (vs : List Value) (rest : NotLonger ts)
    (h : arguments ts stop = .ok (vs, rest)) : ∃ front, ts = front ++ rest.1 ∧ Arguments true front vs := by
  cases ts with
  | nil =>
      rw [arguments] at h
      obtain ⟨rfl, rfl⟩ := Prod.mk.inj (Except.ok.inj h)
      exact ⟨[], rfl, .nil⟩
  | cons t ts =>
      rw [arguments] at h
      split at h
      next =>
        obtain ⟨rfl, rfl⟩ := Prod.mk.inj (Except.ok.inj h)
        exact ⟨[], rfl, .nil⟩
      obtain ⟨⟨v, left, hleft⟩, hv, h⟩ := Except.of_bind_ok h
      obtain ⟨front, hfront, hconstant⟩ := constant_sound _ _ _ _ hv
      dsimp only at h hfront
      cases left with
      | nil =>
          obtain ⟨rfl, rfl⟩ := Prod.mk.inj (Except.ok.inj h)
          exact ⟨front, hfront, .one hconstant⟩
      | cons separator more =>
          dsimp only at h
          split at h
          next =>
            obtain ⟨rfl, rfl⟩ := Prod.mk.inj (Except.ok.inj h)
            exact ⟨front, hfront, .one hconstant⟩
          split at h
          next hc =>
            obtain ⟨⟨vs', left'⟩, hvs, h⟩ := Except.of_bind_ok h
            obtain ⟨rfl, rfl⟩ := Prod.mk.inj (Except.ok.inj h)
            obtain ⟨front', hfront', harguments⟩ := arguments_sound more stop vs' left' hvs
            refine ⟨front ++ separator :: front', ?_, .more rfl hconstant hc harguments⟩
            refine hfront.trans ?_
            rw [List.append_assoc, List.cons_append]
            exact congrArg (fun l => front ++ separator :: l) hfront'
          next => cases h
termination_by ts.length
decreasing_by
  subst_vars
  simp only [List.length_cons] at hleft ⊢
  omega

theorem pipeline_sound (e : Expr) (ts : List Token) (stop : Nat) (e' : Expr)
    (h : pipeline e ts stop = .ok e') : Filters true e ts e' := by
  cases ts with
  | nil =>
      rw [pipeline] at h
      obtain rfl := Except.ok.inj h
      exact .nil
  | cons bar ts =>
      rw [pipeline.eq_def] at h
      dsimp only at h
      split at h
      next => cases h
      next hbar =>
        cases ts with
        | nil => cases h
        | cons name ts =>
            dsimp only at h
            split at h
            next => cases h
            next hname =>
              have hbar := Decidable.of_not_not hbar
              have hname := Decidable.of_not_not hname
              cases ts with
              | nil =>
                  obtain rfl := Except.ok.inj h
                  exact .bare hbar hname .nil
              | cons next ts =>
                  dsimp only at h
                  split at h
                  next => exact .bare hbar hname (pipeline_sound _ _ _ _ h)
                  split at h
                  next hcolon =>
                    obtain ⟨⟨vs, left⟩, hvs, h⟩ := Except.of_bind_ok h
                    obtain ⟨front, hfront, harguments⟩ := arguments_sound ts stop vs left hvs
                    rw [hfront]
                    exact .applied hbar hname hcolon harguments (pipeline_sound _ _ _ _ h)
                  next => cases h
termination_by ts.length
decreasing_by
  all_goals subst_vars
  all_goals simp only [List.length_cons]
  all_goals omega

theorem of_binaryOperator {t : Token} {op : BinaryOp} (h : binaryOperator t = .ok op) :
    t.kind = .operator ∧ BinaryOp.ofSymbol? t.text = some op := by
  rw [binaryOperator] at h
  split at h
  next => cases h
  next hk =>
    split at h
    next op' ho =>
      obtain rfl := Except.ok.inj h
      exact ⟨Decidable.of_not_not hk, ho⟩
    next => cases h

end Expr

end Stencil

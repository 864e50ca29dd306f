import Stencil.Proofs.Expr.Filters

namespace Stencil.Expr

mutual

theorem ofTokens_sound (ts : List Token) (stop : Nat) (e : Expr) (h : ofTokens ts stop = .ok e) :
    Sentence true ts e := by
  rw [ofTokens] at h
  obtain ⟨-, h⟩ := Except.of_check_ok h
  obtain ⟨⟨first, rest, hrest⟩, hfirst, h⟩ := Except.of_bind_ok h
  obtain ⟨⟨chain, left⟩, hchain, h⟩ := Except.of_bind_ok h
  obtain ⟨front, hfront, hoperand⟩ := operand_sound ts stop first ⟨rest, hrest⟩ hfirst
  obtain ⟨middle, hmiddle, hoperations⟩ := operations_sound rest stop chain left hchain
  dsimp only at hfront
  rw [hfront, hmiddle]
  exact .chain hoperand hoperations (pipeline_sound _ _ _ _ h)
termination_by (ts.length, 2)
decreasing_by
  · decreasing_tactic
  · exact Prod.Lex.left _ _ hrest

theorem operations_sound (ts : List Token) (stop : Nat) (chain : List Operation) (rest : NotLonger ts)
    (h : operations ts stop = .ok (chain, rest)) :
    ∃ front, ts = front ++ rest.1 ∧ Operations front chain := by
  cases ts with
  | nil =>
      rw [operations] at h
      obtain ⟨rfl, rfl⟩ := Prod.mk.inj (Except.ok.inj h)
      exact ⟨[], rfl, .nil⟩
  | cons t ts =>
      rw [operations] at h
      split at h
      next =>
        obtain ⟨rfl, rfl⟩ := Prod.mk.inj (Except.ok.inj h)
        exact ⟨[], rfl, .nil⟩
      obtain ⟨op, hop, h⟩ := Except.of_bind_ok h
      obtain ⟨⟨right, left, hleft⟩, hright, h⟩ := Except.of_bind_ok h
      obtain ⟨⟨more, left'⟩, hmore, h⟩ := Except.of_bind_ok h
      obtain ⟨rfl, rfl⟩ := Prod.mk.inj (Except.ok.inj h)
      obtain ⟨hk, hsymbol⟩ := of_binaryOperator hop
      obtain ⟨front, hfront, hoperand⟩ := operand_sound ts stop right ⟨left, hleft⟩ hright
      obtain ⟨middle, hmiddle, hoperations⟩ := operations_sound left stop more left' hmore
      refine ⟨t :: (front ++ middle), ?_, .cons hk hsymbol hoperand hoperations⟩
      show t :: ts = t :: (front ++ middle) ++ left'.1
      rw [List.cons_append, List.append_assoc, ← hmiddle]
      exact congrArg (t :: ·) hfront
termination_by (ts.length, 0)
decreasing_by
  all_goals subst_vars
  all_goals simp only [Prod.lex_def, List.length_cons]
  all_goals omega

theorem operand_sound (ts : List Token) (stop : Nat) (e : Expr) (rest : Shorter ts)
    (h : operand ts stop = .ok (e, rest)) : ∃ front, ts = front ++ rest.1 ∧ Operand front e := by
  cases ts with
  | nil =>
      rw [operand] at h
      cases h
  | cons t ts =>
      have hc := h
      rw [operand] at hc
      split at hc
      next hnot =>
        obtain ⟨⟨e', left, hleft⟩, he, hc⟩ := Except.of_bind_ok hc
        obtain ⟨rfl, rfl⟩ := Prod.mk.inj (Except.ok.inj hc)
        obtain ⟨front, hfront, hoperand⟩ := operand_sound ts stop e' ⟨left, hleft⟩ he
        exact ⟨t :: front, congrArg (t :: ·) hfront, .negation (by simpa using hnot) hoperand⟩
      split at hc
      next hsign =>
        obtain ⟨⟨v, left, hleft⟩, hv, hc⟩ := Except.of_bind_ok hc
        obtain ⟨⟨e', left'⟩, he, hc⟩ := Except.of_bind_ok hc
        obtain ⟨rfl, rfl⟩ := Prod.mk.inj (Except.ok.inj hc)
        simp only [Bool.and_eq_true] at hsign
        obtain ⟨digits, hts, hliteral⟩ := of_negative hsign.1 hv
        obtain ⟨front, hfront, haccesses⟩ := accesses_sound (.literal v t.offset) left e' left' he
        refine ⟨[t, digits] ++ front, ?_, .primary (.literal hliteral) haccesses⟩
        show t :: ts = [t, digits] ++ front ++ left'.1
        rw [List.append_assoc, ← hfront]
        exact congrArg (t :: ·) hts
      split at hc
      next hname =>
        obtain ⟨⟨e', left⟩, he, hc⟩ := Except.of_bind_ok hc
        obtain ⟨rfl, rfl⟩ := Prod.mk.inj (Except.ok.inj hc)
        obtain ⟨front, hfront, haccesses⟩ := accesses_sound (.variable t.text t.offset) ts e' left he
        exact ⟨[t] ++ front, congrArg (t :: ·) hfront, .primary (.variable hname) haccesses⟩
      split at hc
      next hliteral =>
        obtain ⟨v, hv, hc⟩ := Except.of_bind_ok hc
        obtain ⟨⟨e', left⟩, he, hc⟩ := Except.of_bind_ok hc
        obtain ⟨rfl, rfl⟩ := Prod.mk.inj (Except.ok.inj hc)
        obtain ⟨front, hfront, haccesses⟩ := accesses_sound (.literal v t.offset) ts e' left he
        exact ⟨[t] ++ front, congrArg (t :: ·) hfront,
          .primary (.literal (literal_of_literalValue hliteral hv)) haccesses⟩
      split at hc
      next ho =>
        split at hc
        next => cases hc
        next inner close left hb =>
          have hlen := Token.length_of_takeBracketed hb
          have hclose := Token.close_kind_of_takeBracketed hb
          have hu : unbounded (operand (t :: ts) stop) = .ok (e, rest.1) := by
            rw [h]
            rfl
          rw [operand_array ho hb] at hu
          obtain ⟨items, hitems, hu⟩ := Except.of_bind_ok hu
          obtain ⟨⟨e', left'⟩, he, hu⟩ := Except.of_map_ok hu
          obtain ⟨rfl, hrest⟩ := Prod.mk.inj hu
          obtain ⟨front, hfront, haccesses⟩ := accesses_sound (.array items t.offset) left e' left' he
          have hts : t :: ts = (t :: (inner ++ [close])) ++ front ++ rest.1 := by
            rw [← hrest, List.append_assoc, ← hfront, List.cons_append, List.append_assoc,
              List.singleton_append, ← Token.eq_append_of_takeBracketed hb]
          refine ⟨_, hts, .primary ?_ haccesses⟩
          by_cases hi : inner = []
          · subst hi
            obtain rfl := Except.ok.inj hitems
            exact .emptyArray ho hclose
          · rw [Token.splitTopLevel_of_ne_nil hi] at hitems
            refine .array ho hclose (of_mapM_pieces .one .more rfl hitems ?_)
            intro piece hp hunsplit item hitem
            have hpiece := Token.length_le_of_mem_splitAtDepth hp
            exact (ofTokens_sound piece close.offset item hitem).of_unsplit hunsplit
      next => cases hc
termination_by (ts.length, 1)
decreasing_by
  all_goals subst_vars
  all_goals simp only [Prod.lex_def, List.length_cons]
  all_goals omega

theorem accesses_sound (target : Expr) (ts : List Token) (e : Expr) (rest : NotLonger ts)
    (h : accesses target ts = .ok (e, rest)) : ∃ front, ts = front ++ rest.1 ∧ Accesses target front e := by
  cases ts with
  | nil =>
      rw [accesses] at h
      obtain ⟨rfl, rfl⟩ := Prod.mk.inj (Except.ok.inj h)
      exact ⟨[], rfl, .nil⟩
  | cons t ts =>
      rw [accesses.eq_def] at h
      dsimp only at h
      split at h
      next hdot =>
        cases ts with
        | nil => cases h
        | cons name ts =>
            dsimp only at h
            split at h
            next hname =>
              obtain ⟨⟨e', left⟩, he, h⟩ := Except.of_bind_ok h
              obtain ⟨rfl, rfl⟩ := Prod.mk.inj (Except.ok.inj h)
              obtain ⟨front, hfront, haccesses⟩ := accesses_sound _ ts e' left he
              exact ⟨t :: name :: front, congrArg (t :: name :: ·) hfront, .member hdot hname haccesses⟩
            next => cases h
      split at h
      next ho =>
        split at h
        next => cases h
        next inner close left hb =>
          have hlen := Token.length_of_takeBracketed hb
          have hclose := Token.close_kind_of_takeBracketed hb
          obtain ⟨hi, h⟩ := Except.of_check_ok h
          obtain ⟨key, hkey, h⟩ := Except.of_bind_ok h
          obtain ⟨⟨e', left'⟩, he, h⟩ := Except.of_bind_ok h
          obtain ⟨rfl, rfl⟩ := Prod.mk.inj (Except.ok.inj h)
          have hindex := ofTokens_sound inner close.offset key hkey
          obtain ⟨front, hfront, haccesses⟩ := accesses_sound _ left e' left' he
          refine ⟨t :: (inner ++ close :: front), ?_, .index ho hclose hindex haccesses⟩
          show t :: ts = t :: (inner ++ close :: front) ++ left'.1
          rw [List.cons_append, List.append_assoc, List.cons_append, ← hfront,
            Token.eq_append_of_takeBracketed hb]
      next =>
        obtain ⟨rfl, rfl⟩ := Prod.mk.inj (Except.ok.inj h)
        exact ⟨[], rfl, .nil⟩
termination_by (ts.length, 0)
decreasing_by
  all_goals subst_vars
  all_goals simp only [Prod.lex_def, List.length_cons]
  all_goals omega

end

end Stencil.Expr

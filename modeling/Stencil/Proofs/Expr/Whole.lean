import Stencil.Proofs.Expr.Equations
import Stencil.Proofs.Expr.Grammar

namespace Stencil

namespace Expr

open Token (Balanced Whole)

variable {ts : List Token} {many : Bool}

theorem Literal.whole {v : Value} (h : Literal ts v) : Whole ts := by
  cases h with
  | boolean hk | integer hk | string hk | nil hk => exact .plain hk (by decide) .nil
  | negative hs hk =>
      exact .plain (Token.kind_of_isOperator hs) (by decide) (.plain hk (by decide) .nil)

mutual

theorem Constant.whole {ts : List Token} {v : Value} : Constant ts v → Whole ts
  | .literal h => h.whole
  | .emptyArray ho hc => .group ho hc .nil .nil
  | .array ho hc hi => .group ho hc hi.balanced .nil

theorem Constants.balanced {ts : List Token} {vs : List Value} : Constants ts vs → Balanced ts
  | .one h => h.whole.balanced
  | .more h hc hr => h.whole.balanced.append (.comma hc hr.balanced)

end

theorem Arguments.balanced {vs : List Value} (h : Arguments many ts vs) : Balanced ts := by
  induction h with
  | nil => exact .nil
  | one h => exact h.whole.balanced
  | more _ h hc _ ih => exact h.whole.balanced.append (.comma hc ih)

theorem Arguments.whole {vs : List Value} (h : Arguments false ts vs) : Whole ts := by
  cases h with
  | nil => exact .nil
  | one h => exact h.whole
  | more hm => cases hm

theorem Filters.balanced {e e' : Expr} (h : Filters many e ts e') : Balanced ts := by
  induction h with
  | nil => exact .nil
  | bare hb hn _ ih =>
      exact (Whole.plain hb (by decide) (.plain hn (by decide) .nil)).balanced.append ih
  | applied hb hn hc ha _ ih =>
      refine (Whole.plain hb (by decide) (.plain hn (by decide) (.plain hc (by decide) .nil))).balanced.append ?_
      exact ha.balanced.append ih

theorem Filters.whole {e e' : Expr} (h : Filters false e ts e') : Whole ts := by
  induction h with
  | nil => exact .nil
  | bare hb hn _ ih => exact .plain hb (by decide) (.plain hn (by decide) ih)
  | applied hb hn hc ha _ ih =>
      exact .plain hb (by decide) (.plain hn (by decide) (.plain hc (by decide) (ha.whole.append ih)))

mutual

theorem Sentence.balanced {many : Bool} {ts : List Token} {e : Expr} : Sentence many ts e → Balanced ts
  | .chain hf hc hr => hf.whole.balanced.append (hc.whole.balanced.append hr.balanced)

theorem Operations.whole {ts : List Token} {chain : List Operation} : Operations ts chain → Whole ts
  | .nil => .nil
  | .cons hk _ ho hr => .plain hk (by decide) (ho.whole.append hr.whole)

theorem Operand.whole {ts : List Token} {e : Expr} : Operand ts e → Whole ts
  | .negation ht ho =>
      .plain (ht.elim Token.kind_of_isOperator Token.kind_of_isOperator) (by decide) ho.whole
  | .primary hp ha => hp.whole.append ha.whole

theorem Primary.whole {ts : List Token} {e : Expr} : Primary ts e → Whole ts
  | .variable hk => .plain hk (by decide) .nil
  | .literal h => h.whole
  | .emptyArray ho hc => .group ho hc .nil .nil
  | .array ho hc hi => .group ho hc hi.balanced .nil

theorem Accesses.whole {ts : List Token} {e e' : Expr} : Accesses e ts e' → Whole ts
  | .nil => .nil
  | .member hd hn hr => .plain hd (by decide) (.plain hn (by decide) hr.whole)
  | .index ho hc hi hr => .group ho hc hi.balanced hr.whole

theorem Items.balanced {ts : List Token} {es : List Expr} : Items ts es → Balanced ts
  | .one h => h.balanced
  | .more h hc hr => h.balanced.append (.comma hc hr.balanced)

end

theorem Sentence.whole {e : Expr} (h : Sentence false ts e) : Whole ts := by
  cases h with
  | chain hf hc hr => exact hf.whole.append (hc.whole.append hr.whole)

theorem splitAtDepth_ne {all before after : List Token} {comma : Token} (hw : Whole before)
    (hc : comma.kind = .comma) (he : all = before ++ comma :: after) :
    Token.splitAtDepth .comma 0 all ≠ [all] := by
  intro h
  rw [he, Token.splitAtDepth_cons hw hc] at h
  have hlen := congrArg List.length (List.cons.inj h).1
  simp at hlen

section

variable {all before after : List Token} (hs : Token.splitAtDepth .comma 0 all = [all])
include hs

/-- In a list that is not split, a filter has at most one argument. -/
theorem Arguments.of_unsplit {vs : List Value} (h : Arguments many ts vs) (hw : Whole before)
    (he : all = before ++ (ts ++ after)) : Arguments false ts vs := by
  cases h with
  | nil => exact .nil
  | one h => exact .one h
  | more _ h hc hr =>
      rw [List.append_assoc, List.cons_append, ← List.append_assoc] at he
      exact absurd hs (splitAtDepth_ne (hw.append h.whole) hc he)

theorem Filters.of_unsplit {e e' : Expr} (h : Filters many e ts e') (hw : Whole before)
    (he : all = before ++ ts) : Filters false e ts e' := by
  induction h generalizing before with
  | nil => exact .nil
  | @bare e e' bar name rest hb hn _ ih =>
      have hfront : Whole [bar, name] := .plain hb (by decide) (.plain hn (by decide) .nil)
      refine .bare hb hn (ih (hw.append hfront) ?_)
      rw [he, List.append_assoc]
      rfl
  | @applied e e' bar name colon ts rest vs hb hn hc ha _ ih =>
      have hfront : Whole [bar, name, colon] :=
        .plain hb (by decide) (.plain hn (by decide) (.plain hc (by decide) .nil))
      have he' : all = (before ++ [bar, name, colon]) ++ (ts ++ rest) := by
        rw [he, List.append_assoc]
        rfl
      have ha' := ha.of_unsplit hs (hw.append hfront) he'
      refine .applied hb hn hc ha' (ih ((hw.append hfront).append ha'.whole) ?_)
      rw [he', List.append_assoc _ ts rest]

end

theorem Sentence.of_unsplit {e : Expr} (h : Sentence many ts e)
    (hs : Token.splitAtDepth .comma 0 ts = [ts]) : Sentence false ts e := by
  cases h with
  | chain hf hc hr =>
      refine .chain hf hc (hr.of_unsplit hs (hf.whole.append hc.whole) ?_)
      rw [List.append_assoc]

end Expr

end Stencil

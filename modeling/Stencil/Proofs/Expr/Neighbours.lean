import Mathlib.Data.List.Chain
import Stencil.Node.Instruction
import Stencil.Proofs.Expr.Completeness

namespace Stencil

namespace Token

variable {t opening closing : Token} {ts us inner rest : List Token} {kind : TokenKind}

def LeavesOpen (t : Token) : Prop :=
  t.kind = .operator ∨ t.kind = .dot ∨ t.kind = .pipe ∨ t.kind = .leftBracket

def Leads (t u : Token) : Prop :=
  u.kind = .identifier → Instruction.continues t.kind

def StartsNoName (ts : List Token) : Prop :=
  ∀ t ∈ ts.head?, t.kind ≠ .identifier

/-- How the tokens of a part of an expression stand together. -/
structure Knit (ts : List Token) : Prop where
  leads : ts.IsChain Leads
  complete : ∀ t ∈ ts.getLast?, ¬t.LeavesOpen
  signless : ∀ t ∈ ts, ¬t.isOperator "="

theorem continues_iff : Instruction.continues t.kind ↔ t.LeavesOpen ∨ t.kind = .colon ∨ t.kind = .comma := by
  cases h : t.kind <;> simp [LeavesOpen, Instruction.continues, h]

theorem continues_of_operator (h : t.kind = .operator) : Instruction.continues t.kind :=
  continues_iff.2 (.inl (.inl h))

theorem isOperator_ne {symbol symbol' : String} (h : t.isOperator symbol) (hne : symbol ≠ symbol') :
    ¬t.isOperator symbol' := by
  intro h'
  exact hne ((isOperator_iff.1 h).2.symm.trans (isOperator_iff.1 h').2)

theorem not_isOperator (ht : t.kind = kind) (hk : kind ≠ .operator) (symbol : String) :
    ¬t.isOperator symbol := by
  subst ht
  exact fun h => hk (kind_of_isOperator h)

theorem startsNoName_nil : StartsNoName [] :=
  fun _ h => nomatch h

theorem startsNoName_cons (ht : t.kind = kind) (hk : kind ≠ .identifier) : StartsNoName (t :: ts) := by
  rintro u ⟨⟩
  rwa [ht]

theorem startsNoName_append (h : StartsNoName ts) (hu : StartsNoName us) : StartsNoName (ts ++ us) := by
  cases ts with
  | nil => exact hu
  | cons t ts => exact h

namespace Knit

theorem nil : Knit [] :=
  ⟨.nil, (fun _ h => nomatch h), List.forall_mem_nil _⟩

/-- What does not begin with a name can stand behind anything. -/
theorem append (h : Knit ts) (hu : Knit us) (hn : StartsNoName us) : Knit (ts ++ us) where
  leads := by
    refine List.isChain_append.2 ⟨h.leads, hu.leads, fun t _ u hu hk => ?_⟩
    exact absurd hk (hn u hu)
  complete := by
    intro t ht
    rw [List.getLast?_append] at ht
    cases hlast : us.getLast? with
    | none => exact h.complete t (by simpa [hlast] using ht)
    | some u => exact hu.complete t (by simpa [hlast] using ht)
  signless := List.forall_mem_append.2 ⟨h.signless, hu.signless⟩

theorem single (ht : t.kind = kind)
    (hk : kind ≠ .operator ∧ kind ≠ .dot ∧ kind ≠ .pipe ∧ kind ≠ .leftBracket) : Knit [t] := by
  subst ht
  refine ⟨.singleton t, ?_, List.forall_mem_singleton.2 (not_isOperator rfl hk.1 _)⟩
  rintro u ⟨⟩
  simp [LeavesOpen, hk]

theorem cons (hc : Instruction.continues t.kind) (hs : ¬t.isOperator "=") (h : Knit ts) (hne : ts ≠ []) :
    Knit (t :: ts) where
  leads := List.isChain_cons.2 ⟨fun _ _ _ => hc, h.leads⟩
  complete := by
    rw [List.getLast?_cons_of_ne_nil hne]
    exact h.complete
  signless := List.forall_mem_cons.2 ⟨hs, h.signless⟩

theorem separator (ht : t.kind = .colon ∨ t.kind = .comma) (h : Knit ts) : Knit (t :: ts) := by
  by_cases hne : ts = []
  · subst hne
    exact ht.elim (single · (by decide)) (single · (by decide))
  · have hs : ¬t.isOperator "=" := ht.elim (not_isOperator · (by decide) _) (not_isOperator · (by decide) _)
    exact h.cons (continues_iff.2 (.inr ht)) hs hne

theorem group (ho : opening.kind = .leftBracket) (hc : closing.kind = .rightBracket) (hi : Knit inner)
    (hr : Knit rest) (hn : StartsNoName rest) : Knit (opening :: (inner ++ closing :: rest)) := by
  have hclosing : Knit ([closing] ++ rest) := (single hc (by decide)).append hr hn
  have hinside := hi.append hclosing (startsNoName_cons hc (by decide))
  refine hinside.cons ?_ (not_isOperator ho (by decide) _)
    (List.append_ne_nil_of_right_ne_nil _ (List.cons_ne_nil _ _))
  exact continues_iff.2 (.inl (.inr (.inr (.inr ho))))

theorem more (h : Knit ts) (ht : t.kind = .comma) (hr : Knit rest) : Knit (ts ++ t :: rest) :=
  h.append (hr.separator (.inr ht)) (startsNoName_cons ht (by decide))

end Knit

end Token

namespace Expr

open Token (Knit StartsNoName startsNoName_nil startsNoName_cons)

variable {ts : List Token} {many : Bool}

theorem Literal.knit {v : Value} (h : Literal ts v) : Knit ts := by
  cases h with
  | boolean hk | integer hk | string hk | nil hk => exact .single hk (by decide)
  | negative hs hk =>
      have hsign := Token.kind_of_isOperator hs
      exact (Knit.single hk (by decide)).cons (Token.continues_of_operator hsign)
        (Token.isOperator_ne hs (by decide)) (List.cons_ne_nil _ _)

mutual

theorem Constant.knit {ts : List Token} {v : Value} : Constant ts v → Knit ts
  | .literal h => h.knit
  | .emptyArray ho hc => .group ho hc .nil .nil startsNoName_nil
  | .array ho hc hi => .group ho hc hi.knit .nil startsNoName_nil

theorem Constants.knit {ts : List Token} {vs : List Value} : Constants ts vs → Knit ts
  | .one h => h.knit
  | .more h hc hr => h.knit.more hc hr.knit

end

theorem Arguments.knit {vs : List Value} (h : Arguments many ts vs) : Knit ts := by
  induction h with
  | nil => exact .nil
  | one h => exact h.knit
  | more _ h hc _ ih => exact h.knit.more hc ih

theorem StartsPipe.startsNoName (h : StartsPipe ts) : StartsNoName ts := by
  intro t ht
  rw [h t ht]
  decide

theorem Filters.knit {e e' : Expr} (h : Filters many e ts e') : Knit ts := by
  have hbar {bar : Token} (hb : bar.kind = .pipe) : Instruction.continues bar.kind := by
    rw [hb]
    decide
  induction h with
  | nil => exact .nil
  | bare hb hn hr ih =>
      have hname := (Knit.single hn (by decide)).append ih hr.startsPipe.startsNoName
      exact hname.cons (hbar hb) (Token.not_isOperator hb (by decide) _) (List.cons_ne_nil _ _)
  | applied hb hn hc ha hr ih =>
      have harguments := (ha.knit.append ih hr.startsPipe.startsNoName).separator (.inl hc)
      have hname := (Knit.single hn (by decide)).append harguments (startsNoName_cons hc (by decide))
      exact hname.cons (hbar hb) (Token.not_isOperator hb (by decide) _) (List.cons_ne_nil _ _)

theorem Operations.startsNoName {chain : List Operation} (h : Operations ts chain) : StartsNoName ts := by
  cases h with
  | nil => exact startsNoName_nil
  | cons hk => exact startsNoName_cons hk (by decide)

theorem Accesses.startsNoName {e e' : Expr} (h : Accesses e ts e') : StartsNoName ts := by
  cases h with
  | nil => exact startsNoName_nil
  | member hd => exact startsNoName_cons hd (by decide)
  | index ho => exact startsNoName_cons ho (by decide)

theorem not_isOperator_of_ofSymbol? {t : Token} {op : BinaryOp} (h : BinaryOp.ofSymbol? t.text = some op) :
    ¬t.isOperator "=" := by
  intro hs
  rw [(Token.isOperator_iff.1 hs).2] at h
  cases h

mutual

theorem Sentence.knit {many : Bool} {ts : List Token} {e : Expr} : Sentence many ts e → Knit ts
  | @Sentence.chain _ _ more _ _ _ _ hf hc hr => by
      have hrest := hr.startsPipe.startsNoName
      refine hf.knit.append (hc.knit.append hr.knit hrest) ?_
      cases more with
      | nil => exact hrest
      | cons t more => exact hc.startsNoName

theorem Operations.knit {ts : List Token} {chain : List Operation} : Operations ts chain → Knit ts
  | .nil => .nil
  | .cons hk hop ho hr =>
      (ho.knit.append hr.knit hr.startsNoName).cons (Token.continues_of_operator hk) (not_isOperator_of_ofSymbol? hop)
        (List.append_ne_nil_of_left_ne_nil ho.ne_nil _)

theorem Operand.knit {ts : List Token} {e : Expr} : Operand ts e → Knit ts
  | .negation ht ho => by
      have hkind := ht.elim Token.kind_of_isOperator Token.kind_of_isOperator
      refine ho.knit.cons (Token.continues_of_operator hkind) ?_ ho.ne_nil
      exact ht.elim (Token.isOperator_ne · (by decide)) (Token.isOperator_ne · (by decide))
  | .primary hp ha => hp.knit.append ha.knit ha.startsNoName

theorem Primary.knit {ts : List Token} {e : Expr} : Primary ts e → Knit ts
  | .variable hk => .single hk (by decide)
  | .literal h => h.knit
  | .emptyArray ho hc => .group ho hc .nil .nil startsNoName_nil
  | .array ho hc hi => .group ho hc hi.knit .nil startsNoName_nil

theorem Accesses.knit {ts : List Token} {e e' : Expr} : Accesses e ts e' → Knit ts
  | .nil => .nil
  | .member hd hn hr => by
      have hname := (Knit.single hn (by decide)).append hr.knit hr.startsNoName
      refine hname.cons ?_ (Token.not_isOperator hd (by decide) _) (List.cons_ne_nil _ _)
      exact Token.continues_iff.2 (.inl (.inr (.inl hd)))
  | .index ho hc hi hr => .group ho hc hi.knit hr.knit hr.startsNoName

theorem Items.knit {ts : List Token} {es : List Expr} : Items ts es → Knit ts
  | .one h => h.knit
  | .more h hc hr => h.knit.more hc hr.knit

end

end Expr

end Stencil

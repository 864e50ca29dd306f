import Stencil.Proofs.Expr.Completeness
import Stencil.Proofs.Expr.Fold

namespace List.Forall₂

variable {α β : Type} {R : α → β → Prop} {as as' : List α} {bs : List β}

theorem exists_append (h : Forall₂ R (as ++ as') bs) :
    ∃ bs₁ bs₂, bs = bs₁ ++ bs₂ ∧ Forall₂ R as bs₁ ∧ Forall₂ R as' bs₂ := by
  induction as generalizing bs with
  | nil => exact ⟨[], bs, rfl, .nil, h⟩
  | cons a as ih =>
      cases h with
      | @cons _ b _ bs hab h =>
          obtain ⟨bs₁, bs₂, rfl, h₁, h₂⟩ := ih h
          exact ⟨b :: bs₁, bs₂, rfl, .cons hab h₁, h₂⟩

end List.Forall₂

namespace Stencil

/-- A way in which tokens change that keeps their kinds, and the texts of all but the strings, and what becomes of
the values and expressions that are read from them. -/
structure Rewording where
  token : Token → Token → Prop
  value : Value → Value → Prop
  expr : Expr → Expr → Prop
  kind_eq {t u : Token} : token t u → u.kind = t.kind
  text_eq {t u : Token} : token t u → t.kind ≠ .string → u.text = t.text
  unquoted {t u : Token} : token t u → value (.string t.unquoted) (.string u.unquoted)
  value_refl (v : Value) : value v v
  value_array {vs vs' : List Value} : List.Forall₂ value vs vs' → value (.array vs) (.array vs')
  literal {t u : Token} {v v' : Value} :
    token t u → value v v' → expr (.literal v t.offset) (.literal v' u.offset)
  array {t u : Token} {es fs : List Expr} :
    token t u → List.Forall₂ expr es fs → expr (.array es t.offset) (.array fs u.offset)
  «variable» {t u : Token} {name : String} : token t u → expr (.variable name t.offset) (.variable name u.offset)
  member {t u : Token} {e f : Expr} {name : String} :
    token t u → expr e f → expr (.member e name t.offset) (.member f name u.offset)
  index {t u : Token} {e f key key' : Expr} :
    token t u → expr e f → expr key key' → expr (.index e key t.offset) (.index f key' u.offset)
  binary {t u : Token} {op : BinaryOp} {left left' right right' : Expr} :
    token t u → expr left left' → expr right right' →
      expr (.binary op left right t.offset) (.binary op left' right' u.offset)
  negation {t u : Token} {e f : Expr} : token t u → expr e f → expr (.negation e t.offset) (.negation f u.offset)
  pipe {t u : Token} {e f : Expr} {name : String} {vs vs' : List Value} :
    token t u → expr e f → List.Forall₂ value vs vs' → expr (.pipe e name vs t.offset) (.pipe f name vs' u.offset)

namespace Rewording

variable {r : Rewording} {t u : Token}

theorem array_of_eq {vs vs' : List Value} (h : List.Forall₂ Eq vs vs') : Value.array vs = Value.array vs' := by
  rw [List.forall₂_eq_eq_eq] at h
  rw [h]

def name (r : Rewording) (s s' : String) : Prop :=
  r.value (.string s) (.string s')

inductive Operates (r : Rewording) : Operation → Operation → Prop
  | intro {t u : Token} {op : BinaryOp} {right right' : Expr} :
      r.token t u → r.expr right right' → Operates r ⟨op, t.offset, right⟩ ⟨op, u.offset, right'⟩

theorem isOperator_eq (h : r.token t u) (symbol : String) : u.isOperator symbol = t.isOperator symbol := by
  rw [Token.isOperator, Token.isOperator, r.kind_eq h]
  by_cases hk : t.kind = .operator
  · rw [r.text_eq h (by simp [hk])]
  · simp [hk]

theorem isWord_eq (h : r.token t u) (word : String) : u.isWord word = t.isWord word := by
  rw [Token.isWord, Token.isWord, r.kind_eq h]
  by_cases hk : t.kind = .identifier
  · rw [r.text_eq h (by simp [hk])]
  · simp [hk]

theorem fold {chain chain' : List Operation} {first first' : Expr} (hfirst : r.expr first first')
    (h : List.Forall₂ r.Operates chain chain') :
    r.expr (Operation.fold first chain) (Operation.fold first' chain') := by
  refine Operation.fold_related (R := r.Operates) ?_ ?_ ?_ hfirst h
  · rintro _ _ ⟨_, _⟩
    rfl
  · rintro _ _ ⟨_, hright⟩
    exact hright
  · rintro _ _ _ _ _ _ ⟨ht, _⟩ hleft hright
    exact r.binary ht hleft hright

end Rewording

namespace Expr

variable {r : Rewording} {ts us : List Token}

theorem Literal.reworded {v : Value} (h : Literal ts v) (hu : List.Forall₂ r.token ts us) :
    ∃ v', Literal us v' ∧ r.value v v' := by
  cases h with
  | @boolean t hk =>
      obtain _ | ⟨ht, _ | _⟩ := hu
      refine ⟨_, .boolean ((r.kind_eq ht).trans hk), ?_⟩
      rw [r.text_eq ht (by simp [hk])]
      exact r.value_refl _
  | integer hk hn =>
      obtain _ | ⟨ht, _ | _⟩ := hu
      rw [← r.text_eq ht (by simp [hk])] at hn
      exact ⟨_, .integer ((r.kind_eq ht).trans hk) hn, r.value_refl _⟩
  | negative hs hk hn =>
      obtain _ | ⟨hsign, _ | ⟨ht, _ | _⟩⟩ := hu
      rw [← r.text_eq ht (by simp [hk])] at hn
      rw [← r.isOperator_eq hsign] at hs
      exact ⟨_, .negative hs ((r.kind_eq ht).trans hk) hn, r.value_refl _⟩
  | string hk =>
      obtain _ | ⟨ht, _ | _⟩ := hu
      exact ⟨_, .string ((r.kind_eq ht).trans hk), r.unquoted ht⟩
  | nil hk =>
      obtain _ | ⟨ht, _ | _⟩ := hu
      exact ⟨_, .nil ((r.kind_eq ht).trans hk), r.value_refl _⟩

mutual

theorem Constant.reworded {ts : List Token} {v : Value} : Constant ts v →
    ∀ us, List.Forall₂ r.token ts us → ∃ v', Constant us v' ∧ r.value v v'
  | .literal h => by
      intro us hu
      obtain ⟨v', h', hv⟩ := h.reworded hu
      exact ⟨v', .literal h', hv⟩
  | .emptyArray ho hc => by
      rintro _ (_ | ⟨hopening, _ | ⟨hclosing, _ | _⟩⟩)
      exact ⟨_, .emptyArray ((r.kind_eq hopening).trans ho) ((r.kind_eq hclosing).trans hc), r.value_refl _⟩
  | .array ho hc hi => by
      rintro _ (_ | ⟨hopening, hu⟩)
      obtain ⟨us, _, rfl, hus, _ | ⟨hclosing, _ | _⟩⟩ := hu.exists_append
      obtain ⟨vs', hi', hvs⟩ := hi.reworded us hus
      exact ⟨_, .array ((r.kind_eq hopening).trans ho) ((r.kind_eq hclosing).trans hc) hi', r.value_array hvs⟩

theorem Constants.reworded {ts : List Token} {vs : List Value} : Constants ts vs →
    ∀ us, List.Forall₂ r.token ts us → ∃ vs', Constants us vs' ∧ List.Forall₂ r.value vs vs'
  | .one h => by
      intro us hu
      obtain ⟨v', h', hv⟩ := h.reworded us hu
      exact ⟨_, .one h', .cons hv .nil⟩
  | .more h hc hr => by
      intro us hu
      obtain ⟨us, _, rfl, hus, _ | ⟨hcomma, hrest⟩⟩ := hu.exists_append
      obtain ⟨v', h', hv⟩ := h.reworded us hus
      obtain ⟨vs', hr', hvs⟩ := hr.reworded _ hrest
      exact ⟨_, .more h' ((r.kind_eq hcomma).trans hc) hr', .cons hv hvs⟩

end

theorem Arguments.reworded {many : Bool} {vs : List Value} (h : Arguments many ts vs)
    (hu : List.Forall₂ r.token ts us) : ∃ vs', Arguments many us vs' ∧ List.Forall₂ r.value vs vs' := by
  induction h generalizing us with
  | nil =>
      cases hu
      exact ⟨_, .nil, .nil⟩
  | one h =>
      obtain ⟨v', h', hv⟩ := h.reworded us hu
      exact ⟨_, .one h', .cons hv .nil⟩
  | more hm h hc _ ih =>
      obtain ⟨us, _, rfl, hus, _ | ⟨hcomma, hrest⟩⟩ := hu.exists_append
      obtain ⟨v', h', hv⟩ := h.reworded us hus
      obtain ⟨vs', hr', hvs⟩ := ih hrest
      exact ⟨_, .more hm h' ((r.kind_eq hcomma).trans hc) hr', .cons hv hvs⟩

theorem Filters.reworded {many : Bool} {e e' f : Expr} (h : Filters many e ts e')
    (hu : List.Forall₂ r.token ts us) (hf : r.expr e f) : ∃ f', Filters many f us f' ∧ r.expr e' f' := by
  induction h generalizing us f with
  | nil =>
      cases hu
      exact ⟨f, .nil, hf⟩
  | bare hb hn _ ih =>
      obtain _ | ⟨hbar, _ | ⟨hname, hrest⟩⟩ := hu
      obtain ⟨f', hr', hf'⟩ := ih hrest (r.pipe hname hf .nil)
      rw [← r.text_eq hname (by simp [hn])] at hr'
      exact ⟨f', .bare ((r.kind_eq hbar).trans hb) ((r.kind_eq hname).trans hn) hr', hf'⟩
  | applied hb hn hc ha _ ih =>
      obtain _ | ⟨hbar, _ | ⟨hname, _ | ⟨hcolon, hu⟩⟩⟩ := hu
      obtain ⟨us, _, rfl, hus, hrest⟩ := hu.exists_append
      obtain ⟨vs', ha', hvs⟩ := ha.reworded hus
      obtain ⟨f', hr', hf'⟩ := ih hrest (r.pipe hname hf hvs)
      rw [← r.text_eq hname (by simp [hn])] at hr'
      exact ⟨f', .applied ((r.kind_eq hbar).trans hb) ((r.kind_eq hname).trans hn) ((r.kind_eq hcolon).trans hc) ha'
        hr', hf'⟩

mutual

theorem Sentence.reworded {many : Bool} {ts : List Token} {e : Expr} : Sentence many ts e →
    ∀ us, List.Forall₂ r.token ts us → ∃ f, Sentence many us f ∧ r.expr e f
  | .chain hf hc hr => by
      intro us hu
      obtain ⟨us, _, rfl, hus, hu⟩ := hu.exists_append
      obtain ⟨ws, _, rfl, hws, hrest⟩ := hu.exists_append
      obtain ⟨first, hfirst, hfirst'⟩ := hf.reworded us hus
      obtain ⟨chain, hchain, hchain'⟩ := hc.reworded ws hws
      obtain ⟨f, hfilters, hf'⟩ := hr.reworded hrest (r.fold hfirst' hchain')
      exact ⟨f, .chain hfirst hchain hfilters, hf'⟩

theorem Operations.reworded {ts : List Token} {chain : List Operation} : Operations ts chain →
    ∀ us, List.Forall₂ r.token ts us → ∃ chain', Operations us chain' ∧ List.Forall₂ r.Operates chain chain'
  | .nil => by
      rintro _ (_ | _)
      exact ⟨[], .nil, .nil⟩
  | .cons hk hs ho hr => by
      rintro _ (_ | ⟨ht, hu⟩)
      obtain ⟨us, _, rfl, hus, hrest⟩ := hu.exists_append
      obtain ⟨right, hright, hright'⟩ := ho.reworded us hus
      obtain ⟨chain', hchain, hchain'⟩ := hr.reworded _ hrest
      rw [← r.text_eq ht (by simp [hk])] at hs
      exact ⟨_, .cons ((r.kind_eq ht).trans hk) hs hright hchain, .cons (.intro ht hright') hchain'⟩

theorem Operand.reworded {ts : List Token} {e : Expr} : Operand ts e →
    ∀ us, List.Forall₂ r.token ts us → ∃ f, Operand us f ∧ r.expr e f
  | .negation hs ho => by
      rintro _ (_ | ⟨ht, hu⟩)
      obtain ⟨f, hf, hf'⟩ := ho.reworded _ hu
      rw [← r.isOperator_eq ht, ← r.isOperator_eq ht] at hs
      exact ⟨_, .negation hs hf, r.negation ht hf'⟩
  | .primary hp ha => by
      intro us hu
      obtain ⟨us, _, rfl, hus, hrest⟩ := hu.exists_append
      obtain ⟨f, hf, hf'⟩ := hp.reworded us hus
      obtain ⟨f', haccesses, hf''⟩ := ha.reworded _ f hrest hf'
      exact ⟨f', .primary hf haccesses, hf''⟩

theorem Primary.reworded {ts : List Token} {e : Expr} : Primary ts e →
    ∀ us, List.Forall₂ r.token ts us → ∃ f, Primary us f ∧ r.expr e f
  | .variable hk => by
      rintro _ (_ | ⟨ht, _ | _⟩)
      rw [← r.text_eq ht (by simp [hk])]
      exact ⟨_, .variable ((r.kind_eq ht).trans hk), r.variable ht⟩
  | .literal h => by
      rintro us hu
      obtain ⟨v', h', hv⟩ := h.reworded hu
      obtain _ | ⟨ht, _⟩ := hu
      exact ⟨_, .literal h', r.literal ht hv⟩
  | .emptyArray ho hc => by
      rintro _ (_ | ⟨hopening, _ | ⟨hclosing, _ | _⟩⟩)
      exact ⟨_, .emptyArray ((r.kind_eq hopening).trans ho) ((r.kind_eq hclosing).trans hc), r.array hopening .nil⟩
  | .array ho hc hi => by
      rintro _ (_ | ⟨hopening, hu⟩)
      obtain ⟨us, _, rfl, hus, _ | ⟨hclosing, _ | _⟩⟩ := hu.exists_append
      obtain ⟨fs, hfs, hfs'⟩ := hi.reworded us hus
      exact ⟨_, .array ((r.kind_eq hopening).trans ho) ((r.kind_eq hclosing).trans hc) hfs, r.array hopening hfs'⟩

theorem Accesses.reworded {ts : List Token} {e e' : Expr} : Accesses e ts e' →
    ∀ us f, List.Forall₂ r.token ts us → r.expr e f → ∃ f', Accesses f us f' ∧ r.expr e' f'
  | .nil => by
      rintro _ f (_ | _) hf
      exact ⟨f, .nil, hf⟩
  | .member hd hn hr => by
      rintro _ f (_ | ⟨hdot, _ | ⟨hname, hrest⟩⟩) hf
      obtain ⟨f', ha, hf'⟩ := hr.reworded _ _ hrest (r.member hname hf)
      rw [← r.text_eq hname (by simp [hn])] at ha
      exact ⟨f', .member ((r.kind_eq hdot).trans hd) ((r.kind_eq hname).trans hn) ha, hf'⟩
  | .index ho hc hi hr => by
      rintro _ f (_ | ⟨hopening, hu⟩) hf
      obtain ⟨us, _, rfl, hus, _ | ⟨hclosing, hrest⟩⟩ := hu.exists_append
      obtain ⟨key, hkey, hkey'⟩ := hi.reworded us hus
      obtain ⟨f', ha, hf'⟩ := hr.reworded _ _ hrest (r.index hopening hf hkey')
      exact ⟨f', .index ((r.kind_eq hopening).trans ho) ((r.kind_eq hclosing).trans hc) hkey ha, hf'⟩

theorem Items.reworded {ts : List Token} {es : List Expr} : Items ts es →
    ∀ us, List.Forall₂ r.token ts us → ∃ fs, Items us fs ∧ List.Forall₂ r.expr es fs
  | .one h => by
      intro us hu
      obtain ⟨f, hf, hf'⟩ := h.reworded us hu
      exact ⟨[f], .one hf, .cons hf' .nil⟩
  | .more h hc hr => by
      intro us hu
      obtain ⟨us, _, rfl, hus, _ | ⟨hcomma, hrest⟩⟩ := hu.exists_append
      obtain ⟨f, hf, hf'⟩ := h.reworded us hus
      obtain ⟨fs, hfs, hfs'⟩ := hr.reworded _ hrest
      exact ⟨_, .more hf ((r.kind_eq hcomma).trans hc) hfs, .cons hf' hfs'⟩

end

end Expr

/-- Tokens that correspond are read as expressions that correspond. -/
theorem Rewording.read (r : Rewording) {ts us : List Token} {stop : Nat} {e : Expr}
    (h : Expr.ofTokens ts stop = .ok e) (hu : List.Forall₂ r.token ts us) (stop' : Nat) :
    ∃ f, Expr.ofTokens us stop' = .ok f ∧ r.expr e f := by
  obtain ⟨f, hf, hf'⟩ := (Expr.ofTokens_ok_iff.1 h).reworded us hu
  exact ⟨f, Expr.ofTokens_ok_iff.2 hf, hf'⟩

end Stencil

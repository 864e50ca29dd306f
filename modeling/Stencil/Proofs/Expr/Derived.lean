import Stencil.Proofs.Expr.Constant
import Stencil.Proofs.Expr.Phrase

namespace Stencil

theorem exists_integer?_iff {n : Int} :
    (∃ k, integer? n = some k) ↔ Int64.minValue.toInt ≤ n ∧ n ≤ Int64.maxValue.toInt := by
  rw [integer?]
  split
  next h => exact ⟨fun _ => h, fun _ => ⟨_, rfl⟩⟩
  next h =>
    constructor
    · rintro ⟨k, ⟨⟩⟩
    · exact fun hn => absurd hn h

theorem BinaryOp.exists_ofSymbol?_iff {s : String} :
    (∃ op, BinaryOp.ofSymbol? s = some op) ↔ s ∈ Phrase.binarySymbols := by
  constructor
  · rintro ⟨op, h⟩
    unfold BinaryOp.ofSymbol? at h
    split at h
    case h_15 => cases h
    all_goals decide
  · intro h
    simp only [Phrase.binarySymbols, List.mem_cons, List.not_mem_nil, or_false] at h
    rcases h with rfl | rfl | rfl | rfl | rfl | rfl | rfl | rfl | rfl | rfl | rfl | rfl | rfl | rfl <;>
      exact ⟨_, rfl⟩

namespace Expr

variable {ts rest : List Token} {many : Bool}

theorem Filters.append {e e' e'' : Expr} (h : Filters many e ts e') (hr : Filters many e' rest e'') :
    Filters many e (ts ++ rest) e'' := by
  induction h with
  | nil => exact hr
  | bare hb hn _ ih => exact .bare hb hn (ih hr)
  | applied hb hn hc ha _ ih =>
      have h := Filters.applied hb hn hc ha (ih hr)
      rwa [← List.append_assoc] at h

theorem Sentence.append {e e' : Expr} (h : Sentence many ts e) (hr : Filters many e rest e') :
    Sentence many (ts ++ rest) e' := by
  cases h with
  | chain hf hc hp =>
      rw [List.append_assoc, List.append_assoc]
      exact .chain hf hc (hp.append hr)

theorem Arguments.of_constants {ts : List Token} {vs : List Value} (h : Constants ts vs) : Arguments true ts vs := by
  cases h with
  | one h => exact .one h
  | more h hc hr => exact .more rfl h hc (of_constants hr)

end Expr

namespace Phrase

variable {ts front rest : List Token}

theorem Literal.exists_value (h : Literal ts) : ∃ v, Expr.Literal ts v := by
  cases h with
  | boolean hk => exact ⟨_, .boolean hk⟩
  | nil hk => exact ⟨_, .nil hk⟩
  | string hk => exact ⟨_, .string hk⟩
  | integer hk hn =>
      have hmin : Int64.minValue.toInt ≤ 0 := by decide
      obtain ⟨k, hk'⟩ := exists_integer?_iff.2 ⟨by omega, hn⟩
      exact ⟨_, .integer hk hk'⟩
  | negative hs hk hn =>
      have hmax : 0 ≤ Int64.maxValue.toInt := by decide
      obtain ⟨k, hk'⟩ := exists_integer?_iff.2 ⟨hn, by omega⟩
      exact ⟨_, .negative hs hk hk'⟩

mutual

theorem Constant.exists_value {ts : List Token} : Constant ts → ∃ v, Expr.Constant ts v
  | .literal h => by
      obtain ⟨v, h⟩ := h.exists_value
      exact ⟨_, .literal h⟩
  | .emptyArray ho hc => ⟨_, .emptyArray ho hc⟩
  | .array ho hc hi => by
      obtain ⟨vs, hi⟩ := hi.exists_values
      exact ⟨_, .array ho hc hi⟩

theorem Constants.exists_values {ts : List Token} : Constants ts → ∃ vs, Expr.Constants ts vs
  | .one h => by
      obtain ⟨v, h⟩ := h.exists_value
      exact ⟨_, .one h⟩
  | .more h hc hr => by
      obtain ⟨v, h⟩ := h.exists_value
      obtain ⟨vs, hr⟩ := hr.exists_values
      exact ⟨_, .more h hc hr⟩

end

theorem Filters.exists_expr (h : Filters ts) : ∀ e, ∃ e', Expr.Filters true e ts e' := by
  induction h with
  | nil => exact fun e => ⟨e, .nil⟩
  | cons hb hf _ ih =>
      intro e
      cases hf with
      | bare hn =>
          obtain ⟨e', h⟩ := ih _
          exact ⟨e', .bare hb hn h⟩
      | applied hn hc ha =>
          obtain ⟨vs, ha⟩ := ha.exists_values
          obtain ⟨e', h⟩ := ih _
          exact ⟨e', .applied hb hn hc (.of_constants ha) h⟩

theorem Constant.exists_sentence (h : Constant ts) : ∃ e, Expr.Sentence false ts e := by
  obtain ⟨v, hv⟩ := h.exists_value
  obtain ⟨e, he, -⟩ := hv.exists_primary
  exact ⟨e, he.sentence⟩

def ItemsGoOn (rest : List Token) : Prop :=
  ∀ ts e, Expr.Sentence false ts e → ∃ es, Expr.Items (ts ++ rest) es

theorem itemsGoOn_nil : ItemsGoOn [] := by
  intro ts e he
  rw [List.append_nil]
  exact ⟨_, .one he⟩

/-- Where a comma ends the item of an array, the constants behind it are items of their own. -/
theorem Constants.exists_items {rest : List Token} (hrest : ItemsGoOn rest) {ts : List Token} :
    Constants ts → ∀ front : List Token, (∀ c, Constant c → ∃ e, Expr.Sentence false (front ++ c) e) →
      ∃ es, Expr.Items (front ++ (ts ++ rest)) es
  | .one h, _, hfront => by
      obtain ⟨e, he⟩ := hfront _ h
      rw [← List.append_assoc]
      exact hrest _ e he
  | .more h hc hr, _, hfront => by
      obtain ⟨e, he⟩ := hfront _ h
      obtain ⟨es, hes⟩ := hr.exists_items hrest [] fun c hc => hc.exists_sentence
      rw [List.append_assoc, List.cons_append, ← List.append_assoc]
      exact ⟨_, .more he hc hes⟩

theorem Filters.itemsGoOn (h : Filters ts) (hrest : ItemsGoOn rest) : ItemsGoOn (ts ++ rest) := by
  induction h with
  | nil => exact hrest
  | @cons bar fs more hb hf _ ih =>
      intro us e he
      rw [List.cons_append, List.append_assoc]
      cases hf with
      | @bare name hn =>
          obtain ⟨es, hes⟩ := ih _ _ (he.append (.bare hb hn .nil))
          rw [List.append_assoc] at hes
          exact ⟨es, hes⟩
      | @applied name colon cs hn hc ha =>
          have hfront : ∀ c, Constant c → ∃ e, Expr.Sentence false (us ++ [bar, name, colon] ++ c) e := by
            intro c hconstant
            obtain ⟨v, hv⟩ := hconstant.exists_value
            have hs := he.append (.applied hb hn hc (.one hv) .nil)
            rw [List.append_nil] at hs
            rw [List.append_assoc]
            exact ⟨_, hs⟩
          obtain ⟨es, hes⟩ := ha.exists_items ih _ hfront
          rw [List.append_assoc] at hes
          exact ⟨es, hes⟩

mutual

theorem Expression.exists_sentence {ts : List Token} : Expression ts → ∃ e, Expr.Sentence true ts e
  | .chain hf hc hr => by
      obtain ⟨first, hf⟩ := hf.exists_expr
      obtain ⟨chain, hc⟩ := hc.exists_chain
      obtain ⟨e, hr⟩ := hr.exists_expr (Operation.fold first chain)
      exact ⟨e, .chain hf hc hr⟩

/-- An expression between the commas of an array, where its last filter ends with its first argument. -/
theorem Expression.exists_items {ts : List Token} : Expression ts → ∀ rest, ItemsGoOn rest →
    ∃ es, Expr.Items (ts ++ rest) es
  | .chain hf hc hr => by
      intro rest hrest
      obtain ⟨first, hf⟩ := hf.exists_expr
      obtain ⟨chain, hc⟩ := hc.exists_chain
      obtain ⟨es, hes⟩ := hr.itemsGoOn hrest _ _ (.chain hf hc .nil)
      rw [List.append_nil, List.append_assoc] at hes
      rw [List.append_assoc, List.append_assoc]
      exact ⟨es, hes⟩

theorem Operations.exists_chain {ts : List Token} : Operations ts → ∃ chain, Expr.Operations ts chain
  | .nil => ⟨_, .nil⟩
  | .cons ht ho hr => by
      obtain ⟨op, hop⟩ := BinaryOp.exists_ofSymbol?_iff.2 ht.2
      obtain ⟨right, ho⟩ := ho.exists_expr
      obtain ⟨chain, hr⟩ := hr.exists_chain
      exact ⟨_, .cons ht.1 hop ho hr⟩

theorem Operand.exists_expr {ts : List Token} : Operand ts → ∃ e, Expr.Operand ts e
  | .negation ht ho => by
      obtain ⟨e, ho⟩ := ho.exists_expr
      exact ⟨_, .negation ht ho⟩
  | .primary hp ha => by
      obtain ⟨e, hp⟩ := hp.exists_expr
      obtain ⟨e', ha⟩ := ha.exists_expr e
      exact ⟨e', .primary hp ha⟩

theorem Accesses.exists_expr {ts : List Token} : Accesses ts → ∀ e, ∃ e', Expr.Accesses e ts e'
  | .nil => fun e => ⟨e, .nil⟩
  | .member hd hn hr => by
      intro e
      obtain ⟨e', hr⟩ := hr.exists_expr _
      exact ⟨e', .member hd hn hr⟩
  | .index ho hc hi hr => by
      intro e
      obtain ⟨key, hi⟩ := hi.exists_sentence
      obtain ⟨e', hr⟩ := hr.exists_expr _
      exact ⟨e', .index ho hc hi hr⟩

theorem Primary.exists_expr {ts : List Token} : Primary ts → ∃ e, Expr.Primary ts e
  | .variable hk => ⟨_, .variable hk⟩
  | .literal h => by
      obtain ⟨v, hv⟩ := h.exists_value
      obtain ⟨e, he, -⟩ := (Expr.Constant.literal hv).exists_primary
      exact ⟨e, he⟩
  | .emptyArray ho hc => ⟨_, .emptyArray ho hc⟩
  | .array ho hc hi => by
      obtain ⟨es, hi⟩ := hi.exists_items
      exact ⟨_, .array ho hc hi⟩

theorem Items.exists_items {ts : List Token} : Items ts → ∃ es, Expr.Items ts es
  | .one h => by
      obtain ⟨es, hes⟩ := h.exists_items [] itemsGoOn_nil
      rw [List.append_nil] at hes
      exact ⟨es, hes⟩
  | .more h hc hr => by
      obtain ⟨es, hes⟩ := hr.exists_items
      exact h.exists_items _ fun us e he => ⟨_, .more he hc hes⟩

end

end Phrase

end Stencil

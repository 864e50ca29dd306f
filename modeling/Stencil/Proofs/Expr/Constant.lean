import Mathlib
import Stencil.Expr.Eval
import Stencil.Proofs.Expr.Completeness
import Stencil.Proofs.Expr.Fold

namespace Stencil

namespace Expr

mutual

/-- What a tree of literals and arrays stands for. No other tree has a value of its own. -/
def constant? : Expr → Option Value
  | .literal v _ => some v
  | .array items _ => (constants? items).map .array
  | .variable _ _ => none
  | .member _ _ _ => none
  | .index _ _ _ => none
  | .binary _ _ _ _ => none
  | .negation _ _ => none
  | .pipe _ _ _ _ => none

def constants? : List Expr → Option (List Value)
  | [] => some []
  | e :: rest => do return (← constant? e) :: (← constants? rest)

end

variable {ts rest : List Token} {many : Bool} {e e' : Expr} {v : Value}

theorem constants?_cons_eq_some_iff {es : List Expr} {vs : List Value} :
    constants? (e :: es) = some vs ↔ ∃ v ws, constant? e = some v ∧ constants? es = some ws ∧ v :: ws = vs := by
  rw [constants?]
  cases constant? e <;> cases constants? es <;> simp

mutual

theorem eval_of_constant? (env : Environment) : (e : Expr) → ∀ v, e.constant? = some v → e.eval env = .ok v
  | .literal w _ => by
      intro v h
      rw [eval, Option.some.inj h]
  | .array items _ => by
      intro v h
      obtain ⟨vs, hvs, rfl⟩ := Option.map_eq_some_iff.1 h
      rw [eval, evalAll_of_constants? env items vs hvs]
      rfl
  | .variable _ _ | .member _ _ _ | .index _ _ _ | .binary _ _ _ _ | .negation _ _ | .pipe _ _ _ _ => nofun

theorem evalAll_of_constants? (env : Environment) : (es : List Expr) →
    ∀ vs, constants? es = some vs → evalAll env es = .ok vs
  | [] => by
      intro vs h
      rw [evalAll, Option.some.inj h]
  | e :: es => by
      intro vs h
      obtain ⟨v, ws, hv, hws, rfl⟩ := constants?_cons_eq_some_iff.1 h
      rw [evalAll, eval_of_constant? env e v hv, evalAll_of_constants? env es ws hws]
      rfl

end

theorem Operand.sentence (h : Operand ts e) : Sentence many ts e := by
  have hs : Filters many (Operation.fold e []) [] e := by
    rw [Operation.fold_of_none rfl]
    exact .nil
  have h := Sentence.chain h .nil hs
  rwa [List.append_nil, List.append_nil] at h

theorem Primary.sentence (h : Primary ts e) : Sentence many ts e := by
  have ho := Operand.primary h .nil
  rw [List.append_nil] at ho
  exact ho.sentence

mutual

/-- A constant is an operand by itself, with the same value. -/
theorem Constant.exists_primary {ts : List Token} {v : Value} :
    Constant ts v → ∃ e, Primary ts e ∧ e.constant? = some v
  | .literal h => by
      cases ts with
      | nil => cases h
      | cons => exact ⟨_, .literal h, rfl⟩
  | .emptyArray ho hc => ⟨_, .emptyArray ho hc, rfl⟩
  | .array ho hc hi => by
      obtain ⟨es, hi, hvs⟩ := hi.exists_items
      exact ⟨_, .array ho hc hi, by rw [constant?, hvs]; rfl⟩

theorem Constants.exists_items {ts : List Token} {vs : List Value} :
    Constants ts vs → ∃ es, Items ts es ∧ constants? es = some vs
  | .one h => by
      obtain ⟨e, h, hv⟩ := h.exists_primary
      exact ⟨[e], .one h.sentence, constants?_cons_eq_some_iff.2 ⟨_, [], hv, rfl, rfl⟩⟩
  | .more h hc hr => by
      obtain ⟨e, h, hv⟩ := h.exists_primary
      obtain ⟨es, hr, hvs⟩ := hr.exists_items
      exact ⟨e :: es, .more h.sentence hc hr, constants?_cons_eq_some_iff.2 ⟨_, _, hv, hvs, rfl⟩⟩

end

theorem Filters.of_constant? (h : Filters many e ts e') (hv : e'.constant? = some v) : ts = [] ∧ e = e' := by
  induction h with
  | nil => exact ⟨rfl, rfl⟩
  | bare _ _ _ ih | applied _ _ _ _ _ ih =>
      obtain ⟨-, rfl⟩ := ih hv
      cases hv

theorem Accesses.of_constant? {ts : List Token} {e e' : Expr} :
    Accesses e ts e' → e'.constant? = some v → ts = [] ∧ e = e'
  | .nil, _ => ⟨rfl, rfl⟩
  | .member _ _ hr, hv => by
      obtain ⟨-, rfl⟩ := hr.of_constant? hv
      cases hv
  | .index _ _ _ hr, hv => by
      obtain ⟨-, rfl⟩ := hr.of_constant? hv
      cases hv

theorem fold_of_constant? {first : Expr} {chain : List Operation}
    (hv : (Operation.fold first chain).constant? = some v) : chain = [] := by
  cases h : Operation.splitLoosest chain with
  | none => exact Operation.eq_nil_of_splitLoosest h
  | some parts =>
      obtain ⟨before, pivot, after⟩ := parts
      rw [Operation.fold_of_some h] at hv
      cases hv

mutual

/-- Of a tree of literals and arrays all tokens belong to the constant. -/
theorem Sentence.constant {many : Bool} {ts : List Token} {e : Expr} :
    Sentence many ts e → ∀ v, e.constant? = some v → Constant ts v
  | .chain hf hc hr => by
      have ih := hf.constant
      intro v hv
      -- a filter or an operator would be the root of the tree
      obtain ⟨rfl, rfl⟩ := hr.of_constant? hv
      obtain rfl := fold_of_constant? hv
      cases hc
      rw [Operation.fold_of_none rfl] at hv
      rw [List.append_nil, List.append_nil]
      exact ih v hv

theorem Operand.constant {ts : List Token} {e : Expr} : Operand ts e → ∀ v, e.constant? = some v → Constant ts v
  | .negation _ _ => nofun
  | .primary hp ha => by
      have ih := hp.constant
      intro v hv
      obtain ⟨rfl, rfl⟩ := ha.of_constant? hv
      rw [List.append_nil]
      exact ih v hv

theorem Primary.constant {ts : List Token} {e : Expr} : Primary ts e → ∀ v, e.constant? = some v → Constant ts v
  | .variable _ => nofun
  | .literal h => by
      intro v hv
      obtain rfl := Option.some.inj hv
      exact .literal h
  | .emptyArray ho hc => by
      intro v hv
      obtain rfl := Option.some.inj hv
      exact .emptyArray ho hc
  | .array ho hc hi => by
      have ih := hi.constants
      intro v hv
      obtain ⟨vs, hvs, rfl⟩ := Option.map_eq_some_iff.1 hv
      exact .array ho hc (ih vs hvs)

theorem Items.constants {ts : List Token} {es : List Expr} :
    Items ts es → ∀ vs, constants? es = some vs → Constants ts vs
  | .one h => by
      have ih := h.constant
      intro vs hvs
      obtain ⟨v, ws, hv, hws, rfl⟩ := constants?_cons_eq_some_iff.1 hvs
      obtain rfl := Option.some.inj hws
      exact .one (ih v hv)
  | .more h hc hr => by
      have ih := h.constant
      have ih_rest := hr.constants
      intro vs hvs
      obtain ⟨v, ws, hv, hws, rfl⟩ := constants?_cons_eq_some_iff.1 hvs
      exact .more (ih v hv) hc (ih_rest ws hws)

end

theorem constant_ok_iff {stop : Nat} : unbounded (constant ts stop) = .ok (v, []) ↔ Constant ts v := by
  constructor
  · intro h
    obtain ⟨⟨w, rest⟩, hread, he⟩ := Except.of_map_ok h
    obtain ⟨rfl, hrest⟩ := Prod.mk.inj he
    obtain ⟨front, hfront, hconstant⟩ := constant_sound ts stop w rest hread
    rw [hrest, List.append_nil] at hfront
    rwa [hfront]
  · intro h
    have hread := h.complete [] stop
    rwa [List.append_nil] at hread

/-- What is read as a constant up to the end is read as an expression of literals and arrays with the same value,
and the other way round. Such an expression evaluates to its value wherever it stands. -/
theorem constant_iff_expression (ts : List Token) (stop stop' : Nat) (v : Value) :
    (unbounded (constant ts stop) = .ok (v, []) ↔ ∃ e, ofTokens ts stop' = .ok e ∧ e.constant? = some v) ∧
      ∀ e : Expr, e.constant? = some v → ∀ env, e.eval env = .ok v := by
  refine ⟨?_, fun e he env => eval_of_constant? env e v he⟩
  rw [constant_ok_iff]
  constructor
  · intro h
    obtain ⟨e, hp, he⟩ := h.exists_primary
    exact ⟨e, ofTokens_ok_iff.2 hp.sentence, he⟩
  · rintro ⟨e, hs, he⟩
    exact (ofTokens_ok_iff.1 hs).constant v he

/-- The least integer, an empty array, and a string in an array in an array. -/
theorem constant_iff_expression_nested :
    let e : Expr := .array [.literal (.int Int64.minValue) 1, .array [] 23,
      .array [.array [.literal (.string "a") 29] 28] 27] 0
    let v : Value := .array [.int Int64.minValue, .array [], .array [.array [.string "a"]]]
    ∃ ts, tokenize "[-9223372036854775808, [], [['a']]]" 0 35 = .ok ts ∧ ofTokens ts 35 = .ok e ∧
      e.constant? = some v ∧ unbounded (constant ts 35) = .ok (v, []) ∧ ∀ env, e.eval env = .ok v := by
  intro e v
  have hscan : ∃ ts, tokenize "[-9223372036854775808, [], [['a']]]" 0 35 = .ok ts ∧ ofTokens ts 35 = .ok e :=
    ⟨_, by cbv, by cbv⟩
  obtain ⟨ts, hts, he⟩ := hscan
  obtain ⟨hread, heval⟩ := constant_iff_expression ts 35 35 v
  exact ⟨ts, hts, he, rfl, hread.2 ⟨e, he, rfl⟩, heval e rfl⟩

end Expr

end Stencil

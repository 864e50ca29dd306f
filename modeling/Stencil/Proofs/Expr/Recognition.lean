import Mathlib
import Stencil.Proofs.Expr.Derived

namespace Stencil.Expr

open Phrase (Dangling EndsItem)

variable {ts after : List Token} {many : Bool}

theorem Literal.phrase {v : Value} (h : Literal ts v) : Phrase.Literal ts := by
  cases h with
  | boolean hk => exact .boolean hk
  | integer hk hn =>
      obtain ⟨-, hn⟩ := exists_integer?_iff.1 ⟨_, hn⟩
      exact .integer hk hn
  | negative hs hk hn =>
      obtain ⟨hn, -⟩ := exists_integer?_iff.1 ⟨_, hn⟩
      exact .negative hs hk hn
  | string hk => exact .string hk
  | nil hk => exact .nil hk

mutual

theorem Constant.phrase {ts : List Token} {v : Value} : Constant ts v → Phrase.Constant ts
  | .literal h => .literal h.phrase
  | .emptyArray ho hc => .emptyArray ho hc
  | .array ho hc hi => .array ho hc hi.phrase

theorem Constants.phrase {ts : List Token} {vs : List Value} : Constants ts vs → Phrase.Constants ts
  | .one h => .one h.phrase
  | .more h hc hr => .more h.phrase hc hr.phrase

end

theorem Arguments.phrase {vs : List Value} (h : Arguments many ts vs) :
    ∀ separator : Token, Phrase.IsSeparator separator → ¬Dangling (separator :: (ts ++ after)) →
      EndsItem after → Phrase.Constants ts := by
  induction h with
  | nil => exact fun separator hs hd ha => absurd (Phrase.dangling_cons_iff.2 (.inl ⟨hs, ha⟩)) hd
  | one h => exact fun _ _ _ _ => .one h.phrase
  | @more ts rest comma v vs _ h hc _ ih =>
      intro separator _ hd ha
      refine .more h.phrase hc (ih comma (.inr hc) (fun hr => hd ?_) ha)
      rw [List.append_assoc]
      exact hr.append_left (separator :: ts)

theorem Filters.endsItem {e e' : Expr} (h : Filters many e ts e') (ha : EndsItem after) :
    EndsItem (ts ++ after) := by
  cases h with
  | nil => exact ha
  | bare hb | applied hb =>
      intro t ht
      obtain rfl := Option.some.inj ht
      exact .inl hb

theorem Filters.phrase {e e' : Expr} (h : Filters many e ts e') (hd : ¬Dangling (ts ++ after))
    (ha : EndsItem after) : Phrase.Filters ts := by
  induction h with
  | nil => exact .nil
  | @bare _ _ bar name rest hb hn hr ih =>
      have hrest : Phrase.Filters rest := ih fun h => hd (h.append_left [bar, name])
      exact .cons hb (.bare hn) hrest
  | @applied _ _ bar name colon ts rest vs hb hn hc hargs hr ih =>
      have hd : ¬Dangling (bar :: name :: colon :: (ts ++ (rest ++ after))) := by
        rwa [← List.append_assoc]
      have hrest : Phrase.Filters rest := ih fun h => hd (h.append_left (bar :: name :: colon :: ts))
      have hts : Phrase.Constants ts :=
        hargs.phrase colon (.inl hc) (fun h => hd (h.append_left [bar, name])) (hr.endsItem ha)
      exact .cons hb (.applied hn hc hts) hrest

mutual

theorem Sentence.phrase {many : Bool} {ts after : List Token} {e : Expr} :
    Sentence many ts e → ¬Dangling (ts ++ after) → EndsItem after → Phrase.Expression ts
  | @Sentence.chain _ ts more rest _ _ _ hf hc hr, hd, ha => by
      rw [List.append_assoc, List.append_assoc] at hd
      have hmore : ¬Dangling (more ++ (rest ++ after)) := fun h => hd (h.append_left ts)
      have hrest : ¬Dangling (rest ++ after) := fun h => hmore (h.append_left more)
      exact .chain (hf.phrase hd) (hc.phrase hmore) (hr.phrase hrest ha)

theorem Operations.phrase {ts after : List Token} {chain : List Operation} :
    Operations ts chain → ¬Dangling (ts ++ after) → Phrase.Operations ts
  | .nil, _ => .nil
  | @Operations.cons t _ ts more _ _ hk hop ho hr, hd => by
      rw [List.cons_append, List.append_assoc] at hd
      have hts : ¬Dangling (ts ++ (more ++ after)) := fun h => hd (h.append_left [t])
      have hmore : ¬Dangling (more ++ after) := fun h => hts (h.append_left ts)
      exact .cons ⟨hk, BinaryOp.exists_ofSymbol?_iff.1 ⟨_, hop⟩⟩ (ho.phrase hts) (hr.phrase hmore)

theorem Operand.phrase {ts after : List Token} {e : Expr} :
    Operand ts e → ¬Dangling (ts ++ after) → Phrase.Operand ts
  | @Operand.negation t _ _ ht ho, hd => .negation ht (ho.phrase fun h => hd (h.append_left [t]))
  | @Operand.primary ts _ _ _ hp ha, hd => by
      rw [List.append_assoc] at hd
      exact .primary (hp.phrase hd) (ha.phrase fun h => hd (h.append_left ts))

theorem Primary.phrase {ts after : List Token} {e : Expr} :
    Primary ts e → ¬Dangling (ts ++ after) → Phrase.Primary ts
  | .variable hk, _ => .variable hk
  | .literal h, _ => .literal h.phrase
  | .emptyArray ho hc, _ => .emptyArray ho hc
  | @Primary.array opening closing inner _ ho hc hi, hd => by
      have hinner : ¬Dangling (inner ++ closing :: after) := by
        intro h
        rw [List.cons_append, List.append_assoc] at hd
        exact hd (h.append_left [opening])
      exact .array ho hc (hi.phrase hinner (Phrase.endsItem_cons (.inr (.inr hc))))

theorem Accesses.phrase {ts after : List Token} {e e' : Expr} :
    Accesses e ts e' → ¬Dangling (ts ++ after) → Phrase.Accesses ts
  | .nil, _ => .nil
  | @Accesses.member _ _ dot name _ hdot hn hr, hd =>
      .member hdot hn (hr.phrase fun h => hd (h.append_left [dot, name]))
  | @Accesses.index _ _ _ opening closing inner rest ho hc hi hr, hd => by
      rw [List.cons_append, List.append_assoc, List.cons_append] at hd
      have hinner : ¬Dangling (inner ++ closing :: (rest ++ after)) := fun h => hd (h.append_left [opening])
      have hrest : ¬Dangling (rest ++ after) := fun h => hinner ((h.append_left [closing]).append_left inner)
      exact .index ho hc (hi.phrase hinner (Phrase.endsItem_cons (.inr (.inr hc)))) (hr.phrase hrest)

theorem Items.phrase {ts after : List Token} {es : List Expr} :
    Items ts es → ¬Dangling (ts ++ after) → EndsItem after → Phrase.Items ts
  | .one h, hd, ha => .one (h.phrase hd ha)
  | @Items.more ts rest comma _ _ h hc hr, hd, ha => by
      rw [List.append_assoc, List.cons_append] at hd
      have hrest : ¬Dangling (rest ++ after) := fun h => hd ((h.append_left [comma]).append_left ts)
      exact .more (h.phrase hd (Phrase.endsItem_cons (.inr (.inl hc)))) hc (hr.phrase hrest ha)

end

/-- Read are the sentences of the written grammar, and besides them only lists with a colon or a comma that
introduces nothing. -/
theorem expression_iff_read (ts : List Token) (stop : Nat) :
    Phrase.Expression ts ↔ (∃ e, ofTokens ts stop = .ok e) ∧ ¬Dangling ts := by
  constructor
  · intro h
    obtain ⟨e, he⟩ := h.exists_sentence
    exact ⟨⟨e, ofTokens_ok_iff.2 he⟩, h.not_dangling⟩
  · rintro ⟨⟨e, he⟩, hd⟩
    have hend : ¬Dangling (ts ++ []) := by rwa [List.append_nil]
    exact (ofTokens_ok_iff.1 he).phrase hend Phrase.endsItem_nil

/-- A filter is read with a colon that no constant follows. -/
theorem dangling_colon_read : ∃ ts e, tokenize "x | f:" 0 6 = .ok ts ∧ ofTokens ts 6 = .ok e ∧
    ¬Phrase.Expression ts := by
  have h : ∃ ts, tokenize "x | f:" 0 6 = .ok ts ∧
      ofTokens ts 6 = .ok (.pipe (.variable "x" 0) "f" [] 4) ∧ ts.getLast?.any (·.kind = .colon) :=
    ⟨_, by cbv, by cbv, by cbv⟩
  obtain ⟨ts, ht, he, hlast⟩ := h
  refine ⟨ts, _, ht, he, fun hphrase => hphrase.not_dangling ?_⟩
  obtain ⟨colon, hcolon, hkind⟩ := (Option.any_eq_true ..).1 hlast
  obtain ⟨before, rfl⟩ := List.getLast?_eq_some_iff.1 hcolon
  exact ⟨before, colon, [], rfl, .inl (of_decide_eq_true hkind), Phrase.endsItem_nil⟩

end Stencil.Expr

import Mathlib
import Stencil.Proofs.Expr.Neighbours
import Stencil.Proofs.Node.Spelling

namespace Stencil

inductive AssignTarget.NamedBy : AssignTarget → Token → Prop
  | includer {t : Token} : t.isWord "parent_scope" → NamedBy .includer t
  | everywhere {t : Token} : t.isWord "global" → NamedBy .everywhere t

namespace Instruction

variable {ts front : List Token} {target : AssignTarget} {last : Token}

theorem selector?_eq_some_iff : selector? last = some target ↔ target.NamedBy last := by
  rw [selector?]
  constructor
  · intro h
    split at h
    next hw =>
      cases h
      exact .includer hw
    split at h
    next hw =>
      cases h
      exact .everywhere hw
    next => cases h
  · rintro (hw | hw)
    · exact if_pos hw
    · have hne : ¬last.isWord "parent_scope" := by
        rw [Token.isWord_iff, (Token.isWord_iff.1 hw).2]
        exact fun h => absurd h.2 (by decide)
      rw [if_neg hne, if_pos hw]

theorem kind_of_namedBy (h : target.NamedBy last) : last.kind = .identifier := by
  cases h with
  | includer hw | everywhere hw => exact (Token.isWord_iff.1 hw).1

/-- The last token and the one before it decide. -/
theorem splitSelector_append (front : List Token) (before last : Token) :
    splitSelector (front ++ [before, last]) = match selector? last with
      | some target =>
          if continues before.kind then (.here, front ++ [before, last]) else (target, front ++ [before])
      | none => (.here, front ++ [before, last]) := by
  have hreverse : (front ++ [before, last]).reverse = last :: before :: front.reverse := by simp
  have hdrop : (front ++ [before, last]).dropLast = front ++ [before] := by
    rw [List.append_cons, List.dropLast_concat]
  rw [splitSelector, hreverse]
  show (match selector? last with
    | some target =>
        if continues before.kind then (AssignTarget.here, front ++ [before, last])
        else (target, (front ++ [before, last]).dropLast)
    | none => (AssignTarget.here, front ++ [before, last])) = _
  rw [hdrop]

theorem splitSelector_short (h : ts.length ≤ 1) : splitSelector ts = (.here, ts) := by
  match ts, h with
  | [], _ => rfl
  | [t], _ => rfl

theorem exists_append_of_length (h : ¬ts.length ≤ 1) : ∃ front before last, ts = front ++ [before, last] := by
  rcases List.eq_nil_or_concat' ts with rfl | ⟨us, last, rfl⟩
  · exact absurd (Nat.zero_le 1) h
  rcases List.eq_nil_or_concat' us with rfl | ⟨front, before, rfl⟩
  · exact absurd (Nat.le_refl 1) h
  · exact ⟨front, before, last, by simp⟩

/-- Nothing is cut from an expression: before its last name it goes on. -/
theorem splitSelector_of_knit (h : Token.Knit ts) : splitSelector ts = (.here, ts) := by
  by_cases hshort : ts.length ≤ 1
  · exact splitSelector_short hshort
  obtain ⟨front, before, last, rfl⟩ := exists_append_of_length hshort
  rw [splitSelector_append]
  cases hs : selector? last with
  | none => rfl
  | some target =>
      have hname := kind_of_namedBy (selector?_eq_some_iff.1 hs)
      have hleads := (List.isChain_append.1 h.leads).2.1
      exact if_pos ((List.isChain_cons_cons.1 hleads).1 hname)

theorem of_splitSelector (h : splitSelector ts = (target, front)) (ht : target ≠ .here) :
    ∃ last, ts = front ++ [last] ∧ target.NamedBy last := by
  by_cases hshort : ts.length ≤ 1
  · rw [splitSelector_short hshort] at h
    exact absurd (Prod.mk.inj h).1.symm ht
  obtain ⟨front', before, last, rfl⟩ := exists_append_of_length hshort
  rw [splitSelector_append] at h
  split at h
  next hs =>
    split at h
    · exact absurd (Prod.mk.inj h).1.symm ht
    · obtain ⟨rfl, rfl⟩ := Prod.mk.inj h
      exact ⟨last, by simp, selector?_eq_some_iff.1 hs⟩
  next => exact absurd (Prod.mk.inj h).1.symm ht

theorem splitSelector_named (h : target.NamedBy last) (hne : front ≠ [])
    (hend : ∀ t ∈ front.getLast?, ¬continues t.kind) : splitSelector (front ++ [last]) = (target, front) := by
  obtain ⟨front, before, rfl⟩ := (List.eq_nil_or_concat' front).resolve_left hne
  have hcontinues : ¬continues before.kind := hend before List.getLast?_concat
  rw [List.append_assoc, List.singleton_append, splitSelector_append, selector?_eq_some_iff.2 h]
  exact if_neg hcontinues

theorem assign_eq {offset stop : Nat} {name sign : Token} (hn : name.kind = .identifier)
    (hs : sign.isOperator "=") :
    assign offset (name :: sign :: ts) stop =
      (Expr.ofTokens (splitSelector ts).2 stop).map fun e =>
        .place (.assign name.text e (splitSelector ts).1 offset) := by
  have hname : expectName .expectedAssignName (name :: sign :: ts) stop = .ok (name.text, sign :: ts) :=
    if_pos hn
  rw [assign, hname]
  dsimp only [bind, Except.bind]
  rw [if_neg (by simpa using hs)]
  cases Expr.ofTokens (splitSelector ts).2 stop <;> rfl

theorem ofTag_assign {offset : Nat} {cs : List Char} {keyword name sign : Token}
    (h : Token.scan offset cs = .ok (keyword :: name :: sign :: ts)) (hk : keyword.isWord "assign")
    (hn : name.kind = .identifier) (hs : sign.isOperator "=") :
    ofTag offset cs = (Expr.ofTokens (splitSelector ts).2 (offset + Text.byteLength cs)).map fun e =>
      .place (.assign name.text e (splitSelector ts).1 keyword.offset) := by
  rw [Token.isWord_iff] at hk
  have hkeyword (stop : Nat) : ofKeyword keyword (name :: sign :: ts) stop =
      assign keyword.offset (name :: sign :: ts) stop := by
    rw [ofKeyword, hk.2]
    rfl
  rw [ofTag_of_scan h hk.1 (by rw [hk.2]; decide), hkeyword, assign_eq hn hs]

/-- Behind the sign of an assignment, tokens that are an expression are its value as a whole, even when they end
with the word for a scope. Where the tag names a scope, that word is the last token, the tokens before it are the
value, and with it they are no expression. And where the tokens before such a word are an expression that ends
with neither a colon nor a comma, the word names the scope. -/
theorem selector_unambiguous {offset : Nat} {cs : List Char} {keyword name sign : Token} {ts : List Token}
    (stop : Nat) (h : Token.scan offset cs = .ok (keyword :: name :: sign :: ts)) (hk : keyword.isWord "assign")
    (hn : name.kind = .identifier) (hs : sign.isOperator "=") :
    (∀ e, Expr.ofTokens ts stop = .ok e →
      ofTag offset cs = .ok (.place (.assign name.text e .here keyword.offset))) ∧
    (∀ n value target o, ofTag offset cs = .ok (.place (.assign n value target o)) → target ≠ .here →
      ∃ front last, ts = front ++ [last] ∧ target.NamedBy last ∧ Expr.ofTokens front stop = .ok value ∧
        ∀ e, Expr.ofTokens ts stop ≠ .ok e) ∧
    ∀ front last value target, ts = front ++ [last] → AssignTarget.NamedBy target last →
      Expr.ofTokens front stop = .ok value → (∀ t ∈ front.getLast?, t.kind ≠ .colon ∧ t.kind ≠ .comma) →
        ofTag offset cs = .ok (.place (.assign name.text value target keyword.offset)) := by
  have htag := ofTag_assign h hk hn hs
  have hwhole : ∀ e, Expr.ofTokens ts stop = .ok e → splitSelector ts = (.here, ts) := fun e he =>
    splitSelector_of_knit (Expr.ofTokens_ok_iff.1 he).knit
  refine ⟨fun e he => ?_, fun n value target o htarget hne => ?_, ?_⟩
  · rw [htag, hwhole e he, Expr.ofTokens_ok_of_ok he]
    rfl
  · rw [htag] at htarget
    obtain ⟨value', hvalue, heq⟩ := Except.of_map_ok htarget
    cases heq
    obtain ⟨last, hts, hlast⟩ := of_splitSelector rfl hne
    refine ⟨_, last, hts, hlast, Expr.ofTokens_ok_of_ok hvalue, fun e he => hne ?_⟩
    rw [hwhole e he]
  · rintro front last value target rfl hlast hvalue hend
    have hsentence := Expr.ofTokens_ok_iff.1 hvalue
    have hfront : splitSelector (front ++ [last]) = (target, front) := by
      refine splitSelector_named hlast hsentence.ne_nil fun t ht hc => ?_
      rcases Token.continues_iff.1 hc with hopen | hcolon | hcomma
      · exact hsentence.knit.complete t ht hopen
      · exact (hend t ht).1 hcolon
      · exact (hend t ht).2 hcomma
    rw [htag, hfront, Expr.ofTokens_ok_iff.2 hsentence]
    rfl

/-- A variable called `global` goes to the globals, and the member `global` of one stays here. -/
theorem selector_unambiguous_doubled :
    Token.scan 2 " assign x = global global ".toList = .ok [⟨.identifier, "assign", 3⟩,
      ⟨.identifier, "x", 10⟩, ⟨.operator, "=", 12⟩, ⟨.identifier, "global", 14⟩, ⟨.identifier, "global", 21⟩] ∧
    ofTag 2 " assign x = global global ".toList =
      .ok (.place (.assign "x" (.variable "global" 14) .everywhere 3)) ∧
    (∀ e, Expr.ofTokens [⟨.identifier, "global", 14⟩, ⟨.identifier, "global", 21⟩] 28 ≠ .ok e) ∧
    ofTag 2 " assign x = y.global ".toList =
      .ok (.place (.assign "x" (.member (.variable "y" 14) "global" 16) .here 3)) := by
  have hscan : Token.scan 2 " assign x = global global ".toList = .ok [⟨.identifier, "assign", 3⟩,
      ⟨.identifier, "x", 10⟩, ⟨.operator, "=", 12⟩, ⟨.identifier, "global", 14⟩,
      ⟨.identifier, "global", 21⟩] := by cbv
  have hmember : Token.scan 2 " assign x = y.global ".toList = .ok [⟨.identifier, "assign", 3⟩,
      ⟨.identifier, "x", 10⟩, ⟨.operator, "=", 12⟩, ⟨.identifier, "y", 14⟩, ⟨.dot, ".", 15⟩,
      ⟨.identifier, "global", 16⟩] := by cbv
  have hplace : ofTag 2 " assign x = global global ".toList =
      .ok (.place (.assign "x" (.variable "global" 14) .everywhere 3)) :=
    (selector_unambiguous 28 hscan (by decide) rfl (by decide)).2.2 [⟨.identifier, "global", 14⟩] _ _ _ rfl
      (.everywhere (by decide)) (by cbv) (by decide)
  obtain ⟨-, -, -, -, -, hne⟩ :=
    (selector_unambiguous 28 hscan (by decide) rfl (by decide)).2.1 _ _ _ _ hplace (by decide)
  refine ⟨hscan, hplace, hne, ?_⟩
  exact (selector_unambiguous 23 hmember (by decide) rfl (by decide)).1 _ (by cbv)

end Instruction

end Stencil

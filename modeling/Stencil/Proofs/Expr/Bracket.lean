import Mathlib
import Stencil.Proofs.Token.Depth
import Stencil.Proofs.Expr.Equations

namespace Stencil.Expr

open Token

variable {opening close : Token} {ts inner rest : List Token} {stop : Nat}

theorem constant_unclosed (ho : opening.kind = .leftBracket) (hb : takeBracketed 0 ts = none) :
    constant (opening :: ts) stop = .error (ParseFault.unclosedBracket.at opening.offset) := by
  rw [constant, if_neg (by rw [isLiteral_eq_false (.inr (.inl ho))]; decide),
    if_neg (by rw [isOperator_eq_false (by rw [ho]; decide)]; decide), if_pos ho]
  split
  next => rfl
  next h =>
    rw [hb] at h
    cases h

theorem operand_unclosed (ho : opening.kind = .leftBracket) (hb : takeBracketed 0 ts = none) :
    operand (opening :: ts) stop = .error (ParseFault.unclosedBracket.at opening.offset) := by
  have hop {symbol : String} : ¬opening.isOperator symbol = true := by
    rw [isOperator_eq_false (by rw [ho]; decide)]
    decide
  rw [operand, if_neg (by simp [hop]), if_neg (by simp [hop]), if_neg (by rw [ho]; decide),
    if_neg (by rw [isLiteral_eq_false (.inr (.inl ho))]; decide), if_pos ho]
  split
  next => rfl
  next h =>
    rw [hb] at h
    cases h

theorem accesses_unclosed {e : Expr} (ho : opening.kind = .leftBracket) (hb : takeBracketed 0 ts = none) :
    accesses e (opening :: ts) = .error (ParseFault.unclosedBracket.at opening.offset) := by
  rw [accesses.eq_def]
  dsimp only
  rw [if_neg (by rw [ho]; decide), if_pos ho]
  split
  next => rfl
  next h =>
    rw [hb] at h
    cases h

/-- What stands behind an opening bracket is cut at its partner, the one closing bracket with a balanced stretch before
it. A constant, a list and an index are read from that stretch and go on behind the partner. Without one they blame
the opening bracket. Cut at its commas, what is balanced falls into balanced pieces with no comma outside brackets, one
more than there were such commas. The counts of open brackets are exact on the way. -/
theorem brackets_cut_balanced (ho : opening.kind = .leftBracket) (ts : List Token) (stop : Nat) (e : Expr) :
    (∀ inner close rest, takeBracketed 0 ts = some (inner, close, rest) →
      ts = inner ++ close :: rest ∧ close.kind = .rightBracket ∧ Balanced inner ∧
      (∀ front t back, ts = front ++ t :: back → t.kind = .rightBracket → Balanced front → front = inner) ∧
      unbounded (constant (opening :: ts) stop) =
        ((splitTopLevel .comma inner).mapM (onlyConstant · close.offset)).map (.array ·, rest) ∧
      unbounded (operand (opening :: ts) stop) =
        ((splitTopLevel .comma inner).mapM (ofTokens · close.offset) >>= fun items =>
          unbounded (accesses (.array items opening.offset) rest)) ∧
      (inner ≠ [] → unbounded (accesses e (opening :: ts)) =
        (ofTokens inner close.offset >>= fun key => unbounded (accesses (.index e key opening.offset) rest))) ∧
      CountsAll inner) ∧
    (takeBracketed 0 ts = none ↔
      ¬∃ front t back, ts = front ++ t :: back ∧ t.kind = .rightBracket ∧ Balanced front) ∧
    (takeBracketed 0 ts = none →
      constant (opening :: ts) stop = .error (ParseFault.unclosedBracket.at opening.offset) ∧
      operand (opening :: ts) stop = .error (ParseFault.unclosedBracket.at opening.offset) ∧
      accesses e (opening :: ts) = .error (ParseFault.unclosedBracket.at opening.offset) ∧
      CountsAll ts) ∧
    (∀ front back, Stays 0 front →
      takeBracketed 0 (front ++ back) = (takeBracketed (front.foldl depthAfter 0) back).map
        (fun (inner, close, rest) => (front ++ inner, close, rest)) ∧
      ((front.foldl depthAfter 0 : Nat) : Int) = depth front) ∧
    ∀ slice, Balanced slice → slice ≠ [] →
      (∀ piece ∈ splitTopLevel .comma slice, Balanced piece ∧ commas 0 piece = []) ∧
      rejoin (splitTopLevel .comma slice) (commas 0 slice) = slice ∧
      (splitTopLevel .comma slice).length = (commas 0 slice).length + 1 ∧ CountsAll slice := by
  refine ⟨fun inner close rest hb => ?_, ?_, fun hb => ?_, fun front back hs => ?_, fun slice hs hne => ?_⟩
  · obtain ⟨hts, hclose, hinner⟩ := takeBracketed_eq_some_iff.1 hb
    refine ⟨hts, hclose, hinner, fun front t back he ht hf => ?_, constant_array ho hb, operand_array ho hb,
      fun hne => accesses_index ho hne hb, countsAll_of_stays (balanced_iff.1 hinner).2⟩
    have hother := takeBracketed_eq_some_iff.2 ⟨he, ht, hf⟩
    rw [hb] at hother
    cases hother
    rfl
  · constructor
    · rintro hb ⟨front, t, back, he, ht, hf⟩
      rw [takeBracketed_eq_some_iff.2 ⟨he, ht, hf⟩] at hb
      cases hb
    · intro hno
      cases hb : takeBracketed 0 ts with
      | none => rfl
      | some parts => exact absurd ⟨_, _, _, takeBracketed_eq_some_iff.1 hb⟩ hno
  · exact ⟨constant_unclosed ho hb, operand_unclosed ho hb, accesses_unclosed ho hb,
      countsAll_of_stays ((takesClosing 0 ts).2 hb)⟩
  · have hcount := foldl_depthAfter_eq (n := 0) hs
    rw [Int.natCast_zero, Int.zero_add] at hcount
    exact ⟨takeBracketed_of_stays hs back, hcount⟩
  · obtain ⟨hwhole, hjoin, hlen⟩ := splitAtDepth_spec hs
    rw [splitTopLevel_of_ne_nil hne]
    exact ⟨fun piece hp => ⟨(hwhole piece hp).balanced, (hwhole piece hp).commas_eq_nil⟩, hjoin, hlen,
      countsAll_of_stays (balanced_iff.1 hs).2⟩

def nestedItems : List Token :=
  [⟨.integer, "1", 1⟩, ⟨.comma, ",", 2⟩, ⟨.leftBracket, "[", 3⟩, ⟨.integer, "2", 4⟩, ⟨.comma, ",", 5⟩,
    ⟨.integer, "3", 6⟩, ⟨.rightBracket, "]", 7⟩]

theorem brackets_cut_balanced_nested :
    let opening : Token := ⟨.leftBracket, "[", 0⟩
    let close : Token := ⟨.rightBracket, "]", 8⟩
    let rest : List Token := [⟨.dot, ".", 9⟩, ⟨.identifier, "size", 10⟩]
    tokenize "[1,[2,3]].size" 0 14 = .ok (opening :: (nestedItems ++ close :: rest)) ∧
      opening.kind = .leftBracket ∧
      takeBracketed 0 (nestedItems ++ close :: rest) = some (nestedItems, close, rest) ∧
      Balanced nestedItems ∧ CountsAll nestedItems ∧
      unbounded (operand (opening :: (nestedItems ++ close :: rest)) 14) =
        .ok (.member (.array [.literal (.int 1) 1, .array [.literal (.int 2) 4, .literal (.int 3) 6] 3] 0) "size" 10,
          []) ∧
      commas 0 nestedItems = [⟨.comma, ",", 2⟩] ∧
      (splitTopLevel .comma nestedItems).length = 2 ∧
      ∀ piece ∈ splitTopLevel .comma nestedItems, Balanced piece ∧ commas 0 piece = [] := by
  intro opening close rest
  have htake : takeBracketed 0 (nestedItems ++ close :: rest) = some (nestedItems, close, rest) := by decide
  obtain ⟨hsome, -, -, -, hcut⟩ :=
    @brackets_cut_balanced opening rfl (nestedItems ++ close :: rest) 14 (.literal .null 0)
  obtain ⟨-, -, hbalanced, -, -, hoperand, -, hcounts⟩ := hsome _ _ _ htake
  obtain ⟨hpieces, -, hlen, -⟩ := hcut nestedItems hbalanced (by decide)
  refine ⟨by cbv, rfl, htake, hbalanced, hcounts, hoperand.trans (by cbv), by decide, hlen.trans (by decide), hpieces⟩

end Stencil.Expr

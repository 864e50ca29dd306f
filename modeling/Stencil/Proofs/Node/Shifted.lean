import Stencil.Proofs.Expr.Shifted
import Stencil.Proofs.Node.Marked
import Stencil.Proofs.Node.Reworded

namespace Stencil

namespace Node

def shiftedArguments (n : Nat) (arguments : List (String × Expr)) : List (String × Expr) :=
  arguments.map fun (name, value) => (name, value.shifted n)

mutual

def shifted (n : Nat) : Node → Node
  | text s k => text s (k + n)
  | output e => output (e.shifted n)
  | assign name value target k => assign name (value.shifted n) target (k + n)
  | capture name body k => capture name (shiftedAll n body) (k + n)
  | loop name source body k => loop name (source.shifted n) (shiftedAll n body) (k + n)
  | branch arms k => branch (shiftedArms n arms) (k + n)
  | embed name arguments k => embed name (shiftedArguments n arguments) (k + n)
  | signal s k => signal s (k + n)
  | comment k => comment (k + n)
  | newline k => newline (k + n)

def shiftedAll (n : Nat) : List Node → List Node
  | [] => []
  | m :: rest => m.shifted n :: shiftedAll n rest

def shiftedArms (n : Nat) : List (Expr × List Node) → List (Expr × List Node)
  | [] => []
  | (condition, body) :: rest => (condition.shifted n, shiftedAll n body) :: shiftedArms n rest

end

@[simp]
theorem shiftedArms_append (n : Nat) (arms : List (Expr × List Node)) (condition : Expr) (body : List Node) :
    shiftedArms n (arms ++ [(condition, body)]) =
      shiftedArms n arms ++ [(condition.shifted n, shiftedAll n body)] := by
  induction arms with
  | nil => rfl
  | cons arm arms ih => exact congrArg ((arm.1.shifted n, shiftedAll n arm.2) :: ·) ih

end Node

def Block.shifted (n : Nat) : Block → Block
  | .capture name => .capture name
  | .loop name source => .loop name (source.shifted n)
  | .branch arms condition isLast => .branch (Node.shiftedArms n arms) (condition.shifted n) isLast

def Instruction.shifted (n : Nat) : Instruction → Instruction
  | .place m => .place (m.shifted n)
  | .begin block k => .begin (block.shifted n) (k + n)
  | .otherwiseIf condition k => .otherwiseIf (condition.shifted n) (k + n)
  | .otherwise k => .otherwise (k + n)
  | .finish kind k => .finish kind (k + n)

namespace Rewording

variable {n : Nat}

theorem arguments_eq_of_shifted {arguments more : List (String × Expr)}
    (h : List.Forall₂ (shifted n).argument arguments more) : more = Node.shiftedArguments n arguments := by
  induction h with
  | nil => rfl
  | cons ha _ ih =>
      rw [ih]
      exact congrArg (· :: _) (Prod.ext ha.1 ha.2)

theorem Repeats.eq_of_shifted {o : Nat} {i j : Instruction} (h : (shifted n).Repeats o (o + n) i j) :
    j = i.shifted n := by
  cases h with
  | embed hname hargument =>
      obtain rfl := Value.string.inj hname
      rw [arguments_eq_of_shifted hargument]
      rfl
  | assign he | loop he | branch he | otherwiseIf he =>
      obtain rfl := he
      rfl
  | signal | newline | capture | otherwise | finish => rfl

end Rewording

theorem Instruction.ofTag_shifted {offset : Nat} {cs : List Char} {i : Instruction} (h : ofTag offset cs = .ok i)
    (n : Nat) : ofTag (offset + n) cs = .ok (i.shifted n) := by
  obtain ⟨j, hj, ⟨rfl, rfl⟩ | ⟨keyword, _, rfl, hrepeats⟩⟩ := ofTag_reworded (r := .shifted n) h rfl fun ts hts =>
    ⟨_, Token.scan_shifted hts n, Token.forall₂_shifted.2 rfl⟩
  · rw [hj, Nat.add_right_comm]
    rfl
  · rw [hj, hrepeats.eq_of_shifted]

namespace Region

def shifted (n : Nat) : Region → Region
  | .text k cs => .text (k + n) cs
  | .output k cs => .output (k + n) cs
  | .tag k cs => .tag (k + n) cs
  | .unclosedOutput k => .unclosedOutput (k + n)
  | .unclosedTag k => .unclosedTag (k + n)

theorem ofRegion_shifted {r : Region} {i : Instruction} (h : Instruction.ofRegion r = .ok i) (n : Nat) :
    Instruction.ofRegion (r.shifted n) = .ok (i.shifted n) := by
  cases r with
  | text k cs =>
      obtain rfl := Except.ok.inj h
      rfl
  | output k cs =>
      obtain ⟨ts, hts, h⟩ := Except.of_bind_ok h
      obtain ⟨e, he, h⟩ := Except.of_bind_ok h
      obtain rfl := Except.ok.inj h
      rw [shifted, Instruction.ofRegion, Token.scan_shifted hts]
      dsimp only [bind, Except.bind]
      rw [Expr.ofTokens_shifted he]
      rfl
  | tag k cs => exact Instruction.ofTag_shifted h n
  | unclosedOutput k => cases h
  | unclosedTag k => cases h

theorem mapM_ofRegion_shifted {regions : List Region} {is : List Instruction}
    (h : regions.mapM Instruction.ofRegion = .ok is) (n : Nat) :
    (regions.map (shifted n)).mapM Instruction.ofRegion = .ok (is.map (Instruction.shifted n)) := by
  induction regions generalizing is with
  | nil =>
      obtain rfl := Except.ok.inj h
      rfl
  | cons r regions ih =>
      obtain ⟨i, is, hi, his, rfl⟩ := Except.of_mapM_cons h
      rw [List.map_cons, List.mapM_cons, ofRegion_shifted hi, ih his]
      rfl

/-- A text is cut in the same places wherever it stands. -/
theorem scan_shifted (skip : Bool) (o n : Nat) (cs : List Char) :
    scan skip (o + n) cs = (scan skip o cs).map (shifted n) := by
  fun_induction scan skip o cs with
  | case1 =>
      rw [scan]
      rfl
  | case2 o cs h =>
      rw [scan_unclosedOutput h]
      rfl
  | case3 o cs body rest hsplit _ ih =>
      rw [scan_output hsplit, List.map_cons, ← ih, shifted]
      simp only [Nat.add_right_comm _ n]
  | case4 o cs h =>
      rw [scan_unclosedTag h]
      rfl
  | case5 o cs body rest hsplit _ _ next ih =>
      rw [scan_tag hsplit, List.map_cons, ← ih, shifted]
      simp only [Nat.add_right_comm _ n]
      rfl
  | case6 o c cs hbrace hpercent ih =>
      rw [scan_brace hbrace hpercent, List.map_cons, ← ih, Nat.add_right_comm]
      rfl
  | case7 o c cs _ _ hrun rest _ hrest =>
      rw [scan_run (ne_brace_of_last hrun hrest), if_pos hrest]
      rfl
  | case8 o c cs _ _ hrun run rest _ hrest ih =>
      rw [scan_text hrun hrest, List.map_cons, ← ih, Nat.add_right_comm]
      rfl

end Region

mutual

theorem Derives.shifted (n : Nat) {is : List Instruction} {ns : List Node} :
    Derives is ns → Derives (is.map (Instruction.shifted n)) (Node.shiftedAll n ns)
  | .nil => .nil
  | .place hr => .place (hr.shifted n)
  | .capture hb hr => by
      rw [List.map_cons, List.map_append, List.map_cons]
      exact .capture (hb.shifted n) (hr.shifted n)
  | .loop hb hr => by
      rw [List.map_cons, List.map_append, List.map_cons]
      exact .loop (hb.shifted n) (hr.shifted n)
  | .branch ha hr => by
      rw [List.map_cons, List.map_append, List.map_cons, Node.shiftedAll, Node.shifted, Node.shiftedArms_append]
      exact .branch (ha.shifted n) (hr.shifted n)

theorem DerivesArms.shifted (n : Nat) {first last : Expr} {hasElse : Bool} {is : List Instruction}
    {arms : List (Expr × List Node)} {body : List Node} : DerivesArms first hasElse is arms last body →
      DerivesArms (first.shifted n) hasElse (is.map (Instruction.shifted n)) (Node.shiftedArms n arms)
        (last.shifted n) (Node.shiftedAll n body)
  | .first hb => .first (hb.shifted n)
  | .elsif ha hb => by
      rw [List.map_append, List.map_cons, Node.shiftedArms_append]
      exact .elsif (ha.shifted n) (hb.shifted n)
  | .otherwise ha hb => by
      rw [List.map_append, List.map_cons, Node.shiftedArms_append]
      exact .otherwise (ha.shifted n) (hb.shifted n)

end

end Stencil

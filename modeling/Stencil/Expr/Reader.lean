import Stencil.Expr.Bracket
import Stencil.Expr.Fold
import Stencil.Basic

namespace Stencil

abbrev Parsing := Except ParseError

namespace Expr

def integerOf (n : Int) (offset : Nat) : Parsing Value :=
  match integer? n with
  | some k => .ok (.int k)
  | none => .error (ParseFault.integerOutOfRange.at offset)

def isLiteral (t : Token) : Bool :=
  t.kind = .boolean || t.kind = .integer || t.kind = .string || t.kind = .nil

def literalValue (t : Token) : Parsing Value :=
  match t.kind with
  | .boolean => .ok (.bool (t.text = "true"))
  | .integer => integerOf (ofDigits t.text.toList) t.offset
  | .string => .ok (.string t.unquoted)
  | _ => .ok .null

def negative (sign : Token) (ts : List Token) (stop : Nat) : Parsing (Value × NotLonger ts) :=
  match ts with
  | [] => .error (ParseFault.unexpectedEnd.at stop)
  | digits :: rest =>
      if digits.kind = .integer then do
        return (← integerOf (-(ofDigits digits.text.toList : Int)) sign.offset, ⟨rest, by simp⟩)
      else .error (ParseFault.expectedDigits.at digits.offset)

/-- A literal, a minus sign with an integer, or a bracketed list of constants. -/
def constant (ts : List Token) (stop : Nat) : Parsing (Value × Shorter ts) :=
  match ts with
  | [] => .error (ParseFault.unexpectedEnd.at stop)
  | t :: ts => do
      if isLiteral t then return (← literalValue t, ⟨ts, by simp⟩)
      else if t.isOperator "-" then
        let (v, ⟨rest, h⟩) ← negative t ts stop
        return (v, ⟨rest, by simp; omega⟩)
      else if t.kind = .leftBracket then
        match h : Token.takeBracketed 0 ts with
        | none => .error (ParseFault.unclosedBracket.at t.offset)
        | some (inner, close, rest) =>
            have hl := Token.length_of_takeBracketed h
            let items ← (Token.splitTopLevel .comma inner).attach.mapM fun ⟨piece, hp⟩ => do
              have := Token.length_le_of_mem_splitTopLevel hp
              let (v, left) ← constant piece close.offset
              match left.1 with
              | [] => return v
              | extra :: _ => throw (ParseFault.expectedItemSeparator.at extra.offset)
            return (.array items, ⟨rest, by simp; omega⟩)
      else .error (ParseFault.argumentNotLiteral.at t.offset)
termination_by ts.length
decreasing_by simp; omega

/-- Constants with commas between them, up to the next pipe. A comma may come last. -/
def arguments (ts : List Token) (stop : Nat) : Parsing (List Value × NotLonger ts) :=
  match ts with
  | [] => .ok ([], ⟨[], by simp⟩)
  | t :: ts =>
      if t.kind = .pipe then .ok ([], ⟨t :: ts, by simp⟩)
      else do
        let (v, ⟨rest, h⟩) ← constant (t :: ts) stop
        match rest, h with
        | [], _ => return ([v], ⟨[], by simp⟩)
        | separator :: more, h =>
            if separator.kind = .pipe then return ([v], ⟨separator :: more, by simp at h ⊢; omega⟩)
            else if separator.kind = .comma then
              let (vs, ⟨rest', h'⟩) ← arguments more stop
              return (v :: vs, ⟨rest', by simp at h ⊢; omega⟩)
            else throw (ParseFault.expectedFilterSeparator.at separator.offset)
termination_by ts.length
decreasing_by simp at h ⊢; omega

def pipeline (target : Expr) (ts : List Token) (stop : Nat) : Parsing Expr :=
  match ts with
  | [] => .ok target
  | bar :: ts =>
      if bar.kind ≠ .pipe then .error ((ParseFault.unexpectedToken bar.text).at bar.offset)
      else match ts with
        | [] => .error (ParseFault.expectedFilterName.at bar.offset)
        | name :: ts =>
            if name.kind ≠ .identifier then .error (ParseFault.expectedFilterName.at bar.offset)
            else match ts with
              | [] => .ok (.pipe target name.text [] name.offset)
              | next :: rest =>
                  if next.kind = .pipe then
                    pipeline (.pipe target name.text [] name.offset) (next :: rest) stop
                  else if next.kind = .colon then do
                    let (vs, ⟨left, _⟩) ← arguments rest stop
                    pipeline (.pipe target name.text vs name.offset) left stop
                  else .error (ParseFault.expectedFilterColon.at next.offset)
termination_by ts.length
decreasing_by all_goals simp; try omega

def binaryOperator (t : Token) : Parsing BinaryOp :=
  if t.kind ≠ .operator then .error (ParseFault.expectedOperator.at t.offset)
  else match BinaryOp.ofSymbol? t.text with
    | some op => .ok op
    | none => .error ((ParseFault.notBinaryOperator t.text).at t.offset)

mutual

def ofTokens (ts : List Token) (stop : Nat) : Parsing Expr := do
  if ts.isEmpty then throw (ParseFault.expectedExpression.at stop)
  let (first, ⟨rest, _⟩) ← operand ts stop
  let (chain, ⟨left, _⟩) ← operations rest stop
  pipeline (Operation.fold first chain) left stop
termination_by (ts.length, 2)

def operations (ts : List Token) (stop : Nat) : Parsing (List Operation × NotLonger ts) :=
  match ts with
  | [] => .ok ([], ⟨[], by simp⟩)
  | t :: ts =>
      if t.kind = .pipe then .ok ([], ⟨t :: ts, by simp⟩)
      else do
        let op ← binaryOperator t
        let (right, ⟨rest, _⟩) ← operand ts stop
        let (more, ⟨left, h'⟩) ← operations rest stop
        return (⟨op, t.offset, right⟩ :: more, ⟨left, by simp; omega⟩)
termination_by (ts.length, 0)

def operand (ts : List Token) (stop : Nat) : Parsing (Expr × Shorter ts) :=
  match ts with
  | [] => .error (ParseFault.unexpectedEnd.at stop)
  | t :: ts => do
      if t.isOperator "not" || t.isOperator "!" then
        let (e, ⟨rest, h⟩) ← operand ts stop
        return (.negation e t.offset, ⟨rest, Nat.lt_succ_of_lt h⟩)
      else if t.isOperator "-" && (ts.head?.any (·.kind = .integer)) then
        let (v, ⟨rest, h⟩) ← negative t ts stop
        let (e, ⟨left, h'⟩) ← accesses (.literal v t.offset) rest
        return (e, ⟨left, Nat.lt_succ_of_le (Nat.le_trans h' h)⟩)
      else if t.kind = .identifier then
        let (e, ⟨left, h⟩) ← accesses (.variable t.text t.offset) ts
        return (e, ⟨left, Nat.lt_succ_of_le h⟩)
      else if isLiteral t then
        let (e, ⟨left, h⟩) ← accesses (.literal (← literalValue t) t.offset) ts
        return (e, ⟨left, Nat.lt_succ_of_le h⟩)
      else if t.kind = .leftBracket then
        match h : Token.takeBracketed 0 ts with
        | none => throw (ParseFault.unclosedBracket.at t.offset)
        | some (inner, close, rest) =>
            have hl := Token.length_of_takeBracketed h
            let items ← (Token.splitTopLevel .comma inner).attach.mapM fun ⟨piece, hp⟩ =>
              have := Token.length_le_of_mem_splitTopLevel hp
              ofTokens piece close.offset
            let (e, ⟨left, h'⟩) ← accesses (.array items t.offset) rest
            have hr : rest.length ≤ ts.length := by omega
            return (e, ⟨left, Nat.lt_succ_of_le (Nat.le_trans h' hr)⟩)
      else throw (ParseFault.expectedOperand.at t.offset)
termination_by (ts.length, 1)

def accesses (target : Expr) (ts : List Token) : Parsing (Expr × NotLonger ts) :=
  match ts with
  | [] => .ok (target, ⟨[], by simp⟩)
  | t :: ts =>
      if t.kind = .dot then
        match ts with
        | [] => .error (ParseFault.expectedMemberName.at t.offset)
        | name :: ts =>
            if name.kind = .identifier then do
              let (e, ⟨left, h⟩) ← accesses (.member target name.text name.offset) ts
              return (e, ⟨left, by simp; omega⟩)
            else .error (ParseFault.expectedMemberName.at t.offset)
      else if t.kind = .leftBracket then
        match h : Token.takeBracketed 0 ts with
        | none => .error (ParseFault.unclosedBracket.at t.offset)
        | some (inner, close, rest) => do
            have hl := Token.length_of_takeBracketed h
            if inner.isEmpty then throw (ParseFault.emptyIndex.at t.offset)
            let key ← ofTokens inner close.offset
            let (e, ⟨left, h'⟩) ← accesses (.index target key t.offset) rest
            return (e, ⟨left, by simp; omega⟩)
      else .ok (target, ⟨t :: ts, by simp⟩)
termination_by (ts.length, 0)

end

end Expr

end Stencil

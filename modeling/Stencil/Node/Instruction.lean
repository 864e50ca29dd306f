import Stencil.Expr.Reader
import Stencil.Node.Basic
import Stencil.Node.Region
import Stencil.Text.Basic

namespace Stencil

inductive BlockKind where
  | capture
  | loop
  | branch
deriving DecidableEq, Repr

def BlockKind.keyword : BlockKind → String
  | capture => "capture"
  | loop => "for"
  | branch => "if"

/-- A block that has begun. A branch has the arms before the current one, the condition of the current
one, and whether that is the last. -/
inductive Block where
  | capture (name : String)
  | loop (name : String) (source : Expr)
  | branch (arms : List (Expr × List Node)) (condition : Expr) (isLast : Bool)
deriving Repr

def Block.kind : Block → BlockKind
  | capture _ => .capture
  | loop _ _ => .loop
  | branch _ _ _ => .branch

inductive Instruction where
  | place (node : Node)
  | begin (block : Block) (offset : Nat)
  | otherwiseIf (condition : Expr) (offset : Nat)
  | otherwise (offset : Nat)
  | finish (kind : BlockKind) (offset : Nat)
deriving Repr

namespace Instruction

def expectNone (ts : List Token) : Parsing Unit :=
  match ts with
  | [] => .ok ()
  | t :: _ => .error ((ParseFault.unexpectedToken t.text).at t.offset)

def expectName (fault : ParseFault) (ts : List Token) (stop : Nat) : Parsing (String × List Token) :=
  match ts with
  | [] => .error (fault.at stop)
  | t :: rest => if t.kind = .identifier then .ok (t.text, rest) else .error (fault.at t.offset)

/-- After such a token an expression has to go on. -/
def continues (kind : TokenKind) : Bool :=
  [.operator, .dot, .pipe, .colon, .comma, .leftBracket].contains kind

def selector? (t : Token) : Option AssignTarget :=
  if t.isWord "parent_scope" then some .includer
  else if t.isWord "global" then some .everywhere
  else none

/-- The scope named behind an expression, and the expression's own tokens. -/
def splitSelector (ts : List Token) : AssignTarget × List Token :=
  match ts.reverse with
  | last :: before :: _ =>
      match selector? last with
      | some target => if continues before.kind then (.here, ts) else (target, ts.dropLast)
      | none => (.here, ts)
  | _ => (.here, ts)

def assign (offset : Nat) (ts : List Token) (stop : Nat) : Parsing Instruction := do
  let (name, rest) ← expectName .expectedAssignName ts stop
  match rest with
  | [] => throw (ParseFault.expectedAssignSign.at stop)
  | sign :: rest =>
      if !sign.isOperator "=" then throw (ParseFault.expectedAssignSign.at sign.offset)
      let (target, tokens) := splitSelector rest
      return .place (.assign name (← Expr.ofTokens tokens stop) target offset)

def capture (offset : Nat) (ts : List Token) (stop : Nat) : Parsing Instruction := do
  let (name, rest) ← expectName .expectedCaptureName ts stop
  expectNone rest
  return .begin (.capture name) offset

def loop (offset : Nat) (ts : List Token) (stop : Nat) : Parsing Instruction := do
  let (name, rest) ← expectName .expectedLoopVariable ts stop
  match rest with
  | [] => throw (ParseFault.expectedIn.at offset)
  | word :: rest =>
      if !word.isWord "in" then throw (ParseFault.expectedIn.at offset)
      return .begin (.loop name (← Expr.ofTokens rest stop)) offset

def dotted (name : String) : List Token → String × List Token
  | dot :: part :: rest =>
      if dot.kind = .dot ∧ part.kind = .identifier then dotted (name ++ "." ++ part.text) rest
      else (name, dot :: part :: rest)
  | rest => (name, rest)

def startsWithSign (ts : List Token) : Bool :=
  ts.head?.any (·.isOperator "=")

/-- The value of an argument ends at a comma, or at a later name with an equals sign, outside brackets. -/
def takeValue (isFirst : Bool) (depth : Nat) : List Token → List Token × List Token
  | [] => ([], [])
  | t :: ts =>
      if depth = 0 ∧ (t.kind = .comma ∨ !isFirst ∧ t.kind = .identifier ∧ startsWithSign ts) then
        ([], t :: ts)
      else
        let (value, rest) := takeValue false (Token.depthAfter depth t) ts
        (t :: value, rest)

theorem length_takeValue_le (isFirst : Bool) (depth : Nat) (ts : List Token) :
    (takeValue isFirst depth ts).2.length ≤ ts.length := by
  induction ts generalizing isFirst depth with
  | nil => simp [takeValue]
  | cons t ts ih =>
      unfold takeValue
      split
      · exact Nat.le_refl _
      · exact Nat.le_succ_of_le (ih _ _)

def dropComma : List Token → List Token
  | t :: ts => if t.kind = .comma then ts else t :: ts
  | [] => []

theorem length_dropComma_le (ts : List Token) : (dropComma ts).length ≤ ts.length := by
  unfold dropComma
  split
  · split <;> simp
  · exact Nat.le_refl _

def embedArguments (ts : List Token) (stop : Nat) : Parsing (List (String × Expr)) :=
  match ts with
  | [] => .ok []
  | key :: rest => do
      if key.kind ≠ .identifier then throw (ParseFault.expectedArgumentName.at key.offset)
      match rest with
      | [] => throw (ParseFault.expectedArgumentSign.at key.offset)
      | sign :: rest =>
          if !sign.isOperator "=" then throw (ParseFault.expectedArgumentSign.at key.offset)
          have := length_takeValue_le true 0 rest
          have := length_dropComma_le (takeValue true 0 rest).2
          let limit := ((takeValue true 0 rest).2.head?.map Token.offset).getD stop
          let value ← Expr.ofTokens (takeValue true 0 rest).1 limit
          let more ← embedArguments (dropComma (takeValue true 0 rest).2) stop
          return (key.text, value) :: more
termination_by ts.length
decreasing_by simp; omega

def embedWith (name : String) (offset : Nat) (ts : List Token) (stop : Nat) : Parsing Instruction := do
  match ts with
  | [] => return .place (.embed name [] offset)
  | word :: rest =>
      if !word.isWord "with" then throw (ParseFault.expectedWith.at word.offset)
      if rest.isEmpty then throw (ParseFault.expectedArgument.at stop)
      return .place (.embed name (← embedArguments rest stop) offset)

def embed (offset : Nat) (ts : List Token) (stop : Nat) : Parsing Instruction :=
  match ts with
  | [] => .error (ParseFault.expectedTemplateName.at stop)
  | t :: rest =>
      if t.kind = .string then embedWith t.unquoted offset rest stop
      else if t.kind = .identifier then
        let (name, left) := dotted t.text rest
        embedWith name offset left stop
      else .error (ParseFault.expectedTemplateName.at t.offset)

def bare (instruction : Instruction) (ts : List Token) : Parsing Instruction := do
  expectNone ts
  return instruction

def ofKeyword (keyword : Token) (ts : List Token) (stop : Nat) : Parsing Instruction :=
  let offset := keyword.offset
  match keyword.text with
  | "assign" => assign offset ts stop
  | "capture" => capture offset ts stop
  | "endcapture" => bare (.finish .capture offset) ts
  | "if" => return .begin (.branch [] (← Expr.ofTokens ts stop) false) offset
  | "elsif" => return .otherwiseIf (← Expr.ofTokens ts stop) offset
  | "else" => bare (.otherwise offset) ts
  | "endif" => bare (.finish .branch offset) ts
  | "for" => loop offset ts stop
  | "endfor" => bare (.finish .loop offset) ts
  | "break" => bare (.place (.signal .stopLoop offset)) ts
  | "continue" => bare (.place (.signal .nextRound offset)) ts
  | "eject" => bare (.place (.signal .eject offset)) ts
  | "discard" => bare (.place (.signal .discard offset)) ts
  | "newline" => bare (.place (.newline offset)) ts
  | "include" => embed offset ts stop
  | _ => .error (ParseFault.unknownTag.at offset)

/-- The text of a comment is not looked at. -/
def ofTag (offset : Nat) (cs : List Char) : Parsing Instruction := do
  let trimmed := Text.trimLeft cs
  if String.ofList (trimmed.takeWhile Token.isWordPart) = "comment" then
    return .place (.comment (offset + (Text.byteLength cs - Text.byteLength trimmed)))
  let tokens ← Token.scan offset cs
  match tokens with
  | [] => throw (ParseFault.expectedTagName.at offset)
  | keyword :: rest =>
      if keyword.kind ≠ .identifier then throw (ParseFault.expectedTagName.at keyword.offset)
      ofKeyword keyword rest (offset + Text.byteLength cs)

def ofRegion : Region → Parsing Instruction
  | .text offset cs => .ok (.place (.text (String.ofList cs) offset))
  | .output offset cs => do
      let tokens ← Token.scan offset cs
      return .place (.output (← Expr.ofTokens tokens (offset + Text.byteLength cs)))
  | .tag offset cs => ofTag offset cs
  | .unclosedOutput offset => .error (ParseFault.unclosedOutput.at offset)
  | .unclosedTag offset => .error (ParseFault.unclosedTag.at offset)

end Instruction

end Stencil

import Stencil.Error.Parse
import Stencil.Text.Basic

namespace Stencil

inductive TokenKind where
  | identifier
  | dot
  | leftBracket
  | rightBracket
  | operator
  | pipe
  | colon
  | comma
  | boolean
  | integer
  | string
  | nil
deriving DecidableEq, Repr

structure Token where
  kind : TokenKind
  text : String
  offset : Nat
deriving DecidableEq, Repr

namespace Token

def isWord (t : Token) (word : String) : Bool :=
  t.kind = .identifier && t.text = word

def isOperator (t : Token) (symbol : String) : Bool :=
  t.kind = .operator && t.text = symbol

/-- The text of a string without its quotes, of any other token as it stands. -/
def unquoted (t : Token) : String :=
  if t.kind = .string then String.ofList (t.text.toList.drop 1).dropLast else t.text

def stop (t : Token) : Nat :=
  t.offset + Text.byteLength t.text.toList

def isSpace (c : Char) : Bool :=
  c = ' ' || c = '\t' || c = '\n' || c = '\r'

def isWordStart (c : Char) : Bool :=
  c.isAlpha || c = '_'

def isWordPart (c : Char) : Bool :=
  c.isAlphanum || c = '_'

def isSymbol (c : Char) : Bool :=
  ['!', '<', '>', '=', '+', '-', '*', '/'].contains c

def wordKind (word : String) : TokenKind :=
  if ["or", "and", "xor", "not"].contains word then .operator
  else if ["true", "false"].contains word then .boolean
  else if word = "nil" then .nil
  else .identifier

def symbolTail (c : Char) (cs : List Char) : List Char :=
  match cs with
  | '=' :: _ => if ['<', '>', '=', '!'].contains c then ['='] else []
  | '>' :: _ => if c = '<' then ['>'] else []
  | _ => []

def single? (c : Char) : Option TokenKind :=
  match c with
  | '|' => some .pipe
  | ':' => some .colon
  | '.' => some .dot
  | ',' => some .comma
  | '[' => some .leftBracket
  | ']' => some .rightBracket
  | _ => none

/-- The kind of the token that starts with `c`, and what of it follows `c`. -/
def lexeme (c : Char) (cs : List Char) (offset : Nat) : Except ParseError (TokenKind × List Char) :=
  match single? c with
  | some kind => .ok (kind, [])
  | none =>
      if c.isDigit then .ok (.integer, cs.takeWhile Char.isDigit)
      else if c = '\'' ∨ c = '"' then
        if c ∈ cs then .ok (.string, cs.takeWhile (· ≠ c) ++ [c])
        else .error (ParseFault.malformedString.at (offset + 1))
      else if isWordStart c then
        let tail := cs.takeWhile isWordPart
        .ok (wordKind (String.ofList (c :: tail)), tail)
      else if isSymbol c then .ok (.operator, symbolTail c cs)
      else .error ((ParseFault.unexpectedCharacter c).at offset)

/-- The tokens of a text that begins at `offset`. -/
def scan (offset : Nat) (cs : List Char) : Except ParseError (List Token) :=
  match cs with
  | [] => .ok []
  | c :: cs =>
      if isSpace c then scan (offset + c.utf8Size) cs
      else do
        let (kind, tail) ← lexeme c cs offset
        let size := Text.byteLength (c :: tail)
        let more ← scan (offset + size) (cs.drop tail.length)
        return ⟨kind, String.ofList (c :: tail), offset⟩ :: more
termination_by cs.length
decreasing_by all_goals (simp only [List.length_drop, List.length_cons]; omega)

end Token

def tokenize (source : String) (start stop : Nat) : Except ParseError (List Token) :=
  Token.scan start (Text.span source.toList start stop)

end Stencil

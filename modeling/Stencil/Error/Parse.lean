
namespace Stencil

inductive ParseFault where
  | malformedString
  | unexpectedCharacter (c : Char)
  | expectedExpression
  | unexpectedToken (text : String)
  | expectedOperator
  | notBinaryOperator (text : String)
  | unexpectedEnd
  | expectedOperand
  | expectedMemberName
  | emptyIndex
  | unclosedBracket
  | expectedFilterName
  | expectedFilterColon
  | expectedFilterSeparator
  | expectedDigits
  | integerOutOfRange
  | argumentNotLiteral
  | expectedItemSeparator
  | unclosedOutput
  | unclosedTag
  | expectedTagName
  | unknownTag
  | expectedAssignName
  | expectedAssignSign
  | expectedCaptureName
  | expectedLoopVariable
  | expectedIn
  | unclosedBlock (keyword : String)
  | unexpectedTag (keyword : String)
  | expectedTemplateName
  | expectedWith
  | expectedArgument
  | expectedArgumentName
  | expectedArgumentSign
  | other (message : String)
deriving DecidableEq, Repr

def ParseFault.message : ParseFault → String
  | malformedString => "Malformed string literal"
  | unexpectedCharacter c => "Unexpected input '" ++ c.toString ++ "'"
  | expectedExpression => "Expected expression"
  | unexpectedToken text => "Unexpected token '" ++ text ++ "'"
  | expectedOperator => "Expected operator"
  | notBinaryOperator text => "'" ++ text ++ "' is not a binary operator"
  | unexpectedEnd => "Unexpected end of input"
  | expectedOperand => "Expected operand"
  | expectedMemberName => "Expected identifier after '.'"
  | emptyIndex => "Invalid empty index in array access"
  | unclosedBracket => "Could not find closing bracket ']'"
  | expectedFilterName => "Expected filter name after '|'"
  | expectedFilterColon => "Expected ':' after filter name"
  | expectedFilterSeparator => "Expected ',' or '|' or end of filter expression"
  | expectedDigits => "Expected integer after '-'"
  | integerOutOfRange => "Integer literal out of range"
  | argumentNotLiteral => "Filter arguments must be literals"
  | expectedItemSeparator => "Expected ',' or ']'"
  | unclosedOutput => "Could not match '\x7b\x7b' with a closing '\x7d\x7d'"
  | unclosedTag => "Could not match '\x7b%' with a closing '%\x7d'"
  | expectedTagName => "Expected tag name"
  | unknownTag => "Unknown tag name"
  | expectedAssignName => "Expected variable name after 'assign'"
  | expectedAssignSign => "Expected '='"
  | expectedCaptureName => "Expected variable name after 'capture'"
  | expectedLoopVariable => "Expected loop variable after 'for'"
  | expectedIn => "Expected token 'in'"
  | unclosedBlock keyword => "Unclosed '" ++ keyword ++ "' tag"
  | unexpectedTag keyword => "Unexpected '" ++ keyword ++ "' tag"
  | expectedTemplateName => "Expected template name"
  | expectedWith => "Expected 'with'"
  | expectedArgument => "Expected argument after 'with'"
  | expectedArgumentName => "Expected argument name"
  | expectedArgumentSign => "Expected '=' after argument name"
  | other message => message

/-- A fault with its byte offset. Line zero means that the line is not known. -/
structure ParseError where
  fault : ParseFault
  offset : Nat
  line : Nat
  column : Nat
  path : Option String
deriving DecidableEq, Repr

namespace ParseError

def message (e : ParseError) : String :=
  e.fault.message

def located (e : ParseError) (line column : Nat) (path : Option String) : ParseError :=
  { e with line, column, path }

def text (e : ParseError) : String :=
  let file := match e.path with
    | some p => p ++ ":"
    | none => ""
  let place := if e.line = 0 then "@" ++ Nat.repr e.offset else Nat.repr e.line ++ ":" ++ Nat.repr e.column
  file ++ place ++ ": " ++ e.message

end ParseError

def ParseFault.at (fault : ParseFault) (offset : Nat) : ParseError :=
  ⟨fault, offset, 0, 0, none⟩

end Stencil

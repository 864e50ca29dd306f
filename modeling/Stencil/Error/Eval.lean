
namespace Stencil

inductive EvalFault where
  | notAnArray
  | notAnObject
  | badIndex
  | noMembers
  | divisionByZero
  | overflow
  | unsupportedOperands (symbol left right : String)
  | unknownFilter (name : String)
  | argumentCount (filter : String) (least most got : Nat)
  | filterNeedsArray (filter got : String)
  | fieldNotString (got : String)
  | missingTemplate (name : String)
  | unloadable (name reason : String)
  | noActiveScope
  | includesTooDeep
  | other (message : String)
deriving DecidableEq, Repr

def EvalFault.message : EvalFault → String
  | notAnArray => "Value is not an array"
  | notAnObject => "Value is not an object"
  | badIndex => "Index must be a 'string' or an 'int'"
  | noMembers => "Value does not support member access"
  | divisionByZero => "Division by zero"
  | overflow => "Integer overflow"
  | unsupportedOperands symbol left right =>
      "Unsupported operand types for '" ++ symbol ++ "': '" ++ left ++ "' and '" ++ right ++ "'"
  | unknownFilter name => "Invalid filter name '" ++ name ++ "'"
  | argumentCount filter least most got =>
      let expected := if least = most then Nat.repr least else Nat.repr least ++ " to " ++ Nat.repr most
      "Filter '" ++ filter ++ "' expects " ++ expected ++ " argument(s), got " ++ Nat.repr got
  | filterNeedsArray filter got => "Filter '" ++ filter ++ "' expects an array, got '" ++ got ++ "'"
  | fieldNotString got => "Filter 'map' expects a 'string' field name, got '" ++ got ++ "'"
  | missingTemplate name => "No template named '" ++ name ++ "'"
  | unloadable name reason => "Could not load template '" ++ name ++ "': " ++ reason
  | noActiveScope => "No active file scope"
  | includesTooDeep => "Includes nest too deep"
  | other message => message

structure Origin where
  template : String
  line : Nat
  column : Nat
deriving DecidableEq, Repr

structure EvalError where
  fault : EvalFault
  offset : Option Nat
  origin : Option Origin
deriving DecidableEq, Repr

namespace EvalError

def message (e : EvalError) : String :=
  e.fault.message

def withOffset (e : EvalError) (offset : Nat) : EvalError :=
  { e with offset := some offset }

def withOrigin (e : EvalError) (origin : Origin) : EvalError :=
  { e with origin := some origin }

def text (e : EvalError) : String :=
  match e.origin, e.offset with
  | some o, _ => o.template ++ ":" ++ Nat.repr o.line ++ ":" ++ Nat.repr o.column ++ ": " ++ e.message
  | none, some offset => "@" ++ Nat.repr offset ++ ": " ++ e.message
  | none, none => e.message

end EvalError

def EvalFault.nowhere (fault : EvalFault) : EvalError :=
  ⟨fault, none, none⟩

def EvalFault.at (fault : EvalFault) (offset : Nat) : EvalError :=
  ⟨fault, some offset, none⟩

end Stencil

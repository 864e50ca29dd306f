import Stencil.Value.Basic

namespace Stencil

inductive BinaryOp where
  | or
  | and
  | xor
  | equal
  | unequal
  | less
  | atMost
  | greater
  | atLeast
  | add
  | subtract
  | multiply
  | divide
deriving DecidableEq, Repr

namespace BinaryOp

def symbol : BinaryOp → String
  | or => "or"
  | and => "and"
  | xor => "xor"
  | equal => "=="
  | unequal => "!="
  | less => "<"
  | atMost => "<="
  | greater => ">"
  | atLeast => ">="
  | add => "+"
  | subtract => "-"
  | multiply => "*"
  | divide => "/"

def ofSymbol? (s : String) : Option BinaryOp :=
  match s with
  | "or" => some or
  | "and" => some and
  | "xor" => some xor
  | "==" => some equal
  | "!=" => some unequal
  | "<>" => some unequal
  | "<" => some less
  | "<=" => some atMost
  | ">" => some greater
  | ">=" => some atLeast
  | "+" => some add
  | "-" => some subtract
  | "*" => some multiply
  | "/" => some divide
  | _ => none

/-- A higher number binds more loosely. -/
def looseness : BinaryOp → Int
  | or => 4
  | xor => 4
  | and => 3
  | equal => 2
  | unequal => 2
  | less => 1
  | atMost => 1
  | greater => 1
  | atLeast => 1
  | add => 0
  | subtract => 0
  | multiply => -1
  | divide => -1

end BinaryOp

inductive Expr where
  | literal (value : Value) (offset : Nat)
  | array (items : List Expr) (offset : Nat)
  | variable (name : String) (offset : Nat)
  | member (target : Expr) (name : String) (offset : Nat)
  | index (target : Expr) (key : Expr) (offset : Nat)
  | binary (op : BinaryOp) (left right : Expr) (offset : Nat)
  | negation (operand : Expr) (offset : Nat)
  | pipe (target : Expr) (filter : String) (arguments : List Value) (offset : Nat)
deriving Repr, Inhabited

namespace Expr

def offset : Expr → Nat
  | .literal _ n => n
  | .array _ n => n
  | .variable _ n => n
  | .member _ _ n => n
  | .index _ _ n => n
  | .binary _ _ _ n => n
  | .negation _ n => n
  | .pipe _ _ _ n => n

end Expr

end Stencil

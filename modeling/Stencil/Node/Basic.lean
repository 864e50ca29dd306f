import Stencil.Expr.Basic

namespace Stencil

inductive AssignTarget where
  | here
  | includer
  | everywhere
deriving DecidableEq, Repr

inductive Signal where
  | stopLoop
  | nextRound
  | eject
  | discard
deriving DecidableEq, Repr

inductive Node where
  | text (text : String) (offset : Nat)
  | output (expr : Expr)
  | assign (name : String) (value : Expr) (target : AssignTarget) (offset : Nat)
  | capture (name : String) (body : List Node) (offset : Nat)
  | loop (name : String) (source : Expr) (body : List Node) (offset : Nat)
  | branch (arms : List (Expr × List Node)) (offset : Nat)
  | embed (name : String) (arguments : List (String × Expr)) (offset : Nat)
  | signal (signal : Signal) (offset : Nat)
  | comment (offset : Nat)
  | newline (offset : Nat)
deriving Repr, Inhabited

namespace Node

def isTag : Node → Bool
  | text _ _ => false
  | output _ => false
  | _ => true

def offset : Node → Nat
  | text _ n => n
  | output e => e.offset
  | assign _ _ _ n => n
  | capture _ _ n => n
  | loop _ _ _ n => n
  | branch _ n => n
  | embed _ _ n => n
  | signal _ n => n
  | comment n => n
  | newline n => n

mutual

def included : Node → List String
  | capture _ body _ => includedInAll body
  | loop _ _ body _ => includedInAll body
  | branch arms _ => includedInArms arms
  | embed name _ _ => [name]
  | _ => []

def includedInAll : List Node → List String
  | [] => []
  | n :: rest => n.included ++ includedInAll rest

def includedInArms : List (Expr × List Node) → List String
  | [] => []
  | (_, body) :: rest => includedInAll body ++ includedInArms rest

end

def isLayout (c : Char) : Bool :=
  c = ' ' || c = '\t' || c = '\n'

def isIndent (c : Char) : Bool :=
  c = ' ' || c = '\t'

def stripText (s : String) (afterTag beforeTag : Bool) : String :=
  let cs := s.toList
  let cs := if afterTag then cs.dropWhile isLayout else cs
  let cs := if beforeTag then (cs.reverse.dropWhile isIndent).reverse else cs
  String.ofList cs

/-- Whether the text before these nodes stands before a tag. -/
def startsWithTag (atEnd : Bool) : List Node → Bool
  | [] => atEnd
  | n :: _ => n.isTag

mutual

def strip (afterTag beforeTag : Bool) : Node → Node
  | text s n => text (stripText s afterTag beforeTag) n
  | output e => output e
  | assign name value target n => assign name value target n
  | capture name body n => capture name (stripAll true true body) n
  | loop name source body n => loop name source (stripAll true true body) n
  | branch arms n => branch (stripArms arms) n
  | embed name arguments n => embed name arguments n
  | signal s n => signal s n
  | comment n => comment n
  | newline n => newline n

def stripAll (afterTag endsAtTag : Bool) : List Node → List Node
  | [] => []
  | n :: rest =>
      strip afterTag (startsWithTag endsAtTag rest) n :: stripAll n.isTag endsAtTag rest

def stripArms : List (Expr × List Node) → List (Expr × List Node)
  | [] => []
  | (condition, body) :: rest => (condition, stripAll true true body) :: stripArms rest

end

end Node

end Stencil

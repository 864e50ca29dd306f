import Stencil.Basic

namespace Stencil

inductive UsageFault where
  | helpAsked
  | versionAsked
  | nothingGiven
  | missingCommand
  | unknownCommand
  | unknownArgument
  | missingOperand
  | badValue
  | givenTwice
  | unexpectedValue
deriving DecidableEq, Repr

inductive ParameterKind where
  | flag
  | help
  | version
  | text
  | path
  /-- May be given more than once. -/
  | paths
deriving DecidableEq, Repr

structure Parameter where
  name : String
  letter? : Option Char
  kind : ParameterKind
deriving DecidableEq, Repr

structure Usage where
  options : List Parameter
  operand? : Option Parameter
  /-- One operand, or one and more. -/
  takesMany : Bool
  commands : List String
deriving DecidableEq, Repr

abbrev Given := Dict (List String)

namespace Parameter

def takesValue (p : Parameter) : Bool :=
  match p.kind with
  | .flag | .help | .version => false
  | .text | .path | .paths => true

def allows (p : Parameter) (value : String) : Bool :=
  match p.kind with
  | .path | .paths => !value.isEmpty
  | _ => true

/-- What is given after the parameter was met with these values. -/
def accept (p : Parameter) (values : List String) (given : Given) : Except UsageFault Given :=
  if p.kind = .help then .error .helpAsked
  else if p.kind = .version then .error .versionAsked
  else if p.takesValue ∧ values.isEmpty then .error .badValue
  else if p.kind ≠ .paths ∧ given.contains p.name then .error .givenTwice
  else if values.all p.allows then .ok (given.insert p.name ((given.get? p.name).getD [] ++ values))
  else .error .badValue

end Parameter

/-- What was given, and the parameter that may still get values. -/
structure Reading where
  given : Given
  pending? : Option (Parameter × List String)

namespace Reading

def empty : Reading :=
  ⟨[], none⟩

def settle (r : Reading) : Except UsageFault Given :=
  match r.pending? with
  | some (p, values) => p.accept values r.given
  | none => .ok r.given

def awaits (r : Reading) : Bool :=
  r.pending?.any fun p => p.2.isEmpty

def meet (r : Reading) (p : Parameter) (values : List String) : Except UsageFault Reading := do
  return ⟨← p.accept values (← r.settle), none⟩

def option (r : Reading) (p : Parameter) (value? : Option String) : Except UsageFault Reading :=
  match value? with
  | some v => r.meet p [v]
  | none => do return ⟨← r.settle, some (p, [])⟩

def value (r : Reading) (v : String) : Reading :=
  { r with pending? := r.pending?.map fun (p, values) => (p, values ++ [v]) }

end Reading

namespace Usage

def splitValue (cs : List Char) : List Char × Option String :=
  let name := cs.takeWhile (· ≠ '=')
  (name, if name.length < cs.length then some (String.ofList (cs.drop (name.length + 1))) else none)

def long (u : Usage) (r : Reading) (cs : List Char) : Except UsageFault Reading :=
  let (name, value?) := splitValue cs
  match u.options.find? (fun p => p.name = String.ofList name) with
  | none => .error .unknownArgument
  | some p =>
      if p.takesValue then r.option p value?
      else if value?.isSome then .error .unexpectedValue
      else r.meet p []

/-- The letters of a word with one dash. After the letter of an option the rest is its value, which an
equals sign may set off. -/
def short (u : Usage) (r : Reading) : List Char → Except UsageFault Reading
  | [] => .ok r
  | c :: rest =>
      match u.options.find? (fun p => p.letter? = some c) with
      | none => .error .unknownArgument
      | some p =>
          if p.takesValue then
            match rest with
            | [] => r.option p none
            | '=' :: v => r.option p (some (String.ofList v))
            | v => r.option p (some (String.ofList v))
          else do u.short (← r.meet p []) rest

def operand (u : Usage) (trailing : Bool) (r : Reading) (w : String) : Except UsageFault Reading :=
  match u.operand? with
  | none => .error (if trailing && u.commands.contains w then .unknownArgument else .unknownCommand)
  | some p =>
      if u.takesMany then
        match r.pending? with
        | some (q, _) => if q = p then .ok (r.value w) else do return ⟨← r.settle, some (p, [w])⟩
        | none => .ok { r with pending? := some (p, [w]) }
      else if r.given.contains p.name ∨ r.pending?.any (fun q => q.1 = p) then .error .unknownArgument
      else do return ⟨← r.settle, some (p, [w])⟩

def operands (u : Usage) (r : Reading) : List String → Except UsageFault Reading
  | [] => .ok r
  | w :: rest => do u.operands (← u.operand true r w) rest

def read (u : Usage) (r : Reading) :
    List String → Except UsageFault (Reading × Option (String × List String))
  | [] => .ok (r, none)
  | w :: rest =>
      if !r.awaits && u.commands.contains w then .ok (r, some (w, rest))
      else match w.toList with
        | ['-', '-'] => do return (← u.operands r rest, none)
        | '-' :: '-' :: cs => do u.read (← u.long r cs) rest
        | '-' :: c :: cs => do u.read (← u.short r (c :: cs)) rest
        | _ => if r.awaits then u.read (r.value w) rest else do u.read (← u.operand false r w) rest

end Usage

end Stencil

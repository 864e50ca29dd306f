import Stencil.Error.Eval
import Stencil.Text.Quoted
import Stencil.Value.Content

namespace Stencil

abbrev Evaluated := Except EvalError

abbrev Filter := Value → List Value → Evaluated Value

namespace Filter

def expectArguments (name : String) (least most : Nat) (arguments : List Value) : Evaluated Unit :=
  if least ≤ arguments.length ∧ arguments.length ≤ most then .ok ()
  else .error (EvalFault.argumentCount name least most arguments.length).nowhere

def expectArray (name : String) (v : Value) : Evaluated (List Value) :=
  match v.elements? with
  | some items => .ok items
  | none => .error (EvalFault.filterNeedsArray name v.typeName).nowhere

/-- A filter on lists. The arguments are counted first, and null is kept. -/
def onList (name : String) (least most : Nat) (f : List Value → List Value → Evaluated Value) : Filter :=
  fun v arguments => do
    expectArguments name least most arguments
    if v.isNull then return .null
    f (← expectArray name v) arguments

def join : Filter :=
  onList "join" 0 1 fun items arguments =>
    let separator := match arguments with
      | [] => " "
      | s :: _ => s.display
    .ok (.string (String.intercalate separator (items.map Value.display)))

def concat : Filter :=
  onList "concat" 1 1 fun items arguments => do
    return .array (items ++ (← expectArray "concat" (arguments.headD .null)))

def first : Filter :=
  onList "first" 0 0 fun items _ => .ok (items.headD .null)

def last : Filter :=
  onList "last" 0 0 fun items _ => .ok (items.getLastD .null)

def push : Filter :=
  onList "push" 1 1 fun items arguments => .ok (.array (items ++ arguments))

def pop : Filter :=
  onList "pop" 0 0 fun items _ => .ok (.array items.dropLast)

/-- The field's name is looked at before the list. -/
def map : Filter :=
  fun v arguments => do
    expectArguments "map" 1 1 arguments
    if v.isNull then return .null
    match arguments.headD .null with
    | .string field => return .array ((← expectArray "map" v).map (·.property field))
    | other => throw (EvalFault.fieldNotString other.typeName).nowhere

def size : Filter :=
  fun v arguments => do
    expectArguments "size" 0 0 arguments
    match v.length? with
    | some n => return .int (countOf n)
    | none => return .null

end Filter

structure FilterRegistry where
  filters : Dict Filter

namespace FilterRegistry

def empty : FilterRegistry :=
  ⟨[]⟩

/-- A filter replaces one of the same name. -/
def register (r : FilterRegistry) (name : String) (f : Filter) : FilterRegistry :=
  ⟨r.filters.insert name f⟩

def builtins : FilterRegistry :=
  ⟨Dict.ofList [("join", Filter.join), ("concat", Filter.concat), ("first", Filter.first),
    ("last", Filter.last), ("map", Filter.map), ("push", Filter.push), ("pop", Filter.pop),
    ("size", Filter.size)]⟩

def contains (r : FilterRegistry) (name : String) : Bool :=
  r.filters.contains name

def apply (r : FilterRegistry) (name : String) (v : Value) (arguments : List Value) : Evaluated Value :=
  match r.filters.get? name with
  | some f => f v arguments
  | none => .error (EvalFault.unknownFilter name).nowhere

def describe (r : FilterRegistry) : String :=
  "FilterRegistry \x7b filters: " ++ Text.bracketed (r.filters.keys.map Text.quoted) ++ " \x7d"

end FilterRegistry

end Stencil

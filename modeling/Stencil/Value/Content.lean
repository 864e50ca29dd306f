import Stencil.Value.Basic
import Stencil.Json.Basic
import Stencil.Error.Failure

namespace Stencil

inductive Content where
  | null
  | bool (b : Bool)
  | int (n : Int64)
  | double (x : Float)
  | string (s : String)
  | list (items : List Content)
  | record (fields : List (String × Content))
  | sealed (typeName : String)
deriving Repr, Inhabited

namespace Value

def listOf (length : Nat) (items : List Content) : List Content :=
  (List.range length).map fun i => items[i]?.getD .null

/-- One field for each name, with the value that the name has first. -/
def recordOf (names : List String) (fields : List (String × Content)) : List (String × Content) :=
  (sortNames names).map fun name => (name, (fields.lookup name).getD .null)

mutual

def content : Value → Content
  | null => .null
  | bool b => .bool b
  | int n => .int n
  | double x => .double x
  | string s => .string s
  | array items => .list (contents items)
  | map entries => .record (fieldContents entries)
  | host kind items names properties =>
      if kind.isArray then .list (listOf kind.length (contents items))
      else if kind.isMap then .record (recordOf names (fieldContents properties))
      else .sealed kind.typeName

def contents : List Value → List Content
  | [] => []
  | v :: rest => v.content :: contents rest

def fieldContents : List (String × Value) → List (String × Content)
  | [] => []
  | (k, v) :: rest => (k, v.content) :: fieldContents rest

end

end Value

namespace Content

/-- Kinds that cannot be compared otherwise come in this order. -/
def rank : Content → Nat
  | null => 0
  | bool _ => 1
  | int _ => 2
  | double _ => 3
  | string _ => 4
  | list _ => 5
  | record _ => 6
  | sealed _ => 7

/-- A NaN is equal to a NaN and greater than every number. -/
def compareDoubles (x y : Float) : Ordering :=
  if x < y then .lt
  else if x == y then .eq
  else if x > y then .gt
  else compare x.isNaN y.isNaN

mutual

/-- Integers and doubles compare as numbers. Longer lists and records are greater. -/
def compare : Content → Content → Ordering
  | null, null => .eq
  | bool a, bool b => Ord.compare a b
  | int a, int b => Ord.compare a b
  | int a, double y => compareDoubles (Value.intToDouble a) y
  | double x, int b => compareDoubles x (Value.intToDouble b)
  | double x, double y => compareDoubles x y
  | string a, string b => Ord.compare a b
  | list xs, list ys => (Ord.compare xs.length ys.length).then (compareItems xs ys)
  | record xs, record ys => (Ord.compare xs.length ys.length).then (compareFields xs ys)
  | sealed a, sealed b => Ord.compare a b
  | a, b => Ord.compare a.rank b.rank

def compareItems : List Content → List Content → Ordering
  | x :: xs, y :: ys => (compare x y).then (compareItems xs ys)
  | _, _ => .eq

def compareFields : List (String × Content) → List (String × Content) → Ordering
  | (k, x) :: xs, (l, y) :: ys =>
      ((Ord.compare k l).then (compare x y)).then (compareFields xs ys)
  | _, _ => .eq

end

mutual

def toJson : Content → Json
  | null => .null
  | bool b => .bool b
  | int n => .int n.toInt
  | double x => if x.isFinite then .double x else .null
  | string s => .string s
  | list items => .array (itemsToJson items)
  | record fields => .object (fieldsToJson fields)
  | sealed typeName => .string ("<" ++ typeName ++ ">")

def itemsToJson : List Content → List Json
  | [] => []
  | x :: rest => x.toJson :: itemsToJson rest

def fieldsToJson : List (String × Content) → List (String × Json)
  | [] => []
  | (k, x) :: rest => (k, x.toJson) :: fieldsToJson rest

end

end Content

namespace Value

def compare (a b : Value) : Ordering :=
  a.content.compare b.content

def toJson (v : Value) : Json :=
  v.content.toJson

def jsonText (v : Value) : String :=
  v.toJson.text

/-- Null shows nothing, a string itself, and a collection or host object its JSON text. -/
def display : Value → String
  | null => ""
  | bool true => "true"
  | bool false => "false"
  | int n => intText n.toInt
  | double x => Double.displayText x
  | string s => s
  | v => v.jsonText

mutual

def ofJson : Json → Value
  | .null => null
  | .bool b => bool b
  | .int n =>
      match integer? n with
      | some k => int k
      | none => double (Float.ofInt n)
  | .double x => double x
  | .string s => string s
  | .array items => array (ofJsonItems items)
  | .object fields => map (ofJsonFields fields)

def ofJsonItems : List Json → List Value
  | [] => []
  | j :: rest => ofJson j :: ofJsonItems rest

def ofJsonFields : List (String × Json) → List (String × Value)
  | [] => []
  | (k, j) :: rest => (k, ofJson j) :: ofJsonFields rest

end

def objectOfJson (j : Json) : Except Failure (Dict Value) :=
  match ofJson j with
  | map entries => .ok entries
  | v => .error (.serialization (.notAnObject v.typeName))

def ofNat (n : Nat) : Value :=
  int (countOf n)

def ofFloat32 (x : Float32) : Value :=
  double x.toFloat

def ofOption {α : Type} (f : α → Value) : Option α → Value
  | none => null
  | some a => f a

def ofList {α : Type} (f : α → Value) (xs : List α) : Value :=
  array (xs.map f)

def ofBindings {α : Type} (f : α → Value) (bindings : List (String × α)) : Value :=
  map ((Dict.ofList bindings).mapValues f)

end Value

end Stencil

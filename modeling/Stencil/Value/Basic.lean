import Stencil.Basic
import Stencil.Number

namespace Stencil

/-- What a host object says of itself apart from its contents. -/
structure HostKind where
  typeName : String
  isArray : Bool
  isMap : Bool
  length : Nat
deriving DecidableEq, Repr

inductive Value where
  | null
  | bool (b : Bool)
  | int (n : Int64)
  | double (x : Float)
  | string (s : String)
  | array (items : List Value)
  | map (entries : List (String × Value))
  /-- The names that it lists need not be those that it answers. -/
  | host (kind : HostKind) (items : List Value) (names : List String) (properties : List (String × Value))
deriving Repr, Inhabited

namespace Value

def typeName : Value → String
  | null => "null"
  | bool _ => "bool"
  | int _ => "int"
  | double _ => "double"
  | string _ => "string"
  | array _ => "array"
  | map _ => "map"
  | host kind _ _ _ => kind.typeName

def isNull : Value → Bool
  | null => true
  | _ => false

def isArrayLike : Value → Bool
  | array _ => true
  | host kind _ _ _ => kind.isArray
  | _ => false

/-- A host object that is both counts as an array. -/
def isMapLike : Value → Bool
  | map _ => true
  | host kind _ _ _ => kind.isMap && !kind.isArray
  | _ => false

/-- Only null, false and zero are not. -/
def isTruthy : Value → Bool
  | bool b => b
  | int n => n != 0
  | null => false
  | _ => true

def bool? : Value → Option Bool
  | bool b => some b
  | _ => none

def int? : Value → Option Int64
  | int n => some n
  | _ => none

/-- The nearest double. Of two that are equally near it is the one with the even significand. -/
def intToDouble (n : Int64) : Float :=
  let size := n.toInt.natAbs.toUInt64.toFloat
  if n.toInt < 0 then -size else size

def double? : Value → Option Float
  | int n => some (intToDouble n)
  | double x => some x
  | _ => none

def string? : Value → Option String
  | string s => some s
  | _ => none

def map? : Value → Option (Dict Value)
  | map entries => some entries
  | _ => none

/-- The first `length` elements of a host object, null where it has none. -/
def hostElements (kind : HostKind) (items : List Value) : List Value :=
  (List.range kind.length).map fun i => items[i]?.getD null

def elements? : Value → Option (List Value)
  | array items => some items
  | host kind items _ _ => if kind.isArray then some (hostElements kind items) else none
  | _ => none

def sortNames (names : List String) : List String :=
  names.mergeSort (fun a b => (compare a b).isLE)

/-- In order. A host object may list a name twice. -/
def propertyNames? : Value → Option (List String)
  | map entries => some (entries.map Prod.fst)
  | host kind _ names _ => if kind.isMap then some (sortNames names) else none
  | _ => none

def length? : Value → Option Nat
  | string s => some s.length
  | array items => some items.length
  | map entries => some entries.length
  | host kind _ _ _ => if kind.isArray || kind.isMap then some kind.length else none
  | _ => none

/-- Null outside the value's range, and of a value that is not array-like. -/
def element (v : Value) (index : Int) : Value :=
  match index with
  | .negSucc _ => null
  | .ofNat i =>
      match v with
      | array items => items[i]?.getD null
      | host kind items _ _ => if kind.isArray && i < kind.length then items[i]?.getD null else null
      | _ => null

/-- Null where there is no such property. -/
def property (v : Value) (name : String) : Value :=
  match v with
  | map entries => (entries.lookup name).getD null
  | host kind _ _ properties => if kind.isMap then (properties.lookup name).getD null else null
  | _ => null

end Value

end Stencil

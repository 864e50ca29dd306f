import Stencil.Basic
import Stencil.Json.Basic

namespace Stencil

namespace Toml

structure Date where
  year : Nat
  month : Nat
  day : Nat
deriving DecidableEq, Repr

structure Time where
  hour : Nat
  minute : Nat
  second : Nat
  fraction : Nat
deriving DecidableEq, Repr

inductive Zone where
  | universal
  | minutes (n : Int)
deriving DecidableEq, Repr

inductive Moment where
  | date (d : Date)
  | time (t : Time)
  | dateTime (d : Date) (t : Time) (zone : Option Zone)
deriving DecidableEq, Repr

end Toml

inductive Toml where
  | string (s : String)
  | integer (n : Int)
  | float (x : Float)
  | boolean (b : Bool)
  | moment (m : Toml.Moment)
  | array (items : List Toml)
  | table (fields : List (String × Toml))
deriving Repr

namespace Toml

def padded (width n : Nat) : String :=
  let digits := (Nat.repr n).toList
  String.ofList (List.replicate (width - digits.length) '0' ++ digits)

def Date.text (d : Date) : String :=
  padded 4 d.year ++ "-" ++ padded 2 d.month ++ "-" ++ padded 2 d.day

/-- The fraction has no trailing zeros, and a fraction of zero is not written. -/
def Time.text (t : Time) : String :=
  let fraction := ((padded 9 t.fraction).toList.reverse.dropWhile (· = '0')).reverse
  let tail := if fraction.isEmpty then "" else "." ++ String.ofList fraction
  padded 2 t.hour ++ ":" ++ padded 2 t.minute ++ ":" ++ padded 2 t.second ++ tail

def Zone.text : Zone → String
  | .universal => "Z"
  | .minutes n =>
      let sign := if n < 0 then "-" else "+"
      sign ++ padded 2 (n.natAbs / 60) ++ ":" ++ padded 2 (n.natAbs % 60)

def Moment.text : Moment → String
  | .date d => d.text
  | .time t => t.text
  | .dateTime d t zone => d.text ++ "T" ++ t.text ++ (zone.map Zone.text).getD ""

mutual

/-- A date is its text. A number that is not finite has no JSON form and becomes null. -/
def toJson : Toml → Json
  | .string s => .string s
  | .integer n => .int n
  | .float x => if x.isFinite then .double x else .null
  | .boolean b => .bool b
  | .moment m => .string m.text
  | .array items => .array (itemsToJson items)
  | .table fields => .object (Dict.ofList (fieldsToJson fields))

def itemsToJson : List Toml → List Json
  | [] => []
  | t :: rest => t.toJson :: itemsToJson rest

def fieldsToJson : List (String × Toml) → List (String × Json)
  | [] => []
  | (k, t) :: rest => (k, t.toJson) :: fieldsToJson rest

end

end Toml

end Stencil

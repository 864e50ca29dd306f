import Stencil.Basic
import Stencil.Number
import Stencil.Text.Quoted

namespace Stencil

inductive Json where
  | null
  | bool (b : Bool)
  | int (n : Int)
  | double (x : Float)
  | string (s : String)
  | array (items : List Json)
  | object (fields : List (String × Json))
deriving Repr, Inhabited

namespace Json

def escape (c : Char) : String :=
  match c with
  | '"' => "\\\""
  | '\\' => "\\\\"
  | '\n' => "\\n"
  | '\r' => "\\r"
  | '\t' => "\\t"
  | '\x08' => "\\b"
  | '\x0c' => "\\f"
  | _ =>
      if c.toNat < 0x10 then "\\u000" ++ Text.hexText c.toNat
      else if c.toNat < 0x20 then "\\u00" ++ Text.hexText c.toNat
      else c.toString

def stringText (s : String) : String :=
  "\"" ++ String.join (s.toList.map escape) ++ "\""

def doubleText (x : Float) : String :=
  if x.isFinite then Double.jsonText x else "null"

mutual

def text : Json → String
  | .null => "null"
  | .bool true => "true"
  | .bool false => "false"
  | .int n => intText n
  | .double x => doubleText x
  | .string s => stringText s
  | .array items => "[" ++ String.intercalate "," (itemTexts items) ++ "]"
  | .object fields => "\x7b" ++ String.intercalate "," (fieldTexts fields) ++ "\x7d"

def itemTexts : List Json → List String
  | [] => []
  | j :: rest => j.text :: itemTexts rest

def fieldTexts : List (String × Json) → List String
  | [] => []
  | (k, j) :: rest => (stringText k ++ ":" ++ j.text) :: fieldTexts rest

end

mutual

/-- The second tree takes precedence. -/
def merge (base : Json) : Json → Json
  | .object fields =>
      match base with
      | .object old => .object (mergeFields old fields)
      | _ => .object fields
  | j => j

def mergeFields (old : Dict Json) : List (String × Json) → Dict Json
  | [] => old
  | (k, j) :: rest =>
      let merged := match old.get? k with
        | some base => merge base j
        | none => j
      mergeFields (old.insert k merged) rest

end

end Json

end Stencil

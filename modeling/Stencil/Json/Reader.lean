import Stencil.Json.Number
import Stencil.Basic

namespace Stencil.Json

def isBlank (c : Char) : Bool :=
  c = ' ' || c = '\n' || c = '\t' || c = '\r'

def unit? (a b c d : Char) : Option Nat := do
  return 4096 * (← hexValue? a) + 256 * (← hexValue? b) + 16 * (← hexValue? c) + (← hexValue? d)

def isLeading (n : Nat) : Bool :=
  0xD800 ≤ n && n < 0xDC00

def isTrailing (n : Nat) : Bool :=
  0xDC00 ≤ n && n < 0xE000

def simpleEscape? (c : Char) : Option Char :=
  match c with
  | '"' => some '"'
  | '\\' => some '\\'
  | '/' => some '/'
  | 'b' => some '\x08'
  | 'f' => some '\x0c'
  | 'n' => some '\n'
  | 'r' => some '\r'
  | 't' => some '\t'
  | _ => none

def chars : List Char → Option (List Char × List Char)
  | [] => none
  | '"' :: rest => some ([], rest)
  | '\\' :: 'u' :: a :: b :: c :: d :: '\\' :: 'u' :: e :: f :: g :: h :: rest =>
      match unit? a b c d with
      | none => none
      | some n =>
          if isTrailing n then none
          else if isLeading n then
            match unit? e f g h with
            | none => none
            | some m =>
                if isTrailing m then
                  (chars rest).map fun (s, r) =>
                    (Char.ofNat (0x10000 + 1024 * (n - 0xD800) + (m - 0xDC00)) :: s, r)
                else none
          else (chars ('\\' :: 'u' :: e :: f :: g :: h :: rest)).map fun (s, r) => (Char.ofNat n :: s, r)
  | '\\' :: 'u' :: a :: b :: c :: d :: rest =>
      match unit? a b c d with
      | none => none
      | some n =>
          if isLeading n || isTrailing n then none
          else (chars rest).map fun (s, r) => (Char.ofNat n :: s, r)
  | '\\' :: c :: rest =>
      match simpleEscape? c with
      | none => none
      | some e => (chars rest).map fun (s, r) => (e :: s, r)
  | c :: rest =>
      if c.toNat < 0x20 then none else (chars rest).map fun (s, r) => (c :: s, r)

def literal (word : String) (j : Json) (cs : List Char) : Option (Json × List Char) :=
  if word.toList.isPrefixOf cs then some (j, cs.drop word.length) else none

def scalar (cs : List Char) : Option (Json × List Char) :=
  match cs with
  | 'n' :: _ => literal "null" .null cs
  | 't' :: _ => literal "true" (.bool true) cs
  | 'f' :: _ => literal "false" (.bool false) cs
  | '"' :: rest => (chars rest).map fun (s, r) => (.string (String.ofList s), r)
  | _ => number cs

mutual

def value (depth : Nat) (cs : List Char) : Option (Json × Shorter cs) :=
  match nextNot? isBlank cs with
  | some ('[', ⟨rest, _⟩) =>
      if depth = 0 then none
      else match nextNot? isBlank rest with
        | some (']', ⟨r, _⟩) => some (.array [], ⟨r, by omega⟩)
        | _ => do
            let (items, ⟨r, _⟩) ← items (depth - 1) rest
            return (.array items, ⟨r, by omega⟩)
  | some ('\x7b', ⟨rest, _⟩) =>
      if depth = 0 then none
      else match nextNot? isBlank rest with
        | some ('\x7d', ⟨r, _⟩) => some (.object [], ⟨r, by omega⟩)
        | _ => do
            let (fields, ⟨r, _⟩) ← fields (depth - 1) rest
            return (.object (Dict.ofList fields), ⟨r, by omega⟩)
  | _ => shorter? cs (scalar (cs.dropWhile isBlank))
termination_by (cs.length, 0)

def items (depth : Nat) (cs : List Char) : Option (List Json × Shorter cs) := do
  let (item, ⟨rest, _⟩) ← value depth cs
  match nextNot? isBlank rest with
  | some (']', ⟨r, _⟩) => return ([item], ⟨r, by omega⟩)
  | some (',', ⟨r, _⟩) =>
      let (more, ⟨r', _⟩) ← items depth r
      return (item :: more, ⟨r', by omega⟩)
  | _ => none
termination_by (cs.length, 1)

def fields (depth : Nat) (cs : List Char) : Option (List (String × Json) × Shorter cs) :=
  match nextNot? isBlank cs with
  | some ('"', ⟨opened, _⟩) => do
      let (name, ⟨named, _⟩) ← shorter? opened (chars opened)
      match nextNot? isBlank named with
      | some (':', ⟨start, _⟩) => do
          let (j, ⟨rest, _⟩) ← value depth start
          match nextNot? isBlank rest with
          | some ('\x7d', ⟨r, _⟩) => return ([(String.ofList name, j)], ⟨r, by omega⟩)
          | some (',', ⟨r, _⟩) =>
              let (more, ⟨r', _⟩) ← fields depth r
              return ((String.ofList name, j) :: more, ⟨r', by omega⟩)
          | _ => none
      | _ => none
  | _ => none
termination_by (cs.length, 1)

end

def nestingLimit : Nat := 127

/-- One value with nothing but blanks around it. -/
def read? (text : String) : Option Json := do
  let (j, rest) ← value nestingLimit text.toList
  if rest.1.all isBlank then some j else none

end Stencil.Json

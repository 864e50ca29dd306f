import Stencil.Toml.Moment
import Stencil.Toml.Number
import Stencil.Toml.Table
import Stencil.Toml.Text

namespace Stencil.Toml

/-- Arrays and tables within one another stay below this depth, and so do the keys of one name. -/
def nestingLimit : Nat := 80

def path (cs : List Char) : Option (List String × List Char) :=
  match keyPath cs with
  | some (names, rest) => if names.length < nestingLimit then some (names, rest) else none
  | none => none

def assigned? (cs : List Char) : Option (List String × List Char) :=
  match path cs with
  | some (names, '=' :: rest) => some (names, rest.dropWhile isBlank)
  | _ => none

def skipGap (inComment : Bool) : List Char → List Char
  | [] => []
  | '\n' :: rest => skipGap false rest
  | '\r' :: '\n' :: rest => skipGap false rest
  | c :: rest =>
      if inComment then if isVisible c then skipGap true rest else c :: rest
      else if isBlank c then skipGap false rest
      else if c = '#' then skipGap true rest
      else c :: rest

theorem length_skipGap_le (inComment : Bool) (cs : List Char) :
    (skipGap inComment cs).length ≤ cs.length := by
  fun_induction skipGap inComment cs <;> simp <;> omega

def afterGap? (cs : List Char) : Option (Char × Shorter cs) :=
  match skipGap false cs, length_skipGap_le false cs with
  | [], _ => none
  | c :: rest, h => some (c, ⟨rest, h⟩)

def word (text : String) (v : Toml) (cs : List Char) : Option (Toml × List Char) :=
  if text.toList.isPrefixOf cs then some (v, cs.drop text.length) else none

def scalar (cs : List Char) : Option (Toml × List Char) :=
  match cs with
  | 't' :: _ => word "true" (.boolean true) cs
  | 'f' :: _ => word "false" (.boolean false) cs
  | '"' :: _ | '\'' :: _ => (quoted cs).map fun (s, r) => (.string (String.ofList s), r)
  | _ => match moment? cs with
    | some m => m.map fun (m, r) => (.moment m, r)
    | none => number cs

mutual

def value (depth : Nat) (cs : List Char) : Option (Toml × Shorter cs) :=
  match cs with
  | '[' :: rest =>
      if depth = 0 then none
      else match afterGap? rest with
        | some (']', ⟨r, h⟩) => some (.array [], ⟨r, Nat.lt_succ_of_lt h⟩)
        | _ => do
            let (items, ⟨r, h⟩) ← items (depth - 1) rest
            return (.array items, ⟨r, Nat.lt_succ_of_lt h⟩)
  | '\x7b' :: rest =>
      if depth = 0 then none
      else match nextNot? isBlank rest with
        | some ('\x7d', ⟨r, h⟩) => some (.table [], ⟨r, Nat.lt_succ_of_lt h⟩)
        | _ => do
            let (t, ⟨r, h⟩) ← fields (depth - 1) [] rest
            return (t.toToml, ⟨r, Nat.lt_succ_of_lt h⟩)
  | cs => shorter? cs (scalar cs)
termination_by 2 * cs.length

/-- The values up to the bracket that closes an array. A comma may stand before it. -/
def items (depth : Nat) (cs : List Char) : Option (List Toml × Shorter cs) := do
  have hs := length_skipGap_le false cs
  let (v, ⟨rest, hv⟩) ← value depth (skipGap false cs)
  have hr : rest.length < cs.length := Nat.lt_of_lt_of_le hv hs
  match afterGap? rest with
  | some (']', ⟨r, h⟩) => return ([v], ⟨r, Nat.lt_trans h hr⟩)
  | some (',', ⟨more, h⟩) =>
      have hm : more.length < cs.length := Nat.lt_trans h hr
      match afterGap? more with
      | some (']', ⟨r, h⟩) => return ([v], ⟨r, Nat.lt_trans h hm⟩)
      | _ =>
          let (vs, ⟨r, h⟩) ← items depth more
          return (v :: vs, ⟨r, Nat.lt_trans h hm⟩)
  | _ => none
termination_by 2 * cs.length + 1

def fields (depth : Nat) (t : Table) (cs : List Char) : Option (Table × Shorter cs) :=
  match shorter? cs (assigned? cs) with
  | some (names, ⟨start, _⟩) => do
      let (v, ⟨rest, _⟩) ← value depth start
      let t ← t.assign v true names
      match nextNot? isBlank rest with
      | some ('\x7d', ⟨r, _⟩) => return (t, ⟨r, by omega⟩)
      | some (',', ⟨more, _⟩) =>
          let (t, ⟨r, _⟩) ← fields depth t more
          return (t, ⟨r, by omega⟩)
      | _ => none
  | _ => none
termination_by 2 * cs.length + 1

end

def endOfLine (cs : List Char) : Option (List Char) :=
  let rest := match cs.dropWhile isBlank with
    | '#' :: r => r.dropWhile isVisible
    | r => r
  if rest.isEmpty then some [] else afterNewline? rest

/-- The document so far, and the keys of the last header. -/
structure Draft where
  root : Table
  current : List String

namespace Draft

def assign (d : Draft) (names : List String) (v : Toml) : Option Draft :=
  (Table.within (Table.assign v true names) d.current d.root).map ({ d with root := · })

def enter (d : Draft) (openLast : String → Table → Option Table) (names : List String) :
    Option Draft := do
  let last ← names.getLast?
  let root ← Table.within (openLast last) names.dropLast d.root
  return ⟨root, names⟩

/-- The line at the start of the text, and what follows it. -/
def line (d : Draft) (cs : List Char) : Option (Draft × List Char) :=
  match cs with
  | '[' :: '[' :: rest => do
      let (names, r) ← path rest
      match r with
      | ']' :: ']' :: r => return (← d.enter Table.openRow names, ← endOfLine r)
      | _ => none
  | '[' :: rest => do
      let (names, r) ← path rest
      match r with
      | ']' :: r => return (← d.enter Table.openTable names, ← endOfLine r)
      | _ => none
  | _ => do
      let (names, start) ← assigned? cs
      let (v, rest) ← value (nestingLimit - 1) start
      return (← d.assign names v, ← endOfLine rest)

def lines (d : Draft) (cs : List Char) : Option Draft :=
  match afterGap? cs with
  | none => some d
  | some (c, ⟨rest, _⟩) =>
      match shorter? (c :: rest) (d.line (c :: rest)) with
      | some (d, ⟨left, _⟩) => d.lines left
      | none => none
termination_by cs.length
decreasing_by simp_all only [List.length_cons]; omega

end Draft

def dropMark (cs : List Char) : List Char :=
  match cs with
  | '\uFEFF' :: rest => rest
  | _ => cs

def read? (text : String) : Option Toml := do
  let d ← Draft.lines ⟨[], []⟩ (dropMark text.toList)
  d.root.toToml.withMoments

end Stencil.Toml

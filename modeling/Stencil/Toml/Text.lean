import Stencil.Number
import Stencil.Basic

namespace Stencil.Toml

def isBlank (c : Char) : Bool :=
  c = ' ' || c = '\t'

def isVisible (c : Char) : Bool :=
  c = '\t' || (0x20 ≤ c.toNat && c.toNat ≠ 0x7F)

def scalar? (digits : List Char) : Option Char := do
  let n ← digits.foldlM (fun n c => (hexValue? c).map (16 * n + ·)) 0
  if n.isValidChar then some (Char.ofNat n) else none

def escaped : List Char → Option (Char × List Char)
  | 'b' :: rest => some ('\x08', rest)
  | 't' :: rest => some ('\t', rest)
  | 'n' :: rest => some ('\n', rest)
  | 'f' :: rest => some ('\x0c', rest)
  | 'r' :: rest => some ('\r', rest)
  | '"' :: rest => some ('"', rest)
  | '\\' :: rest => some ('\\', rest)
  | 'u' :: a :: b :: c :: d :: rest => (scalar? [a, b, c, d]).map (·, rest)
  | 'U' :: a :: b :: c :: d :: e :: f :: g :: h :: rest =>
      (scalar? [a, b, c, d, e, f, g, h]).map (·, rest)
  | _ => none

def afterNewline? : List Char → Option (List Char)
  | '\n' :: rest => some rest
  | '\r' :: '\n' :: rest => some rest
  | _ => none

def dropNewline (cs : List Char) : List Char :=
  (afterNewline? cs).getD cs

/-- Blanks and line ends are dropped up to the first other character. -/
def dropGap : List Char → List Char
  | '\n' :: rest => dropGap rest
  | '\r' :: '\n' :: rest => dropGap rest
  | c :: rest => if isBlank c then dropGap rest else c :: rest
  | [] => []

def piece (mark : Char) (lines : Bool) (cs : List Char) : Option (List Char × List Char) :=
  match cs with
  | '\\' :: rest =>
      if mark = '\'' then some (['\\'], rest)
      else if lines && (afterNewline? (rest.dropWhile isBlank)).isSome then some ([], dropGap rest)
      else (escaped rest).map fun (c, r) => ([c], r)
  | c :: rest =>
      if isVisible c then some ([c], rest)
      else if lines then (afterNewline? cs).map (['\n'], ·)
      else none
  | [] => none

def prepend (p : List Char) : Option (List Char × List Char) → Option (List Char × List Char)
  | some (s, rest) => some (p ++ s, rest)
  | none => none

def lineBody (mark : Char) (cs : List Char) : Option (List Char × List Char) :=
  if cs.head? = some mark then some ([], cs.tail)
  else match shorter? cs (piece mark false cs) with
    | some (p, ⟨rest, _⟩) => prepend p (lineBody mark rest)
    | none => none
termination_by cs.length

/-- The text up to a triple mark. Of more than three marks the last three close, so that the text may
end with one mark or two. -/
def linesBody (mark : Char) (cs : List Char) : Option (List Char × List Char) :=
  let marks := cs.takeWhile (· = mark)
  if 3 ≤ marks.length then
    let inner := marks.drop 3 |>.take 2
    some (inner, cs.drop (inner.length + 3))
  else match shorter? cs (piece mark true cs) with
    | some (p, ⟨rest, _⟩) => prepend p (linesBody mark rest)
    | none => none
termination_by cs.length

def quotedLine (cs : List Char) : Option (List Char × List Char) :=
  match cs with
  | '"' :: rest => lineBody '"' rest
  | '\'' :: rest => lineBody '\'' rest
  | _ => none

def quoted (cs : List Char) : Option (List Char × List Char) :=
  match cs with
  | '"' :: '"' :: '"' :: rest => linesBody '"' (dropNewline rest)
  | '\'' :: '\'' :: '\'' :: rest => linesBody '\'' (dropNewline rest)
  | _ => quotedLine cs

def isBare (c : Char) : Bool :=
  c.isAlphanum || c = '_' || c = '-'

def simpleKey (cs : List Char) : Option (List Char × List Char) :=
  let bare := cs.takeWhile isBare
  if bare.isEmpty then quotedLine cs else some (bare, cs.drop bare.length)

def keyPath (cs : List Char) : Option (List String × List Char) :=
  match shorter? cs (simpleKey (cs.dropWhile isBlank)) with
  | none => none
  | some (name, ⟨rest, _⟩) =>
      match nextNot? isBlank rest with
      | some ('.', ⟨more, _⟩) => (keyPath more).map fun (names, r) => (String.ofList name :: names, r)
      | _ => some ([String.ofList name], rest.dropWhile isBlank)
termination_by cs.length

end Stencil.Toml

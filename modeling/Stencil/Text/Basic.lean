namespace Stencil.Text

def isBlank (c : Char) : Bool :=
  let n := c.toNat
  (9 ≤ n && n ≤ 13) || n = 0x20 || n = 0x85 || n = 0xA0 || n = 0x1680 ||
    (0x2000 ≤ n && n ≤ 0x200A) || n = 0x2028 || n = 0x2029 || n = 0x202F || n = 0x205F || n = 0x3000

def trimLeft (cs : List Char) : List Char :=
  cs.dropWhile isBlank

def trimRight (cs : List Char) : List Char :=
  (cs.reverse.dropWhile isBlank).reverse

def trim (cs : List Char) : List Char :=
  trimRight (trimLeft cs)

/-- The pieces between the separators, one more than there are separators. -/
def splitOn (separator : Char) : List Char → List (List Char)
  | [] => [[]]
  | c :: cs =>
      if c = separator then [] :: splitOn separator cs
      else (splitOn separator cs).modifyHead (c :: ·)

theorem splitOn_of_not_mem {separator : Char} {cs : List Char} (h : separator ∉ cs) : splitOn separator cs = [cs] := by
  induction cs with
  | nil => rfl
  | cons c cs ih =>
      obtain ⟨hc, hcs⟩ := List.ne_and_not_mem_of_not_mem_cons h
      rw [splitOn, if_neg hc.symm, ih hcs]
      rfl

theorem splitOn_append {separator : Char} {front : List Char} (h : separator ∉ front) (rest : List Char) :
    splitOn separator (front ++ separator :: rest) = front :: splitOn separator rest := by
  induction front with
  | nil => rw [List.nil_append, splitOn, if_pos rfl]
  | cons c front ih =>
      obtain ⟨hc, hfront⟩ := List.ne_and_not_mem_of_not_mem_cons h
      rw [List.cons_append, splitOn, if_neg hc.symm, ih hfront]
      rfl

def byteLength : List Char → Nat
  | [] => 0
  | c :: cs => c.utf8Size + byteLength cs

/-- The longest start of a text that takes at most `n` bytes. -/
def upTo : List Char → Nat → List Char
  | [], _ => []
  | c :: cs, n => if c.utf8Size ≤ n then c :: upTo cs (n - c.utf8Size) else []

def beginningIn : List Char → Nat → List Char
  | [], _ => []
  | c :: cs, n => if n = 0 then [] else c :: beginningIn cs (n - c.utf8Size)

/-- The characters that begin at or after `start` and before `stop`. -/
def span (cs : List Char) (start stop : Nat) : List Char :=
  beginningIn (cs.drop (upTo cs start).length) (stop - start)

structure Position where
  line : Nat
  column : Nat
deriving DecidableEq, Repr

namespace Position

def first : Position := ⟨1, 1⟩

def advance (p : Position) (c : Char) : Position :=
  if c = '\n' then ⟨p.line + 1, 1⟩ else ⟨p.line, p.column + 1⟩

end Position

/-- An offset inside a character, or past the end, counts as the boundary below it. -/
def position (source : String) (offset : Nat) : Position :=
  (upTo source.toList offset).foldl Position.advance .first

def lineAt (source : String) (offset : Nat) : String :=
  let before := upTo source.toList offset
  let after := source.toList.drop before.length
  String.ofList ((before.reverse.takeWhile (· ≠ '\n')).reverse ++ after.takeWhile (· ≠ '\n'))

/-- Every carriage return that stands before a newline is dropped. -/
def joinLineEnds : List Char → List Char
  | '\r' :: '\n' :: cs => '\n' :: joinLineEnds cs
  | c :: cs => c :: joinLineEnds cs
  | [] => []

def withUnixLines (source : String) : String :=
  String.ofList (joinLineEnds source.toList)

end Stencil.Text

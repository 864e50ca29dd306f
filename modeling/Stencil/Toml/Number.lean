import Stencil.Toml.Basic

namespace Stencil.Toml

def digitRun (isDigit : Char → Bool) : List Char → Option (List Char × List Char)
  | [] => none
  | [c] => if isDigit c then some ([c], []) else none
  | c :: '_' :: rest =>
      if isDigit c then (digitRun isDigit rest).map fun (ds, r) => (c :: ds, r) else none
  | c :: d :: rest =>
      if isDigit c then
        if isDigit d then (digitRun isDigit (d :: rest)).map fun (ds, r) => (c :: ds, r)
        else some ([c], d :: rest)
      else none

def isNegative (cs : List Char) : Bool :=
  cs.head? = some '-'

def dropSign (cs : List Char) : List Char :=
  match cs with
  | '+' :: rest => rest
  | '-' :: rest => rest
  | _ => cs

def wholeDigits (cs : List Char) : Option (List Char × List Char) :=
  match cs with
  | '0' :: rest => some (['0'], rest)
  | _ => digitRun Char.isDigit cs

def exponentPart (cs : List Char) : Option (Int × List Char) :=
  match cs with
  | 'e' :: rest | 'E' :: rest => do
      let (ds, r) ← digitRun Char.isDigit (dropSign rest)
      return (if isNegative rest then -(ofDigits ds : Int) else ofDigits ds, r)
  | _ => some (0, cs)

def infinite : Float :=
  1.0 / 0.0

/-- The number nearest to `n * 10 ^ e`. From `10 ^ 310` upward it is infinite, below `10 ^ -330` zero. -/
def nearest (n : Nat) (e : Int) : Float :=
  let magnitude : Int := (Nat.repr n).length + e
  if n = 0 ∨ magnitude < -330 then 0
  else if 310 < magnitude then infinite
  else match e with
    | .ofNat k => Float.ofScientific n false k
    | .negSucc k => Float.ofScientific n true (k + 1)

/-- A number that is too great is refused; one that is too small in size below zero is not. -/
def float? (negative : Bool) (n : Nat) (e : Int) : Option Toml :=
  let x := nearest n e
  if negative then some (.float (-x))
  else if x.isFinite then some (.float x)
  else none

def integer? (n : Int) : Option Toml :=
  (Stencil.integer? n).map fun _ => .integer n

def decimal (cs : List Char) : Option (Toml × List Char) := do
  let negative := isNegative cs
  let (whole, rest) ← wholeDigits (dropSign cs)
  match rest with
  | '.' :: r =>
      let (fraction, r) ← digitRun Char.isDigit r
      let (e, r) ← exponentPart r
      return (← float? negative (ofDigits (whole ++ fraction)) (e - fraction.length), r)
  | 'e' :: _ | 'E' :: _ =>
      let (e, r) ← exponentPart rest
      return (← float? negative (ofDigits whole) e, r)
  | _ =>
      let n : Int := ofDigits whole
      return (← integer? (if negative then -n else n), rest)

def based (base : Nat) (cs : List Char) : Option (Toml × List Char) := do
  let (ds, rest) ← digitRun (fun c => (hexValue? c).any (· < base)) cs
  let n := ds.foldl (fun n c => base * n + (hexValue? c).getD 0) 0
  return (← integer? n, rest)

def number (cs : List Char) : Option (Toml × List Char) :=
  match cs with
  | '0' :: 'x' :: rest => based 16 rest
  | '0' :: 'o' :: rest => based 8 rest
  | '0' :: 'b' :: rest => based 2 rest
  | _ => match dropSign cs with
    | 'i' :: 'n' :: 'f' :: rest => some (.float (if isNegative cs then -infinite else infinite), rest)
    | 'n' :: 'a' :: 'n' :: rest => some (.float (0.0 / 0.0), rest)
    | _ => decimal cs

end Stencil.Toml

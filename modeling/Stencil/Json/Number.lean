import Stencil.Json.Basic

namespace Stencil.Json

def maxDigits : Nat := 0xFFFFFFFFFFFFFFFF

/-- The value is `digits * 10 ^ exponent`. -/
structure Parts where
  digits : Nat
  exponent : Int

namespace Parts

/-- A digit before the point; from the first that does not fit, digits only count places. -/
def addWhole (p : Parts) (c : Char) : Parts :=
  let n := 10 * p.digits + digitValue c
  if p.exponent = 0 ∧ n ≤ maxDigits then { p with digits := n } else { p with exponent := p.exponent + 1 }

def addFraction (p : Parts) : List Char → Parts
  | [] => p
  | c :: cs =>
      let n := 10 * p.digits + digitValue c
      if n ≤ maxDigits then addFraction ⟨n, p.exponent - 1⟩ cs else p

def powerOfTen (n : Nat) : Float :=
  Float.ofScientific 1 false n

def greatestPower : Nat := 308

def scaleWithin (x : Float) (exponent : Int) : Nat → Option Float
  | 0 => some 0
  | steps + 1 =>
      if exponent.natAbs ≤ greatestPower then
        if 0 ≤ exponent then
          let y := x * powerOfTen exponent.natAbs
          if y.isFinite then some y else none
        else some (x / powerOfTen exponent.natAbs)
      else if x == 0 then some x
      else if 0 ≤ exponent then none
      else scaleWithin (x / powerOfTen greatestPower) (exponent + greatestPower) steps

def toFloat? (p : Parts) : Option Float :=
  scaleWithin (Float.ofNat p.digits) p.exponent 3

end Parts

def wholeNumber (negative : Bool) (n : Nat) : Json :=
  if negative then
    if n = 0 ∨ 0x8000000000000000 < n then .double (-Float.ofNat n) else .int (-n)
  else .int n

def signed (negative : Bool) (x : Float) : Json :=
  .double (if negative then -x else x)

def exponentPart (cs : List Char) : Option (Int × List Char) :=
  let (negative, rest) := match cs with
    | '+' :: r => (false, r)
    | '-' :: r => (true, r)
    | r => (false, r)
  let digits := rest.takeWhile Char.isDigit
  if digits.isEmpty then none
  else
    let n : Int := ofDigits digits
    some (if negative then -n else n, rest.drop digits.length)

def withExponent (negative : Bool) (p : Parts) (cs : List Char) : Option (Json × List Char) := do
  let (p, rest) ← match cs with
    | 'e' :: r | 'E' :: r => (exponentPart r).map fun (e, r) => ({ p with exponent := p.exponent + e }, r)
    | r => some (p, r)
  let x ← p.toFloat?
  return (signed negative x, rest)

def unsignedNumber (negative : Bool) (cs : List Char) : Option (Json × List Char) :=
  let whole := cs.takeWhile Char.isDigit
  let rest := cs.drop whole.length
  if whole.isEmpty ∨ whole.head? = some '0' ∧ 1 < whole.length then none
  else
    let p := whole.foldl Parts.addWhole ⟨0, 0⟩
    match rest with
    | '.' :: r =>
        let fraction := r.takeWhile Char.isDigit
        if fraction.isEmpty then none
        else withExponent negative (p.addFraction fraction) (r.drop fraction.length)
    | 'e' :: _ | 'E' :: _ => withExponent negative p rest
    | _ =>
        if p.exponent = 0 then some (wholeNumber negative p.digits, rest)
        else withExponent negative p rest

def number (cs : List Char) : Option (Json × List Char) :=
  match cs with
  | '-' :: rest => unsignedNumber true rest
  | _ => unsignedNumber false cs

end Stencil.Json

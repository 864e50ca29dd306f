namespace Stencil

def integer? (n : Int) : Option Int64 :=
  if Int64.minValue.toInt ≤ n ∧ n ≤ Int64.maxValue.toInt then some (Int64.ofInt n) else none

theorem integer?_toInt (n : Int64) : integer? n.toInt = some n := by
  have hle : n.toInt ≤ Int64.maxValue.toInt := n.toInt_le
  have hge : Int64.minValue.toInt ≤ n.toInt := n.le_toInt
  rw [integer?, if_pos ⟨hge, hle⟩, Int64.ofInt_toInt]

/-- A count as a number; a count that does not fit becomes the greatest number. -/
def countOf (n : Nat) : Int64 :=
  (integer? n).getD Int64.maxValue

def intText (n : Int) : String :=
  match n with
  | .ofNat k => Nat.repr k
  | .negSucc k => "-" ++ Nat.repr (k + 1)

def digitValue (c : Char) : Nat :=
  c.toNat - '0'.toNat

def ofDigits (cs : List Char) : Nat :=
  cs.foldl (fun n c => 10 * n + digitValue c) 0

def hexValue? (c : Char) : Option Nat :=
  if c.isDigit then some (c.toNat - '0'.toNat)
  else if 'a' ≤ c ∧ c ≤ 'f' then some (c.toNat - 'a'.toNat + 10)
  else if 'A' ≤ c ∧ c ≤ 'F' then some (c.toNat - 'A'.toNat + 10)
  else none

/-- The value is `significand * 2 ^ exponent`; `narrow` says that the gap below is half the gap above. -/
structure Binary where
  significand : Nat
  exponent : Int
  narrow : Bool
deriving DecidableEq, Repr

/-- The value is `coefficient * 10 ^ exponent`. -/
structure Decimal where
  coefficient : Nat
  exponent : Int
deriving DecidableEq, Repr

inductive TieRule
  | toEven
  | up
deriving DecidableEq, Repr

namespace Binary

def hiddenBit : Nat := 0x10000000000000

def ofFloat (x : Float) : Binary :=
  let bits : Nat := x.toBits.toNat
  let fraction : Nat := bits % hiddenBit
  let biased : Nat := bits / hiddenBit % 2048
  if biased = 0 then ⟨fraction, -1074, false⟩
  else ⟨fraction + hiddenBit, (biased : Int) - 1075, fraction == 0 && 1 < biased⟩

end Binary

structure Ratio where
  num : Nat
  den : Nat

namespace Ratio

def scale (r : Ratio) (base : Nat) (e : Int) : Ratio :=
  match e with
  | .ofNat n => ⟨r.num * Nat.pow base n, r.den⟩
  | .negSucc n => ⟨r.num, r.den * Nat.pow base (n + 1)⟩

def floor (r : Ratio) : Nat :=
  r.num / r.den

def magnitude (r : Ratio) : Int :=
  if r.den ≤ r.num then ((Nat.repr r.floor).length : Int)
  else 1 - ((Nat.repr ((r.den - 1) / r.num)).length : Int)

end Ratio

namespace Decimal

def trim (d : Decimal) : Decimal :=
  let digits := (Nat.repr d.coefficient).toList
  let zeros := (digits.reverse.takeWhile (· = '0')).length
  ⟨ofDigits (digits.take (digits.length - zeros)), d.exponent + zeros⟩

/-- The decimals with unit `10 ^ unit` on both sides of the value, so far as they read back as it. -/
def readingBack (b : Binary) (unit : Int) : List (Nat × Nat) :=
  let quarter : Ratio := (⟨1, 1⟩ : Ratio).scale 2 (b.exponent - 2) |>.scale 10 (-unit)
  let value := 4 * b.significand * quarter.num
  let low := (4 * b.significand - if b.narrow then 1 else 2) * quarter.num
  let high := (4 * b.significand + 2) * quarter.num
  let closed := b.significand % 2 = 0
  let below := value / quarter.den
  [below, below + 1].filterMap fun n =>
    let place := n * quarter.den
    if low < place ∧ place < high ∨ closed ∧ (place = low ∨ place = high) then
      some (n, if value ≤ place then place - value else value - place)
    else none

def choose (tie : TieRule) : List (Nat × Nat) → Option Nat
  | [] => none
  | [(n, _)] => some n
  | (n, d) :: (m, e) :: _ =>
      if d < e then some n
      else if e < d then some m
      else match tie with
        | .up => some m
        | .toEven => some (if n % 2 = 0 then n else m)

/-- The fewest digits that read back as a positive number. Seventeen always do. -/
def shortest (tie : TieRule) (b : Binary) : Decimal :=
  let magnitude := ((⟨b.significand, 1⟩ : Ratio).scale 2 b.exponent).magnitude
  let found := (List.range 17).findSome? fun (n : Nat) =>
    let unit : Int := magnitude - (n + 1 : Nat)
    (choose tie (readingBack b unit)).map fun c => (⟨c, unit⟩ : Decimal)
  (found.getD ⟨0, 0⟩).trim

def zeros (n : Nat) : String :=
  String.ofList (List.replicate n '0')

/-- The digits and the number of them before the point, which may be none or fewer. -/
def pointed (d : Decimal) : List Char × Int :=
  let digits := (Nat.repr d.coefficient).toList
  (digits, digits.length + d.exponent)

def positional (d : Decimal) : String :=
  let (digits, point) := d.pointed
  if point ≤ 0 then "0." ++ zeros (-point).toNat ++ String.ofList digits
  else if digits.length ≤ point then String.ofList digits ++ zeros (point.toNat - digits.length)
  else String.ofList (digits.take point.toNat) ++ "." ++ String.ofList (digits.drop point.toNat)

def scientific (d : Decimal) : String :=
  let (digits, point) := d.pointed
  let exponent := point - 1
  let sign := if 0 ≤ exponent then "e+" else "e-"
  let mantissa := match digits with
    | [] => "0"
    | [c] => String.ofList [c]
    | c :: rest => String.ofList (c :: '.' :: rest)
  mantissa ++ sign ++ Nat.repr exponent.natAbs

end Decimal

namespace Double

def signText (x : Float) : String :=
  if x.toBits ≥ 0x8000000000000000 then "-" else ""

def wholePart? (b : Binary) : Option Nat :=
  match b.exponent with
  | .ofNat n => some (b.significand * Nat.pow 2 n)
  | .negSucc n =>
      let unit := Nat.pow 2 (n + 1)
      if b.significand % unit = 0 then some (b.significand / unit) else none

def specialText (x : Float) : String :=
  if x.isNaN then "NaN" else signText x ++ "inf"

def plainText (x : Float) : String :=
  if x.isFinite then
    let b := Binary.ofFloat x
    if b.significand = 0 then signText x ++ "0"
    else signText x ++ (Decimal.shortest .up b).positional
  else specialText x

def displayText (x : Float) : String :=
  if x.isFinite then
    match wholePart? (Binary.ofFloat x) with
    | some n => signText x ++ Nat.repr n ++ ".0"
    | none => plainText x
  else specialText x

def jsonText (x : Float) : String :=
  let b := Binary.ofFloat x
  if b.significand = 0 then signText x ++ "0.0"
  else
    let d := Decimal.shortest .toEven b
    let point := d.pointed.2
    signText x ++
      if -5 < point ∧ point ≤ 16 then
        if 0 ≤ d.exponent then d.positional ++ ".0" else d.positional
      else d.scientific

end Double

end Stencil

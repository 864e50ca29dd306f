import Stencil.Toml.Basic

namespace Stencil.Toml

def digits? (count : Nat) (cs : List Char) : Option (Nat × List Char) :=
  let ds := cs.take count
  if ds.length = count && ds.all Char.isDigit then some (ofDigits ds, cs.drop count) else none

def expect (c : Char) (cs : List Char) : Option (List Char) :=
  if cs.head? = some c then some cs.tail else none

def isLeap (year : Nat) : Bool :=
  year % 4 = 0 && (year % 100 ≠ 0 || year % 400 = 0)

def daysIn (year month : Nat) : Nat :=
  match month with
  | 2 => if isLeap year then 29 else 28
  | 4 | 6 | 9 | 11 => 30
  | _ => 31

def date (cs : List Char) : Option (Date × List Char) := do
  let (year, cs) ← digits? 4 cs
  let (month, cs) ← digits? 2 (← expect '-' cs)
  let (day, cs) ← digits? 2 (← expect '-' cs)
  if 1 ≤ month ∧ month ≤ 12 ∧ 1 ≤ day ∧ day ≤ daysIn year month then some (⟨year, month, day⟩, cs)
  else none

def fraction (cs : List Char) : Option (Nat × List Char) :=
  match cs with
  | '.' :: rest =>
      let ds := rest.takeWhile Char.isDigit
      if ds.isEmpty then none
      else
        let kept := ds.take 9
        some (ofDigits kept * Nat.pow 10 (9 - kept.length), rest.drop ds.length)
  | _ => some (0, cs)

def time (cs : List Char) : Option (Time × List Char) := do
  let (hour, cs) ← digits? 2 cs
  let (minute, cs) ← digits? 2 (← expect ':' cs)
  let (second, cs) ← digits? 2 (← expect ':' cs)
  let (fraction, cs) ← fraction cs
  if hour ≤ 23 ∧ minute ≤ 59 ∧ second ≤ 60 then some (⟨hour, minute, second, fraction⟩, cs)
  else none

def zone (cs : List Char) : Option (Option Zone × List Char) :=
  match cs with
  | 'Z' :: rest | 'z' :: rest => some (some .universal, rest)
  | '+' :: rest | '-' :: rest => do
      let (hours, r) ← digits? 2 rest
      let (minutes, r) ← digits? 2 (← expect ':' r)
      let n : Int := 60 * hours + minutes
      let shift := if cs.head? = some '-' then -n else n
      if hours ≤ 23 ∧ minutes ≤ 59 then some (some (.minutes shift), r) else none
  | _ => some (none, cs)

def isTimeMark (c : Char) : Bool :=
  c = 'T' || c = 't' || c = ' '

/-- What follows a date: a time if there is one. -/
def afterDate (d : Date) (cs : List Char) : Option (Moment × List Char) :=
  match cs with
  | c :: rest =>
      if isTimeMark c ∧ (rest.head?.any Char.isDigit) then do
        let (t, r) ← time rest
        let (z, r) ← zone r
        return (.dateTime d t z, r)
      else some (.date d, cs)
  | [] => some (.date d, cs)

def moment? (cs : List Char) : Option (Option (Moment × List Char)) :=
  match digits? 4 cs, digits? 2 cs with
  | some (_, '-' :: _), _ => some do
      let (d, r) ← date cs
      afterDate d r
  | _, some (_, ':' :: _) => some ((time cs).map fun (t, r) => (.time t, r))
  | _, _ => none

def wholeMoment? (s : String) : Option Moment :=
  match moment? s.toList with
  | some (some (m, [])) => some m
  | _ => none

def momentName : String := "$__toml_private_datetime"

mutual

/-- The value with such tables replaced. A reserved name over anything but a moment is refused. -/
def withMoments : Toml → Option Toml
  | .array items => (withMomentsInAll items).map .array
  | .table ((name, v) :: rest) =>
      if name = momentName then
        match v with
        | .string s => (wholeMoment? s).map .moment
        | _ => none
      else do
        let first ← v.withMoments
        return .table ((name, first) :: (← withMomentsInFields rest))
  | t => some t

def withMomentsInAll : List Toml → Option (List Toml)
  | [] => some []
  | t :: rest => do
      let first ← t.withMoments
      return first :: (← withMomentsInAll rest)

def withMomentsInFields : List (String × Toml) → Option (List (String × Toml))
  | [] => some []
  | (name, t) :: rest => do
      let first ← t.withMoments
      return (name, first) :: (← withMomentsInFields rest)

end

end Stencil.Toml

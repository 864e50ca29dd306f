namespace Stencil

abbrev Dict (α : Type) := List (String × α)

namespace Dict

variable {α β : Type}

def insert (key : String) (value : α) : Dict α → Dict α
  | [] => [(key, value)]
  | (k, v) :: rest =>
      match compare key k with
      | .lt => (key, value) :: (k, v) :: rest
      | .eq => (key, value) :: rest
      | .gt => (k, v) :: insert key value rest

/-- A later binding of a key replaces an earlier one. -/
def ofList (bindings : List (String × α)) : Dict α :=
  bindings.foldl (fun d b => insert b.1 b.2 d) []

def get? (d : Dict α) (key : String) : Option α :=
  d.lookup key

def contains (d : Dict α) (key : String) : Bool :=
  (d.get? key).isSome

def keys (d : Dict α) : List String :=
  d.map Prod.fst

def mapValues (f : α → β) (d : Dict α) : Dict β :=
  d.map (fun b => (b.1, f b.2))

def Sorted (d : Dict α) : Prop :=
  d.Pairwise (fun a b => compare a.1 b.1 = .lt)

end Dict

variable {α : Type}

abbrev Shorter (xs : List α) := { rest : List α // rest.length < xs.length }

abbrev NotLonger (xs : List α) := { rest : List α // rest.length ≤ xs.length }

theorem length_dropWhile_le (p : α → Bool) (xs : List α) : (xs.dropWhile p).length ≤ xs.length :=
  (List.dropWhile_suffix p).sublist.length_le

def nextNot? (p : α → Bool) : (xs : List α) → Option (α × Shorter xs)
  | [] => none
  | x :: xs =>
      if p x then (nextNot? p xs).map fun (y, rest) => (y, ⟨rest.1, Nat.lt_succ_of_lt rest.2⟩)
      else some (x, ⟨xs, Nat.lt_succ_self xs.length⟩)

/-- Keeps a rest only if it is shorter. -/
def shorter? {β : Type} (xs : List α) : Option (β × List α) → Option (β × Shorter xs)
  | some (b, rest) => if h : rest.length < xs.length then some (b, ⟨rest, h⟩) else none
  | none => none

end Stencil

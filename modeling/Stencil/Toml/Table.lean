import Stencil.Toml.Basic

namespace Stencil.Toml

inductive TableKind where
  | implied
  | dotted
  | header
deriving DecidableEq, Repr

/-- What a name in a table stands for. Of rows, the last is kept apart. -/
inductive Entry where
  | value (v : Toml)
  | table (kind : TableKind) (entries : List (String × Entry))
  | rows (before : List (List (String × Entry))) (last : List (String × Entry))

abbrev Table := List (String × Entry)

namespace Entry

mutual

def toToml : Entry → Toml
  | .value v => v
  | .table _ entries => .table (tableToToml entries)
  | .rows before last => .array (rowsToToml before ++ [.table (tableToToml last)])

def tableToToml : List (String × Entry) → List (String × Toml)
  | [] => []
  | (k, e) :: rest => (k, e.toToml) :: tableToToml rest

def rowsToToml : List (List (String × Entry)) → List Toml
  | [] => []
  | t :: rest => .table (tableToToml t) :: rowsToToml rest

end

end Entry

namespace Table

def get? (t : Table) (name : String) : Option Entry :=
  t.lookup name

/-- A known name keeps its place and a new one comes last. -/
def put (t : Table) (name : String) (e : Entry) : Table :=
  match t with
  | [] => [(name, e)]
  | (k, old) :: rest => if k = name then (k, e) :: rest else (k, old) :: put rest name e

def without (t : Table) (name : String) : Table :=
  t.filter fun (k, _) => k ≠ name

def toToml (t : Table) : Toml :=
  .table (Entry.tableToToml t)

/-- The table after a change in the table that the keys of a header lead to. Tables missing on the way
are implied, and of rows the last one is meant. -/
def within (change : Table → Option Table) : List String → Table → Option Table
  | [], t => change t
  | k :: rest, t =>
      match t.get? k with
      | none => (within change rest []).map fun s => t.put k (.table .implied s)
      | some (.table kind s) => (within change rest s).map fun s => t.put k (.table kind s)
      | some (.rows before last) => (within change rest last).map fun s => t.put k (.rows before s)
      | some (.value _) => none

def openTable (name : String) (t : Table) : Option Table :=
  match t.get? name with
  | none => some (t.put name (.table .header []))
  | some (.table .implied s) => some ((t.without name).put name (.table .header s))
  | _ => none

def openRow (name : String) (t : Table) : Option Table :=
  match t.get? name with
  | none => some (t.put name (.rows [] []))
  | some (.rows before last) => some (t.put name (.rows (before ++ [last]) []))
  | _ => none

/-- The table with a value under dotted keys. A value may be put only into a table that is open to it. -/
def assign (v : Toml) : Bool → List String → Table → Option Table
  | _, [], _ => none
  | isOpen, [name], t => if isOpen && (t.get? name).isNone then some (t.put name (.value v)) else none
  | _, k :: rest, t =>
      match t.get? k with
      | none => (assign v true rest []).map fun s => t.put k (.table .dotted s)
      | some (.table .dotted s) => (assign v true rest s).map fun s => t.put k (.table .dotted s)
      | some (.table .implied s) => (assign v false rest s).map fun s => t.put k (.table .implied s)
      | some (.rows before last) => (assign v false rest last).map fun s => t.put k (.rows before s)
      | _ => none

end Table

end Stencil.Toml

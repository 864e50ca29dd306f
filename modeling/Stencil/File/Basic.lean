import Stencil.Error.Failure
import Stencil.Text.Basic

namespace Stencil

structure Files where
  isFile : String → Bool
  /-- The names that lead from the root to where a path really is. -/
  resolve : String → Except FileFault (List String)
  read : String → Except FileFault String

namespace Files

def empty : Files :=
  ⟨fun _ => false, fun _ => .error .notFound, fun _ => .error .notFound⟩

structure Facts where
  isFile : Bool
  resolved : Except FileFault (List String)
  text : Except FileFault String

/-- Files of which the facts are known; all others are missing. -/
def ofFacts (facts : List (String × Facts)) : Files where
  isFile path := (facts.lookup path).any (·.isFile)
  resolve path := ((facts.lookup path).map (·.resolved)).getD (.error .notFound)
  read path := ((facts.lookup path).map (·.text)).getD (.error .notFound)

end Files

namespace Path

def names (path : String) : List String :=
  (Text.splitOn '/' path.toList).map String.ofList

def ofNames (names : List String) : String :=
  String.intercalate "/" names

def isAbsolute (path : String) : Bool :=
  path.toList.head? = some '/'

/-- A path that starts at the root or has a step upwards may lead out of the directory it is used in. -/
def staysInside (path : String) : Bool :=
  !isAbsolute path && !(names path).contains ".."

def join (directory path : String) : String :=
  if isAbsolute path ∨ directory.isEmpty then path
  else if directory.toList.getLast? = some '/' then directory ++ path
  else directory ++ "/" ++ path

def isIdle (name : String) : Bool :=
  name = "" || name = "."

/-- The names after the first, without those at the end that stand for nothing. -/
def trimmed (rest : List String) : List String :=
  (rest.reverse.dropWhile isIdle).reverse

def directory (path : String) : String :=
  match names path with
  | [] => "."
  | first :: rest =>
      match trimmed rest with
      | [] => "."
      | kept =>
          match first, trimmed kept.dropLast with
          | "", [] => "/"
          | _, upper => ofNames (first :: upper)

def fileName? (path : String) : Option String :=
  match (names path).filter (fun n => !isIdle n) |>.getLast? with
  | some ".." => none
  | last => last

/-- What follows the last point of the last name. A point at its start begins no extension. -/
def extension? (path : String) : Option String := do
  let reversed := (← fileName? path).toList.reverse
  let tail := reversed.takeWhile (· ≠ '.')
  if tail.length + 1 < reversed.length then some (String.ofList tail.reverse) else none

end Path

end Stencil

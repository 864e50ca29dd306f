import Stencil.Basic
import Stencil.File.Basic
import Stencil.Text.Basic

namespace Stencil

inductive TreeEntry where
  /-- The contents, if they are text. -/
  | file (text : Option String)
  | directory
  | link (target : String)
deriving DecidableEq, Repr

structure FileTree where
  entries : List (List String × TreeEntry)
  /-- Where paths that are not absolute start. -/
  current : List String
deriving DecidableEq, Repr

namespace FileTree

abbrev Place := List String

def entry? (t : FileTree) (place : Place) : Option TreeEntry :=
  if place.isEmpty then some .directory else t.entries.lookup place

def isDirectory (t : FileTree) (place : Place) : Bool :=
  t.entry? place = some .directory

def set (t : FileTree) (place : Place) (e : TreeEntry) : FileTree :=
  { t with entries := (place, e) :: t.entries.filter (fun p => p.1 ≠ place) }

def fileSystemLinks : Nat := 40

def maxNameLength : Nat := 255

def maxPathLength : Nat := 4095

def start (path : String) (here : Place) : Place :=
  if Path.isAbsolute path then [] else here

/-- The place after the steps, where every link on the way costs one of those left. -/
def walk (t : FileTree) (links : Nat) (here : Place) (steps : List String) : Except FileFault Place :=
  match steps with
  | [] => .ok here
  | step :: rest =>
      if !t.isDirectory here then .error .notADirectory
      else if Path.isIdle step then walk t links here rest
      else if step = ".." then walk t links here.dropLast rest
      else if maxNameLength < Text.byteLength step.toList then .error .nameTooLong
      else
        let next := here ++ [step]
        match t.entry? next with
        | none => .error .notFound
        | some (.link target) =>
            match links with
            | 0 => .error .tooManyLinks
            | links + 1 => walk t links (start target here) (Path.names target ++ rest)
        | some _ => walk t links next rest
termination_by (links, steps.length)

def check (path : String) : Except FileFault Unit :=
  if path.toList.contains '\x00' then .error .badName
  else if path.isEmpty then .error .notFound
  else if maxPathLength < Text.byteLength path.toList then .error .nameTooLong
  else .ok ()

def locate (t : FileTree) (path : String) : Except FileFault Place := do
  check path
  t.walk fileSystemLinks (start path t.current) (Path.names path)

def read (t : FileTree) (path : String) : Except FileFault String := do
  match t.entry? (← t.locate path) with
  | some (.file (some text)) => .ok text
  | some (.file none) => .error .notText
  | some .directory => .error .isADirectory
  | _ => .error .notFound

def isFile (t : FileTree) (path : String) : Bool :=
  match t.locate path with
  | .ok place => match t.entry? place with
    | some (.file _) => true
    | _ => false
  | .error _ => false

def files (t : FileTree) : Files :=
  ⟨t.isFile, t.locate, t.read⟩

/-- Where a file to be written under a name in a directory goes. A link leads on to its target, which
need not exist. -/
def target (t : FileTree) (links : Nat) (here : Place) (steps : List String) : Except FileFault Place := do
  let name := steps.getLastD ""
  let named := steps.reverse.dropWhile (· = "") |>.reverse
  let directory ← t.walk links here named.dropLast
  if !t.isDirectory directory then throw .notADirectory
  if Path.isIdle name ∨ name = ".." then throw .isADirectory
  if maxNameLength < Text.byteLength name.toList then throw .nameTooLong
  match t.entry? (directory ++ [name]) with
  | some .directory => throw .isADirectory
  | some (.link path) =>
      match links with
      | 0 => throw .tooManyLinks
      | links + 1 => t.target links (start path directory) (Path.names path)
  | _ => return directory ++ [name]

def write (t : FileTree) (path text : String) : Except FileFault FileTree := do
  check path
  let place ← t.target fileSystemLinks (start path t.current) (Path.names path)
  return t.set place (.file (some text))

def put (t : FileTree) (place : Place) (e : TreeEntry) : FileTree :=
  let upper := ((List.range place.length).map place.take).filter fun p => (t.entry? p).isNone
  (upper.foldl (fun t p => t.set p .directory) t).set place e

def namesIn (t : FileTree) (place : Place) : List String :=
  t.entries.filterMap fun (p, _) => if p.dropLast = place then p.getLast? else none

/-- The ways to files below the current directory, at most so many names long. Links count as what they
lead to, so that a file may be reached in several ways. -/
def waysBelow (t : FileTree) (depth : Nat) (names : List String) : List (List String) :=
  match t.walk fileSystemLinks t.current names with
  | .error _ => []
  | .ok place =>
      if t.isDirectory place then
        match depth with
        | 0 => []
        | depth + 1 => (t.namesIn place).flatMap fun name => t.waysBelow depth (names ++ [name])
      else [names]

/-- Between two links a way goes down through directories that are all different. -/
def maxDepth (t : FileTree) : Nat :=
  (fileSystemLinks + 1) * (t.entries.length + 1)

def changes (t old : FileTree) : Dict String :=
  Dict.ofList ((t.waysBelow t.maxDepth []).filterMap fun names =>
    let path := Path.ofNames names
    match t.read path, old.read path with
    | .ok text, .ok before => if text = before then none else some (path, text)
    | .ok text, .error _ => some (path, text)
    | .error _, _ => none)

end FileTree

end Stencil

import Stencil.Error.Failure
import Stencil.Template
import Stencil.File.Basic

namespace Stencil

structure Loader where
  load : String → Except Failure Template

namespace Loader

def ofSources (options : ParserOptions) (sources : Dict String) : Loader where
  load name :=
    match sources.get? name with
    | some source => (Template.parse options none source).mapError .syntaxError
    | none => .error (.missingTemplate (.notAmongSources name))

/-- The first loader that has the template answers. -/
def search (name : String) : List Loader → Except EvalFault Template
  | [] => .error (.missingTemplate name)
  | l :: rest =>
      match l.load name with
      | .ok t => .ok t
      | .error (.missingTemplate _) => search name rest
      | .error f => .error (.unloadable name f.message)

end Loader

def Template.ofFile (options : ParserOptions) (files : Files) (path : String) : Except Failure Template := do
  let text ← (files.read path).mapError .file
  (Template.parse options (some path) text).mapError .syntaxError

namespace Loader

/-- The directories and paths that a name is looked for in, in this order. -/
def candidates (directories : List String) (name : String) : List (String × String) :=
  directories.flatMap fun d => [(d, Path.join d name), (d, Path.join d (name ++ ".liquid"))]

def isWithin (files : Files) (directory path : String) : Bool :=
  match files.resolve directory, files.resolve path with
  | .ok d, .ok p => d.isPrefixOf p
  | _, _ => false

/-- The first candidate that is a file in its directory decides, even if it is no template. -/
def ofDirectories (options : ParserOptions) (files : Files) (directories : List String) : Loader where
  load name :=
    if !Path.staysInside name then .error (.missingTemplate (.outsideDirectories name))
    else
      match (candidates directories name).find? fun (d, p) => files.isFile p && isWithin files d p with
      | some (_, p) => Template.ofFile options files p
      | none => .error (.missingTemplate (.notInDirectories name directories))

end Loader

end Stencil

import Stencil.Loader
import Stencil.Render.Renderer
import Stencil.Settings.Basic
import Stencil.Json.Reader
import Stencil.Value.Content

namespace Stencil

namespace Renderer

/-- The renderer with what settings say. Without directories there is nothing to load from. -/
def configure (r : Renderer) (files : Files) (s : Settings) : Renderer :=
  let r := { r with marksErrors := s.marksErrors }
  if s.directories.isEmpty then r
  else r.addLoader (.ofDirectories s.parserOptions files s.directories)

end Renderer

def loadData (complain : Complaint) (files : Files) (path : String) : Except Failure (Dict Value) := do
  let text ← (files.read path).mapError .file
  match Json.read? text with
  | some j => Value.objectOfJson j
  | none => .error (.serialization (.notJson path (complain .json text)))

structure RenderRequest where
  template : String
  data? : Option String
  directories : List String
  /-- Layout is stripped whatever the settings say. -/
  stripLayout : Bool
  /-- An error makes the whole render fail. -/
  isStrict : Bool
deriving DecidableEq, Repr

namespace RenderRequest

/-- Included templates are looked for in the directories of the settings, then in those of the request,
and last beside the template. -/
def settings (r : RenderRequest) (s : Settings) : Settings :=
  { s with
    directories := s.directories ++ r.directories ++ [Path.directory r.template]
    stripLayout := s.stripLayout || r.stripLayout }

def run (r : RenderRequest) (complain : Complaint) (files : Files) (s : Settings) : Except Failure String := do
  let s := r.settings s
  let t ← Template.ofFile s.parserOptions files r.template
  let data ← match r.data? with
    | some path => loadData complain files path
    | none => .ok []
  let (output, renderer) := ((Renderer.new .standard).configure files s).render t data
  match renderer.errors with
  | e :: _ => if r.isStrict then .error (.evaluation e) else .ok output
  | [] => .ok output

end RenderRequest

end Stencil

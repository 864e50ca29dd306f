import Stencil.Render.Process

namespace Stencil

/-- How a host shapes the output, and the filters that it adds. -/
structure Hooks where
  stringify : Value → String
  errorMarker : Template → EvalError → String
  addFilters : FilterRegistry → FilterRegistry

namespace Hooks

def defaultMarker (t : Template) (e : EvalError) : String :=
  let place := match e.origin, e.offset with
    | some o, _ => o.template ++ ":" ++ Nat.repr o.line ++ ":" ++ Nat.repr o.column ++ ": "
    | none, some offset =>
        let p := t.position offset
        Nat.repr p.line ++ ":" ++ Nat.repr p.column ++ ": "
    | none, none => ""
  "\x7b! " ++ place ++ e.message ++ " !\x7d"

def standard : Hooks :=
  ⟨Value.display, defaultMarker, id⟩

end Hooks

def Halt.error : Halt → EvalError
  | .failed e => e
  | .tooDeep => EvalFault.includesTooDeep.nowhere

structure Renderer where
  hooks : Hooks
  filters : FilterRegistry
  loaders : List Loader
  templates : Dict Template
  marksErrors : Bool
  includeLimit : Nat
  scope : Scope
  errors : List EvalError

namespace Renderer

def new (hooks : Hooks) : Renderer where
  hooks := hooks
  filters := hooks.addFilters .builtins
  loaders := []
  templates := []
  marksErrors := true
  includeLimit := 1000
  scope := .empty
  errors := []

def register (r : Renderer) (name : String) (t : Template) : Renderer :=
  { r with templates := r.templates.insert name t }

def addLoader (r : Renderer) (l : Loader) : Renderer :=
  { r with loaders := r.loaders ++ [l] }

def addFilter (r : Renderer) (name : String) (f : Filter) : Renderer :=
  { r with filters := r.filters.register name f }

def globals? (r : Renderer) : Option (Dict Value) :=
  r.scope.globals?

def engine (r : Renderer) : Engine :=
  ⟨r.hooks.stringify, r.filters, r.loaders⟩

def start (r : Renderer) (data : Dict Value) : RenderState :=
  ⟨(Scope.empty.push .globals data).push .file [], "", r.templates⟩

/-- The state when processing has ended, and the error that ended it. -/
def run (r : Renderer) (t : Template) (data : Dict Value) : RenderState × Option EvalError :=
  match Node.processAll r.engine (r.engine.includer r.includeLimit) t.nodes (r.start data) with
  | .ok _ st => (st, none)
  | .error h st => (st, some h.error)

def marked (r : Renderer) (t : Template) (output : String) : Option EvalError → String
  | some e => if r.marksErrors then output ++ r.hooks.errorMarker t e else output
  | none => output

/-- The output, and the renderer with the errors and global variables that the render left. -/
def render (r : Renderer) (t : Template) (data : Dict Value) : String × Renderer :=
  let (st, error) := r.run t data
  let output := if st.scope.signals.discard then "" else r.marked t st.output error
  (output, { r with
    templates := st.templates
    scope := (st.scope.clearSignals).truncate 1
    errors := error.toList })

end Renderer

def Template.render (t : Template) (hooks : Hooks) (data : Dict Value) : String :=
  ((Renderer.new hooks).render t data).1

end Stencil

import Stencil.Proofs.Render.Provided

namespace Stencil.Reference

/-- How nodes end. -/
inductive Outcome where
  | normal
  | stopLoop
  | nextRound
  | eject
  | discard
deriving DecidableEq, Repr

def Outcome.ofSignal : Signal → Outcome
  | .stopLoop => .stopLoop
  | .nextRound => .nextRound
  | .eject => .eject
  | .discard => .discard

abbrev Env := List Frame

structure Result where
  env : Env
  text : String
  outcome : Outcome

structure Setting where
  stringify : Value → String
  filters : FilterRegistry
  provide : String → Option Template

abbrev Includer := String → Dict Value → Env → Option Result

def evaluate (m : Setting) (env : Env) (e : Expr) : Option Value :=
  (e.eval ⟨⟨env, .none⟩, m.filters⟩).toOption

def evaluateArguments (m : Setting) (env : Env) (arguments : List (String × Expr)) : Option (Dict Value) :=
  (Expr.evalArguments ⟨⟨env, .none⟩, m.filters⟩ arguments [("__", .bool true)]).toOption

def assign (target : AssignTarget) (name : String) (v : Value) (env : Env) : Option Env :=
  (Scope.assign ⟨env, .none⟩ target name v).toOption.map Scope.frames

def roundFrame (name : String) (item : Value) (index length : Nat) : Frame :=
  ⟨.control, roundBindings name item index length []⟩

def runRounds (body : Env → Option Result) (name : String) (length : Nat) :
    Nat → List Value → Env → Option Result
  | _, [], env => some ⟨env, "", .normal⟩
  | index, item :: rest, env => do
      let r ← body (roundFrame name item index length :: env)
      match r.outcome with
      | .stopLoop => return { r with env := r.env.tail, outcome := .normal }
      | .eject | .discard => return { r with env := r.env.tail }
      | .normal | .nextRound =>
          let more ← runRounds body name length (index + 1) rest r.env.tail
          return { more with text := r.text ++ more.text }

mutual

def run (m : Setting) (includer : Includer) : Node → Env → Option Result
  | .text s _, env => some ⟨env, s, .normal⟩
  | .output e, env => do return ⟨env, m.stringify (← evaluate m env e), .normal⟩
  | .assign name e target _, env => do
      let v ← evaluate m env e
      return ⟨← assign target name v env, "", .normal⟩
  | .capture name body _, env => do
      let r ← runAll m includer body (⟨.control, []⟩ :: env)
      return ⟨← assign .here name (.string r.text) r.env.tail, "", r.outcome⟩
  | .loop name source body _, env => do
      let v ← evaluate m env source
      match v.rounds? with
      | none => return ⟨env, "", .normal⟩
      | some items => runRounds (runAll m includer body) name items.length 0 items env
  | .branch arms _, env => runArms m includer arms env
  | .embed name arguments _, env => do includer name (← evaluateArguments m env arguments) env
  | .signal s _, env => some ⟨env, "", .ofSignal s⟩
  | .comment _, env => some ⟨env, "", .normal⟩
  | .newline _, env => some ⟨env, "\n", .normal⟩

def runAll (m : Setting) (includer : Includer) : List Node → Env → Option Result
  | [], env => some ⟨env, "", .normal⟩
  | n :: rest, env => do
      let r ← run m includer n env
      if r.outcome = .normal then
        let more ← runAll m includer rest r.env
        return { more with text := r.text ++ more.text }
      else return r

def runArms (m : Setting) (includer : Includer) : List (Expr × List Node) → Env → Option Result
  | [], env => some ⟨env, "", .normal⟩
  | (condition, body) :: rest, env => do
      if (← evaluate m env condition).isTruthy then runAll m includer body env
      else runArms m includer rest env

end

/-- Included nodes run in a file frame of their own. They nest at most `depth` deep. -/
def includer (m : Setting) : Nat → Includer
  | 0, _, _, _ => none
  | depth + 1, name, arguments, env => do
      let t ← m.provide name
      let r ← runAll m (includer m depth) t.nodes (⟨.file, [("include", .map arguments)]⟩ :: env)
      return { r with env := r.env.tail }

/-- The output of a template and the global variables that it leaves. To discard is to have no output. -/
def render (m : Setting) (depth : Nat) (t : Template) (data : Dict Value) : Option (String × Dict Value) := do
  let r ← runAll m (includer m depth) t.nodes [⟨.file, []⟩, ⟨.globals, data⟩]
  let globals ← r.env.getLast?
  return (if r.outcome = .discard then "" else r.text, globals.bindings)

end Stencil.Reference

namespace Stencil

def Renderer.setting (r : Renderer) : Reference.Setting :=
  ⟨r.hooks.stringify, r.filters, r.provides⟩

end Stencil

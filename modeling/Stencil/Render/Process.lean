import Stencil.Expr.Eval
import Stencil.Loader

namespace Stencil

structure Engine where
  stringify : Value → String
  filters : FilterRegistry
  loaders : List Loader

/-- What one render changes. Templates that a loader gave are kept. -/
structure RenderState where
  scope : Scope
  output : String
  templates : Dict Template

inductive Halt where
  | failed (e : EvalError)
  | tooDeep

abbrev Rendering := EStateM Halt RenderState

namespace Rendering

def write (s : String) : Rendering Unit :=
  modify fun st => { st with output := st.output ++ s }

def ofEvaluated {α : Type} : Evaluated α → Rendering α
  | .ok a => pure a
  | .error e => throw (.failed e)

def updateScope (f : Scope → Except Failure Scope) : Rendering Unit := do
  match f (← get).scope with
  | .ok scope => modify fun st => { st with scope }
  | .error _ => throw (.failed EvalFault.noActiveScope.nowhere)

def raise (s : Signal) : Rendering Unit :=
  modify fun st => { st with scope := st.scope.raise (Signals.of s) }

def popFrame (st : RenderState) : RenderState :=
  { st with scope := st.scope.pop }

/-- Runs with a new innermost frame, which is gone afterwards, also after a failure. -/
def withFrame {α : Type} (kind : FrameKind) (act : Rendering α) : Rendering α := fun st =>
  match act { st with scope := st.scope.push kind [] } with
  | .ok a st' => .ok a (popFrame st')
  | .error e st' => .error e (popFrame st')

/-- Cuts off what was written after the first `length` characters. -/
def cutOutput (length : Nat) : Rendering String := do
  let cs := (← get).output.toList
  modify fun st => { st with output := String.ofList (cs.take length) }
  return String.ofList (cs.drop length)

def mapHalt {α : Type} (f : EvalError → EvalError) (act : Rendering α) : Rendering α := fun st =>
  match act st with
  | .error (.failed e) st' => .error (.failed (f e)) st'
  | other => other

end Rendering

namespace Expr

def evaluate (engine : Engine) (e : Expr) : Rendering Value := do
  Rendering.ofEvaluated (e.eval ⟨(← get).scope, engine.filters⟩)

def evaluateArguments (engine : Engine) : List (String × Expr) → Dict Value → Rendering (Dict Value)
  | [], d => pure d
  | (key, e) :: rest, d => do
      let v ← evaluate engine e
      evaluateArguments engine rest (d.insert key v)

end Expr

def Value.rounds? (v : Value) : Option (List Value) :=
  match v.elements? with
  | some items => some items
  | none => v.propertyNames?.map (List.map Value.string)

def loopInfo (index length : Nat) : Value :=
  .map (Dict.ofList [("index", Value.int (countOf index)), ("first", .bool (index == 0)),
    ("last", .bool (index + 1 == length)), ("length", .int (countOf length))])

/-- One round of the body for each item. A loop meets the signals meant for loops. -/
def processRounds (body : Rendering Unit) (name : String) (length : Nat) :
    Nat → List Value → Rendering Unit
  | _, [] => pure ()
  | index, item :: rest => do
      Rendering.updateScope (·.set "forloop" (loopInfo index length))
      Rendering.updateScope (·.set name item)
      body
      let signals := (← get).scope.signals
      if signals.stopLoop || signals.nextRound then
        modify fun st => { st with scope := st.scope.clearSignals }
        if signals.stopLoop then return
        processRounds body name length (index + 1) rest
      else if signals.eject then return
      else processRounds body name length (index + 1) rest

abbrev Includer := String → Dict Value → Nat → Rendering Unit

namespace Node

mutual

def process (engine : Engine) (includer : Includer) : Node → Rendering Unit
  | text s _ => Rendering.write s
  | output e => do
      let v ← e.evaluate engine
      Rendering.write (engine.stringify v)
  | assign name e target _ => do
      let v ← e.evaluate engine
      Rendering.updateScope (·.assign target name v)
  | capture name body _ => do
      let start := (← get).output.length
      Rendering.withFrame .control (processAll engine includer body)
      let captured ← Rendering.cutOutput start
      Rendering.updateScope (·.setFile name (.string captured))
  | loop name source body _ => do
      let v ← source.evaluate engine
      match v.rounds? with
      | none => pure ()
      | some items =>
          Rendering.withFrame .control
            (processRounds (processAll engine includer body) name items.length 0 items)
  | branch arms _ => processArms engine includer arms
  | embed name arguments offset => do
      let d ← Expr.evaluateArguments engine arguments [("__", .bool true)]
      includer name d offset
  | signal s _ => Rendering.raise s
  | comment _ => pure ()
  | newline _ => Rendering.write "\n"

def processAll (engine : Engine) (includer : Includer) : List Node → Rendering Unit
  | [] => pure ()
  | n :: rest => do
      process engine includer n
      if (← get).scope.signals.isNone then processAll engine includer rest

def processArms (engine : Engine) (includer : Includer) : List (Expr × List Node) → Rendering Unit
  | [] => pure ()
  | (condition, body) :: rest => do
      let v ← condition.evaluate engine
      if v.isTruthy then processAll engine includer body
      else processArms engine includer rest

end

end Node

namespace Engine

/-- A template that is registered or was loaded before, or else the one that the loaders give. -/
def resolve (engine : Engine) (name : String) (offset : Nat) : Rendering Template := do
  match (← get).templates.get? name with
  | some t => return t
  | none =>
      match Loader.search name engine.loaders with
      | .ok t =>
          modify fun st => { st with templates := st.templates.insert name t }
          return t
      | .error fault => throw (.failed (fault.at offset))

/-- A failure that is not yet said to come from an included template comes from this one. -/
def locate (name : String) (t : Template) (e : EvalError) : EvalError :=
  match e.offset, e.origin with
  | some offset, none =>
      let p := t.position offset
      e.withOrigin ⟨t.path.getD name, p.line, p.column⟩
  | _, _ => e

/-- Includes, nested at most `depth` deep. -/
def includer (engine : Engine) : Nat → Includer
  | 0, _, _, _ => throw .tooDeep
  | depth + 1, name, arguments, offset => do
      let t ← engine.resolve name offset
      Rendering.mapHalt (locate name t) <| Rendering.withFrame .file do
        Rendering.updateScope (·.set "include" (.map arguments))
        Node.processAll engine (engine.includer depth) t.nodes

end Engine

end Stencil

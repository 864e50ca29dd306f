import Stencil.Command.Arguments
import Stencil.Command.Render

namespace Stencil

inductive Action where
  | render (request : RenderRequest) (output? : Option String)
  | check (templates : List String)
deriving DecidableEq, Repr

structure CommandLine where
  config? : Option String
  logLevel? : Option String
  action : Action
deriving DecidableEq, Repr

namespace Usage

def shared : List Parameter :=
  [⟨"config", some 'c', .path⟩, ⟨"log-level", none, .text⟩, ⟨"help", some 'h', .help⟩]

def top : Usage where
  options := ⟨"version", some 'V', .version⟩ :: shared
  operand? := none
  takesMany := false
  commands := ["render", "check", "help"]

def render : Usage where
  options := shared ++
    [⟨"data", some 'd', .path⟩, ⟨"template-dir", some 'I', .paths⟩, ⟨"output", some 'o', .path⟩,
      ⟨"strip-whitespace", none, .flag⟩, ⟨"strict", none, .flag⟩]
  operand? := some ⟨"template", none, .path⟩
  takesMany := false
  commands := []

def check : Usage where
  options := shared
  operand? := some ⟨"templates", none, .paths⟩
  takesMany := true
  commands := []

def finish (u : Usage) (r : Reading) : Except UsageFault Given := do
  let given ← r.settle
  if u.operand?.all fun p => given.contains p.name then return given else throw .missingOperand

def readAll (u : Usage) (words : List String) : Except UsageFault Given := do
  u.finish (← u.read .empty words).1

end Usage

namespace CommandLine

def values (given : Given) (name : String) : List String :=
  (given.get? name).getD []

def value? (given : Given) (name : String) : Option String :=
  (values given name).head?

/-- Shared options given after the command count more than those before it. -/
def ofGiven (before after : Given) (action : Action) : CommandLine where
  config? := (value? after "config").or (value? before "config")
  logLevel? := (value? after "log-level").or (value? before "log-level")
  action := action

def renderAction (given : Given) : Action :=
  .render
    { template := (value? given "template").getD ""
      data? := value? given "data"
      directories := values given "template-dir"
      stripLayout := given.contains "strip-whitespace"
      isStrict := given.contains "strict" }
    (value? given "output")

def checkAction (given : Given) : Action :=
  .check (values given "templates")

def help (words : List String) : UsageFault :=
  match words with
  | [] => .helpAsked
  | [w] => if Usage.top.commands.contains w then .helpAsked else .unknownCommand
  | _ => .unknownCommand

def parse (words : List String) : Except UsageFault CommandLine := do
  match ← Usage.top.read .empty words with
  | (r, none) => throw (if (← r.settle).isEmpty then .nothingGiven else .missingCommand)
  | (r, some ("render", rest)) =>
      let after ← Usage.render.readAll rest
      return ofGiven (← r.settle) after (renderAction after)
  | (r, some ("check", rest)) =>
      let after ← Usage.check.readAll rest
      return ofGiven (← r.settle) after (checkAction after)
  | (_, some (_, rest)) => throw (help rest)

end CommandLine

end Stencil

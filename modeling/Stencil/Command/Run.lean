import Stencil.File.Basic
import Stencil.Template
import Stencil.Command.Line
import Stencil.Settings.Config

namespace Stencil

structure CheckMessage where
  path : String
  text : String
deriving DecidableEq, Repr

namespace CheckMessage

def of? (options : ParserOptions) (files : Files) (path : String) : Option CheckMessage :=
  match files.read path with
  | .error fault => some ⟨path, path ++ ": " ++ fault.message⟩
  | .ok text =>
      match Template.parse options (some path) text with
      | .error e => some ⟨path, e.text⟩
      | .ok _ => none

/-- One message for every file that cannot be read or is no template, in the order of the paths. -/
def all (options : ParserOptions) (files : Files) (paths : List String) : List CheckMessage :=
  paths.filterMap (of? options files)

end CheckMessage

inductive Output where
  | nothing
  | screen (text : String)
  | file (path text : String)
deriving DecidableEq, Repr

structure Outcome where
  messages : List String
  result : Except Failure Output

namespace Action

def name : Action → String
  | .render .. => "render"
  | .check _ => "check"

def run (complain : Complaint) (files : Files) (s : Settings) : Action → Outcome
  | .render request output? =>
      ⟨[], (request.run complain files s).map fun text =>
        match output? with
        | some path => .file path text
        | none => .screen text⟩
  | .check templates =>
      let messages := CheckMessage.all s.parserOptions files templates
      ⟨messages.map (·.text),
        if messages.isEmpty then .ok .nothing
        else .error (.configuration (.failedTemplates messages.length templates.length))⟩

def dispatch (offered : List String) (complain : Complaint) (files : Files) (s : Settings) (a : Action) : Outcome :=
  if offered.contains a.name then a.run complain files s
  else ⟨[], .error (.configuration (.unknownCommand a.name))⟩

end Action

namespace CommandLine

def commands : List String := ["render", "check"]

def settings (line : CommandLine) (complain : Complaint) (files : Files) (environment : String → Option String) :
    Except Failure Settings :=
  (Settings.load complain files environment line.config? line.logLevel?).mapError .configuration

end CommandLine

end Stencil

import Stencil.Command.Run
import Stencil.Node.Basic

namespace Stencil.Disk

def faultOf : IO.Error → FileFault
  | .noFileOrDirectory .. => .notFound
  | .inappropriateType _ code _ => if code = 21 ∨ code = 0 - 21 then .isADirectory else .notADirectory
  | .userError _ => .notText
  | e => .other e.toString

def attempt {α : Type} (act : IO α) : IO (Except FileFault α) := do
  try return .ok (← act) catch e => return .error (faultOf e)

def facts (path : String) : IO (String × Files.Facts) := do
  let real ← attempt (IO.FS.realPath path)
  let isFile ← attempt do return (← (← IO.FS.realPath path).metadata).type == .file
  let text ← attempt (IO.FS.readFile path)
  return (path, ⟨isFile.toOption.getD false, real.map fun p => Path.names p.toString, text⟩)

/-- The facts about all that the templates of these names may need. -/
partial def gather (options : ParserOptions) (directories done : List String) :
    List String → List (String × Files.Facts) → IO (List (String × Files.Facts))
  | [], known => return known
  | name :: rest, known => do
      if done.contains name then gather options directories done rest known
      else
        let paths := (Loader.candidates directories name).map Prod.snd
        let known := known ++ (← paths.mapM facts)
        let found := (Loader.ofDirectories options (.ofFacts known) directories).load name
        let inner := match found with
          | .ok t => Node.includedInAll t.nodes
          | .error _ => []
        gather options directories (name :: done) (inner ++ rest) known

def factsFor (s : Settings) : Action → IO (List (String × Files.Facts))
  | .check templates => templates.mapM facts
  | .render request _ => do
      let s := request.settings s
      let known ← ((request.template :: request.data?.toList) ++ s.directories).mapM facts
      match Template.ofFile s.parserOptions (.ofFacts known) request.template with
      | .ok t => gather s.parserOptions s.directories [] (Node.includedInAll t.nodes) known
      | .error _ => return known

def perform : Output → IO (Except FileFault Unit)
  | .nothing => return .ok ()
  | .screen text => do
      IO.print text
      return .ok ()
  | .file path text => attempt (IO.FS.writeFile path text)

def fail (f : Failure) : IO UInt32 := do
  IO.eprintln ("Error: " ++ f.message)
  return 1

def complain : Complaint
  | .toml, _ => "the text is not TOML"
  | .json, _ => "the text is not JSON"

def usage : String :=
  "Usage: stencil [--config FILE] [--log-level LEVEL] COMMAND\n\n" ++
  "  render TEMPLATE [-d DATA] [-I DIRECTORY]... [-o OUTPUT] [--strip-whitespace] [--strict]\n" ++
  "  check TEMPLATE...\n"

def explain : UsageFault → IO UInt32
  | .helpAsked => do
      IO.print usage
      return 0
  | .versionAsked => do
      IO.println "stencil 0.1.0"
      return 0
  | _ => do
      IO.eprint usage
      return 2

def run (line : CommandLine) : IO UInt32 := do
  let config ← line.config?.toList.mapM facts
  let environment ← Settings.overrideNames.mapM fun name => do return (name, ← IO.getEnv name)
  match line.settings complain (.ofFacts config) fun name => (environment.lookup name).join with
  | .error f => fail f
  | .ok s =>
      let known ← factsFor s line.action
      let outcome := line.action.dispatch CommandLine.commands complain (.ofFacts known) s
      outcome.messages.forM IO.eprintln
      match outcome.result with
      | .error f => fail f
      | .ok output => match ← perform output with
        | .ok _ => return 0
        | .error fault => fail (.file fault)

end Stencil.Disk

def main (words : List String) : IO UInt32 :=
  match Stencil.CommandLine.parse words with
  | .ok line => Stencil.Disk.run line
  | .error fault => Stencil.Disk.explain fault

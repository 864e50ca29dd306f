import Stencil.Error.Failure
import Stencil.Json.Basic
import Stencil.Json.Reader
import Stencil.Settings.Basic
import Stencil.Toml.Reader
import Stencil.Text.Basic
import Stencil.File.Basic

namespace Stencil

def Json.describe : Json → String
  | .null => "null"
  | .bool b => "boolean `" ++ (if b then "true" else "false") ++ "`"
  | .int n => "integer `" ++ intText n ++ "`"
  | .double x => "floating point `" ++ doubleText x ++ "`"
  | .string s => "string " ++ Text.quoted s
  | .array _ => "sequence"
  | .object _ => "map"

namespace Settings

abbrev Decoder (α : Type) := Json → Except ShapeFault α

def boolean : Decoder Bool
  | .bool b => .ok b
  | j => .error (.wrongType j.describe "a boolean")

def text : Decoder String
  | .string s => .ok s
  | j => .error (.wrongType j.describe "a string")

def path : Decoder String
  | .string s => .ok s
  | j => .error (.wrongType j.describe "path string")

def paths : Decoder (List String)
  | .array items => items.mapM path
  | j => .error (.wrongType j.describe "a sequence")

def optional {α : Type} (decode : Decoder α) (default : α) : Option Json → Except ShapeFault α
  | some j => decode j
  | none => .ok default

/-- Settings by name. Of several wrong ones the first in the order of names is reported. -/
def ofFields (fields : Dict Json) : Except ShapeFault Settings := do
  let debug ← optional boolean standard.debug (fields.get? "debug")
  let marksErrors ← optional boolean standard.marksErrors (fields.get? "error_markers")
  let logLevel ← optional text standard.logLevel (fields.get? "log_level")
  let skipNewline ← optional boolean standard.skipNewline (fields.get? "strip_newline_after_tag")
  let stripLayout ← optional boolean standard.stripLayout (fields.get? "strip_whitespace_at_tag")
  let directories ← optional paths standard.directories (fields.get? "template_dirs")
  return ⟨debug, logLevel, directories, skipNewline, stripLayout, marksErrors⟩

def ofItems (items : List Json) : Except ShapeFault Settings := do
  let debug ← optional boolean standard.debug items[0]?
  let logLevel ← optional text standard.logLevel items[1]?
  let directories ← optional paths standard.directories items[2]?
  let skipNewline ← optional boolean standard.skipNewline items[3]?
  let stripLayout ← optional boolean standard.stripLayout items[4]?
  let marksErrors ← optional boolean standard.marksErrors items[5]?
  if 6 < items.length then throw (.tooManyItems items.length)
  return ⟨debug, logLevel, directories, skipNewline, stripLayout, marksErrors⟩

def ofJson : Decoder Settings
  | .object fields => ofFields fields
  | .array items => ofItems items
  | j => .error (.wrongType j.describe "struct Settings")

def ofConfig (config : Json) : Except ShapeFault Settings :=
  ofJson (standard.toJson.merge config)

def readConfig (format : ConfigFormat) (text : String) : Option Json :=
  match format with
  | .toml => (Toml.read? text).map Toml.toJson
  | .json => Json.read? text

def ofText (complain : Complaint) (format : ConfigFormat) (text : String) : Except ConfigFault Settings :=
  match readConfig format text with
  | some j => (ofConfig j).mapError (.misshapen format)
  | none => .error (.malformed format (complain format text))

/-- The variables that are looked at. -/
def overrideNames : List String :=
  ["LIQUID_DEBUG", "LIQUID_LOG_LEVEL", "LIQUID_TEMPLATE_DIRS", "LIQUID_STRIP_NEWLINE_AFTER_TAG",
    "LIQUID_STRIP_WHITESPACE_AT_TAG", "LIQUID_ERROR_MARKERS"]

/-- Everything but `true`, `1` and `yes` in any case means no. -/
def flagOf (text : String) : Bool :=
  ["true", "1", "yes"].contains (String.ofList (text.toList.map Char.toLower))

/-- Paths between commas, without blanks around them; empty ones are left out. -/
def pathsOf (text : String) : List String :=
  (Text.splitOn ',' text.toList).filterMap fun piece =>
    let trimmed := Text.trim piece
    if trimmed.isEmpty then none else some (String.ofList trimmed)

def override (s : Settings) (environment : String → Option String) : Settings where
  debug := ((environment "LIQUID_DEBUG").map flagOf).getD s.debug
  logLevel := (environment "LIQUID_LOG_LEVEL").getD s.logLevel
  directories := ((environment "LIQUID_TEMPLATE_DIRS").map pathsOf).getD s.directories
  skipNewline := ((environment "LIQUID_STRIP_NEWLINE_AFTER_TAG").map flagOf).getD s.skipNewline
  stripLayout := ((environment "LIQUID_STRIP_WHITESPACE_AT_TAG").map flagOf).getD s.stripLayout
  marksErrors := ((environment "LIQUID_ERROR_MARKERS").map flagOf).getD s.marksErrors

def formatOf (path : String) : ConfigFormat :=
  let isJson := (Path.extension? path).any fun e => e.toList.map Char.toLower = "json".toList
  if isJson then .json else .toml

def ofFile (complain : Complaint) (files : Files) (path : String) : Except ConfigFault Settings :=
  match files.read path with
  | .ok text => ofText complain (formatOf path) text
  | .error fault => .error (.unreadable (formatOf path) path fault)

def load (complain : Complaint) (files : Files) (environment : String → Option String)
    (config? logLevel? : Option String) : Except ConfigFault Settings := do
  let base ← match config? with
    | some path => ofFile complain files path
    | none => .ok standard
  let s := base.override environment
  return { s with logLevel := logLevel?.getD s.logLevel }

end Settings

end Stencil

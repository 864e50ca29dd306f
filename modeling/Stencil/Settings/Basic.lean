import Stencil.Json.Basic
import Stencil.Template

namespace Stencil

structure Settings where
  debug : Bool
  logLevel : String
  /-- Where included templates are looked for, in this order. -/
  directories : List String
  skipNewline : Bool
  stripLayout : Bool
  /-- An error leaves a mark in the output. -/
  marksErrors : Bool
deriving DecidableEq, Repr

namespace Settings

def standard : Settings :=
  ⟨true, "info", [], false, false, true⟩

def parserOptions (s : Settings) : ParserOptions :=
  ⟨s.skipNewline, s.stripLayout⟩

def toJson (s : Settings) : Json :=
  .object (Dict.ofList
    [("debug", .bool s.debug), ("log_level", .string s.logLevel),
      ("template_dirs", .array (s.directories.map .string)),
      ("strip_newline_after_tag", .bool s.skipNewline),
      ("strip_whitespace_at_tag", .bool s.stripLayout), ("error_markers", .bool s.marksErrors)])

end Settings

inductive SetupFault where
  | alreadyConfigured
  | notConfigured
deriving DecidableEq, Repr

def SetupFault.message : SetupFault → String
  | alreadyConfigured => "Settings have already been configured"
  | notConfigured => "Settings have not been configured. Call SETTINGS.configure() first."

structure SettingsSlot where
  settings? : Option Settings
deriving DecidableEq, Repr

namespace SettingsSlot

def empty : SettingsSlot :=
  ⟨none⟩

def isConfigured (slot : SettingsSlot) : Bool :=
  slot.settings?.isSome

def configure (slot : SettingsSlot) (s : Settings) : Except SetupFault SettingsSlot :=
  if slot.isConfigured then .error .alreadyConfigured else .ok ⟨some s⟩

def get (slot : SettingsSlot) : Except SetupFault Settings :=
  match slot.settings? with
  | some s => .ok s
  | none => .error .notConfigured

end SettingsSlot

end Stencil

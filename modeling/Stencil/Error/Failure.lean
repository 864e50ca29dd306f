import Stencil.Error.Parse
import Stencil.Error.Eval
import Stencil.Text.Quoted

namespace Stencil

inductive FileFault where
  | notFound
  | notADirectory
  | isADirectory
  | tooManyLinks
  | nameTooLong
  | badName
  | notText
  | other (message : String)
deriving DecidableEq, Repr

def FileFault.message : FileFault → String
  | notFound => "No such file or directory (os error 2)"
  | notADirectory => "Not a directory (os error 20)"
  | isADirectory => "Is a directory (os error 21)"
  | tooManyLinks => "Too many levels of symbolic links (os error 40)"
  | nameTooLong => "File name too long (os error 36)"
  | badName => "file name contained an unexpected NUL byte"
  | notText => "stream did not contain valid UTF-8"
  | other message => message

inductive ConfigFormat where
  | toml
  | json
deriving DecidableEq, Repr

def ConfigFormat.name : ConfigFormat → String
  | toml => "TOML"
  | json => "JSON"

/-- How the reader of a format says what is wrong with a text. -/
abbrev Complaint := ConfigFormat → String → String

inductive ShapeFault where
  | wrongType (found expected : String)
  | tooManyItems (count : Nat)
deriving DecidableEq, Repr

def ShapeFault.message : ShapeFault → String
  | wrongType found expected => "invalid type: " ++ found ++ ", expected " ++ expected
  | tooManyItems count => "invalid length " ++ Nat.repr count ++ ", expected fewer elements in array"

inductive ConfigFault where
  | unreadable (format : ConfigFormat) (path : String) (fault : FileFault)
  | malformed (format : ConfigFormat) (complaint : String)
  | misshapen (format : ConfigFormat) (fault : ShapeFault)
  | unknownCommand (name : String)
  | failedTemplates (failed total : Nat)
  | other (message : String)
deriving DecidableEq, Repr

def ConfigFault.message : ConfigFault → String
  | unreadable format path fault =>
      "Failed to read " ++ format.name ++ " file '" ++ path ++ "': " ++ fault.message
  | malformed format complaint => "Failed to parse " ++ format.name ++ ": " ++ complaint
  | misshapen format fault =>
      "Failed to deserialize settings from " ++ format.name ++ ": " ++ fault.message
  | unknownCommand name => "Unknown command: " ++ name
  | failedTemplates failed total =>
      Nat.repr failed ++ " of " ++ Nat.repr total ++ " template(s) failed to parse"
  | other message => message

inductive LookupFault where
  | notAmongSources (name : String)
  | outsideDirectories (name : String)
  | notInDirectories (name : String) (directories : List String)
  | other (message : String)
deriving DecidableEq, Repr

def LookupFault.message : LookupFault → String
  | notAmongSources name => "Template '" ++ name ++ "' not found in StringLoader"
  | outsideDirectories name => "Template '" ++ name ++ "' is outside the template directories"
  | notInDirectories name directories =>
      "Template '" ++ name ++ "' not found in directories: " ++
        Text.bracketed (directories.map Text.quoted)
  | other message => message

inductive DataFault where
  | notAnObject (typeName : String)
  | notJson (path complaint : String)
deriving DecidableEq, Repr

inductive Failure where
  | syntaxError (e : ParseError)
  | evaluation (e : EvalError)
  | missingTemplate (fault : LookupFault)
  | noActiveScope
  | configuration (fault : ConfigFault)
  | serialization (fault : DataFault)
  | file (fault : FileFault)
deriving DecidableEq, Repr

def DataFault.message : DataFault → String
  | notAnObject typeName => "Template data must be a JSON object, got " ++ typeName
  | notJson path complaint => path ++ ": " ++ complaint

def Failure.message : Failure → String
  | syntaxError e => "Template syntax error: " ++ e.text
  | evaluation e => "Evaluation error: " ++ e.text
  | missingTemplate fault => "Template does not exist: " ++ fault.message
  | noActiveScope => "No active file scope"
  | configuration fault => "Configuration error: " ++ fault.message
  | serialization fault => "Serialization error: " ++ fault.message
  | file fault => "IO error: " ++ fault.message

end Stencil

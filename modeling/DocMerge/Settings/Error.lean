import DocMerge.Data.Value
import DocMerge.Docs.Entry
import DocMerge.Files.Path
import DocMerge.Limits

/-!
# Errors in settings

What can be wrong with settings, and how the user is told.
-/

namespace DocMerge.Settings

open Data (Value)
open Files (Path)

inductive Expectation
  | boolean | texts | directory | integer | percentage | field | table
  deriving DecidableEq, Repr

def Expectation.text : Expectation → String
  | boolean => "expected a boolean"
  | texts => "expected a list of strings"
  | directory => "directory does not exist"
  | integer => "expected an integer"
  | percentage => "must be between 0 and 100"
  | field => "expected one of " ++ ", ".intercalate (DocField.all.map DocField.name)
  | table => "expected a table"

inductive Mandatory
  | docs | sources | assemblies
  deriving DecidableEq, Repr

namespace Mandatory

def name : Mandatory → String
  | docs => "docs_dirs"
  | sources => "intellisense_dirs"
  | assemblies => "included_assemblies"

def hint : Mandatory → String
  | docs => "Point it at the folder holding the Docs xml files."
  | sources => "Point it at one or more folders holding IntelliSense xml files."
  | assemblies => "Specify at least one assembly to port."

end Mandatory

inductive Complaint
  | unknown (names : List String)
  | invalid (setting : String) (value : Value) (expected : Expectation)
  | missing (setting : Mandatory)
  | unparsable (path : Path)

def Complaint.message : Complaint → String
  | unknown names => "Unknown setting(s): " ++ ", ".intercalate names
  | invalid setting value expected =>
    "Invalid value " ++ value.quoted ++ " for '" ++ setting ++ "': " ++ expected.text
  | missing setting => "Missing mandatory setting '" ++ setting.name ++ "'. " ++ setting.hint
  | unparsable path => "Could not parse " ++ path.toString

def Complaint.kind : Complaint → String
  | unknown _ | unparsable _ => "ConfigurationError"
  | invalid .. => "InvalidSettingError"
  | missing _ => "MissingSettingError"

/-- Why settings cannot be had. All but a complaint ends the program without a message. -/
inductive Failure
  | complaint (c : Complaint)
  /-- The project file is not UTF-8. -/
  | notUtf8
  /-- An integer is too long to be read from the project file or to be shown in a complaint. -/
  | longInteger
  /-- Values are too deep inside each other to be read from the project file or to be shown. -/
  | tooDeep
  /-- What should hold the settings of all tools is no table. -/
  | noTable
  /-- A directory that is given to override a setting is no text. -/
  | noText
  /-- A path begins with a home directory that nobody knows. -/
  | noHome
  /-- A path begins with the home directory of a user whose name holds a NUL. -/
  | brokenName
  /-- A path, or a name in it, is too long to be looked up. -/
  | longName

def Failure.name : Failure → String
  | complaint c => c.kind
  | notUtf8 => "UnicodeDecodeError"
  | longInteger | brokenName => "ValueError"
  | tooDeep => "RecursionError"
  | noTable | noText => "AttributeError"
  | noHome => "RuntimeError"
  | longName => "OSError"

/-- The failure to show a value. There is always room for its parts. -/
def unshown? (limits : Limits) (value : Value) : Option Failure :=
  (value.unshown? (limits.shown + 1)).map (fun
    | .longInteger => .longInteger
    | .tooDeep => .tooDeep)

def invalid (limits : Limits) (setting : String) (value : Value) (expected : Expectation) :
    Except Failure α :=
  .error ((unshown? limits value).getD (.complaint (.invalid setting value expected)))

end DocMerge.Settings

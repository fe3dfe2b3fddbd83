import DocMerge.Data.Value
import DocMerge.Docs.Identifier
import DocMerge.Text.Integer

/-!
# Command lines

A command line names one of two commands. Options in front of the command say how much is told,
options behind it override settings; of several for one setting the last counts.
-/

namespace DocMerge.Command

open Data (Table Value)

inductive Action
  | merge | report
  deriving DecidableEq, Repr

inductive Effect
  /-- The value of the option is a list with commas. -/
  | items
  /-- The value of the option is an integer. -/
  | number
  /-- The option has no value. -/
  | switch (on : Bool)
  deriving DecidableEq, Repr

structure CommandOption where
  name : String
  letter : Option Char := none
  setting : String
  effect : Effect
  deriving Repr

def selection : List CommandOption := [
  ⟨"--docs", some 'd', "docs_dirs", .items⟩,
  ⟨"--include-assemblies", none, "included_assemblies", .items⟩,
  ⟨"--exclude-assemblies", none, "excluded_assemblies", .items⟩,
  ⟨"--include-namespaces", none, "included_namespaces", .items⟩,
  ⟨"--exclude-namespaces", none, "excluded_namespaces", .items⟩,
  ⟨"--include-types", none, "included_types", .items⟩,
  ⟨"--exclude-types", none, "excluded_types", .items⟩]

def switch (setting on off : String) : List CommandOption :=
  [⟨on, none, setting, .switch true⟩, ⟨off, none, setting, .switch false⟩]

def mergeOptions : List CommandOption :=
  selection ++ [
    ⟨"--intellisense", some 'i', "intellisense_dirs", .items⟩,
    ⟨"--overwrite-fields", none, "overwrite_fields", .items⟩,
    ⟨"--exception-collision-threshold", some 't', "exception_collision_threshold", .number⟩] ++
  switch "skip_interface_implementations" "--skip-interface-implementations"
    "--port-interface-implementations" ++
  switch "skip_interface_remarks" "--skip-interface-remarks" "--port-interface-remarks" ++
  switch "port_type_remarks" "--port-type-remarks" "--no-port-type-remarks" ++
  switch "port_member_remarks" "--port-member-remarks" "--no-port-member-remarks" ++
  switch "port_exceptions_existing" "--port-exceptions-existing" "--no-port-exceptions-existing" ++
  switch "port_exceptions_new" "--port-exceptions-new" "--no-port-exceptions-new" ++
  switch "save" "--save" "--dry-run" ++
  switch "print_undoc" "--print-undoc" "--no-print-undoc"

def Action.options : Action → List CommandOption
  | merge => mergeOptions
  | report => selection

def Action.ofName? : String → Option Action
  | "port" => some .merge
  | "undoc" => some .report
  | _ => none

/-! ## Options with values -/

def CommandOption.read? (o : CommandOption) (text : String) : Option Value :=
  match o.effect with
  | .items => some (.list ((commaList text).map .text))
  | .number => (Text.integer? text.toList).map .int
  | .switch _ => none

/-- An option as it stands on the command line, with the value that is attached to it. -/
structure Occurrence where
  option : CommandOption
  attached : Option String

def longOccurrence? (options : List CommandOption) (argument : String) : Option Occurrence :=
  let (name, attached) :=
    match Text.cutAt? ['='] argument.toList with
    | some (name, value) => (String.ofList name, some (String.ofList value))
    | none => (argument, none)
  (options.find? (·.name == name)).map (⟨·, attached⟩)

/-- An option that is given by its letter. What follows the letter is the value. -/
def shortOccurrence? (options : List CommandOption) (argument : String) : Option Occurrence :=
  match argument.toList with
  | '-' :: letter :: value =>
    (options.find? (·.letter == some letter)).map
      (⟨·, if value.isEmpty then none else some (String.ofList value)⟩)
  | _ => none

def occurrence? (options : List CommandOption) (argument : String) : Option Occurrence :=
  (longOccurrence? options argument).or (shortOccurrence? options argument)

/-- Reads the arguments of a command into settings. There is no answer if one of them is not known,
lacks a value, or has one that it cannot have. -/
def readOptions? (options : List CommandOption) (settings : Table) : List String → Option Table
  | [] => some settings
  | argument :: rest =>
    if argument == "--" then if rest.isEmpty then some settings else none
    else
      match occurrence? options argument with
      | none => none
      | some ⟨o, attached⟩ =>
        match o.effect, attached with
        | .switch on, none => readOptions? options (settings.insert o.setting (.bool on)) rest
        | .switch _, some _ => none
        | _, some text =>
          (o.read? text).bind
            (fun value => readOptions? options (settings.insert o.setting value) rest)
        | _, none =>
          match rest with
          | [] => none
          | text :: rest =>
            (o.read? text).bind (fun value =>
              readOptions? options (settings.insert o.setting value) rest)

/-! ## Whole command lines -/

structure Request where
  verbose : Bool := false
  action : Action
  overrides : Table := []

def asksForAll (argument : String) : Bool :=
  argument == "--verbose" ||
    match argument.toList with
    | '-' :: 'v' :: more => more.all (· == 'v')
    | _ => false

def readAction? (verbose : Bool) : List String → Option Request
  | [] => none
  | name :: rest => do
    let action ← Action.ofName? name
    some { verbose, action, overrides := ← readOptions? action.options [] rest }

def Request.ofArguments? (verbose : Bool) : List String → Option Request
  | [] => none
  | argument :: rest =>
    if asksForAll argument then Request.ofArguments? true rest
    else if argument == "--" then readAction? verbose rest
    else readAction? verbose (argument :: rest)

end DocMerge.Command

import DocMerge.Data.Value
import DocMerge.Files.Store
import DocMerge.Merge.Policy
import DocMerge.Settings.Error
import DocMerge.Text.Integer
import DocMerge.Text.LowerCase

/-!
# Configurations

A configuration is made of a table of settings, each of which is checked. A setting without a value
is not set, and what is not set keeps its default.
-/

namespace DocMerge

open Files (Path Store)

structure Configuration where
  /-- Where the documentation lies that is to be completed. -/
  docs : List Path := []
  /-- Where the documentation lies that was extracted from source code. -/
  sources : List Path := []
  policy : Policy := {}

namespace Settings

open Data (Table Value)

structure Surroundings where
  store : Store
  home : Option Path := none
  /-- The home directories of users, by their names. -/
  users : String → Option Path := fun _ => none
  limits : Limits := {}

/-- The home directory that a tilde and a name stand for; the tilde alone stands for one's own. -/
def Surroundings.homeOf (s : Surroundings) (name : List Char) : Except Failure Path :=
  if name.contains '\x00' then .error .brokenName
  else
    match if name.isEmpty then s.home else s.users (String.ofList name) with
    | some home => .ok home
    | none => .error .noHome

def Surroundings.expand (s : Surroundings) (path : Path) : Except Failure Path :=
  match path.absolute, path.parts with
  | false, first :: rest =>
    match Text.dropStart? ['~'] first.toList with
    | some name => (s.homeOf name).map (fun home => home.join ⟨false, rest⟩)
    | none => .ok path
  | _, _ => .ok path

/-! ## Values -/

def textsOf? : List Value → Option (List String)
  | [] => some []
  | .text s :: rest => (textsOf? rest).map (s :: ·)
  | _ :: _ => none

def nonBlank (items : List String) : List String := (items.map trimmed).filter (· != "")

/-- The items of a list, which may be written as one text with commas. -/
def readTexts (limits : Limits) (setting : String) : Option Value → Except Failure (List String)
  | none => .ok []
  | some (.text s) => .ok (commaList s)
  | some (.list items) =>
    match textsOf? items with
    | some items => .ok (nonBlank items)
    | none => invalid limits setting (.list items) .texts
  | some value => invalid limits setting value .texts

def readDirectory (s : Surroundings) (base : Path) (setting raw : String) :
    Except Failure Path := do
  let path := base.join (← s.expand (Path.ofString raw))
  if s.store.isOverlong path then .error .longName
  else if s.store.isDirectory path then .ok path
  else invalid s.limits setting (.text raw) .directory

def readDirectories (s : Surroundings) (base : Path) (setting : String) (value : Option Value) :
    Except Failure (List Path) := do
  (← readTexts s.limits setting value).mapM (readDirectory s base setting)

def thresholdName : String := "exception_collision_threshold"

section
variable (limits : Limits)

def checkThreshold (n : Int) : Except Failure Int :=
  if 0 ≤ n ∧ n ≤ 100 then .ok n else invalid limits thresholdName (.int n) .percentage

/-- A percentage, which may be written as a text. -/
def readThreshold : Value → Except Failure Int
  | .int n => checkThreshold limits n
  | .text s =>
    match Text.integer? s.toList with
    | some n => checkThreshold limits n
    | none => invalid limits thresholdName (.text s) .integer
  | value => invalid limits thresholdName value .integer

def fieldsName : String := "overwrite_fields"

def readField (raw : String) : Except Failure DocField :=
  match DocField.ofName? (String.ofList (Text.lowerCase raw.toList)) with
  | some field => .ok field
  | none => invalid limits fieldsName (.text raw) .field

def readFields (value : Option Value) : Except Failure (List DocField) := do
  (← readTexts limits fieldsName value).mapM (readField limits)

end

/-! ## Tables -/

def switches : List (String × (Policy → Bool → Policy)) := [
  ("skip_interface_implementations", fun p b => { p with skipImplementations := b }),
  ("skip_interface_remarks", fun p b => { p with skipInterfaceRemarks := b }),
  ("port_type_remarks", fun p b => { p with typeRemarks := b }),
  ("port_member_remarks", fun p b => { p with memberRemarks := b }),
  ("port_exceptions_existing", fun p b => { p with replaceExceptions := b }),
  ("port_exceptions_new", fun p b => { p with addExceptions := b }),
  ("save", fun p b => { p with save := b }),
  ("print_undoc", fun p b => { p with listUndocumented := b })]

def nameSets : List (String × (Policy → List String → Policy)) := [
  ("included_assemblies", fun p names => { p with includedAssemblies := names }),
  ("excluded_assemblies", fun p names => { p with excludedAssemblies := names }),
  ("included_namespaces", fun p names => { p with includedNamespaces := names }),
  ("excluded_namespaces", fun p names => { p with excludedNamespaces := names }),
  ("included_types", fun p names => { p with includedTypes := names }),
  ("excluded_types", fun p names => { p with excludedTypes := names })]

def known : List String :=
  switches.map (·.1) ++ nameSets.map (·.1) ++
    [Mandatory.docs.name, Mandatory.sources.name, thresholdName, fieldsName]

def isSet : Value → Bool
  | .null => false
  | _ => true

def given (settings : Table) : Table := settings.filter (fun (_, value) => isSet value)

def unknownNames (values : Table) : List String :=
  ((values.map (·.1)).filter (fun name => !known.contains name)).mergeSort
    (fun a b => decide (a ≤ b))

section
variable (limits : Limits)

def applySwitch (values : Table) (p : Policy) (switch : String × (Policy → Bool → Policy)) :
    Except Failure Policy :=
  match values.get? switch.1 with
  | none => .ok p
  | some (.bool b) => .ok (switch.2 p b)
  | some value => invalid limits switch.1 value .boolean

def applyNames (values : Table) (p : Policy) (names : String × (Policy → List String → Policy)) :
    Except Failure Policy := do
  .ok (names.2 p (← readTexts limits names.1 (values.get? names.1)).eraseDups)

def applyThreshold (values : Table) (p : Policy) : Except Failure Policy :=
  match values.get? thresholdName with
  | none => .ok p
  | some value => (readThreshold limits value).map (fun n => { p with collisionThreshold := n })

end

def checkMandatory (needsSources : Bool) (c : Configuration) : Except Failure Configuration :=
  if c.docs.isEmpty then .error (.complaint (.missing .docs))
  else if needsSources && c.sources.isEmpty then .error (.complaint (.missing .sources))
  else if c.policy.includedAssemblies.isEmpty then .error (.complaint (.missing .assemblies))
  else .ok c

/-- The configuration that settings describe. Relative directories are seen from a base, and sources
are needed only by some commands. -/
def configure (s : Surroundings) (base : Path) (needsSources : Bool) (settings : Table) :
    Except Failure Configuration := do
  let values := given settings
  if !(unknownNames values).isEmpty then throw (.complaint (.unknown (unknownNames values)))
  let policy ← switches.foldlM (applySwitch s.limits values) {}
  let policy ← nameSets.foldlM (applyNames s.limits values) policy
  let docs ← readDirectories s base Mandatory.docs.name (values.get? Mandatory.docs.name)
  let sources ← readDirectories s base Mandatory.sources.name (values.get? Mandatory.sources.name)
  let policy ← applyThreshold s.limits values policy
  let overwritten ← readFields s.limits (values.get? fieldsName)
  let policy := { policy with overwritten := overwritten.eraseDups }
  checkMandatory needsSources { docs, sources, policy }

end Settings

end DocMerge

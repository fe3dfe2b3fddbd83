import DocMerge.Data.Toml
import DocMerge.Files.Project
import DocMerge.Settings.Configuration

/-!
# Settings of a project

The nearest project file holds settings in a table of its own. Others may override them; directories
among those are seen from where the program runs, the others from where the file lies.
-/

namespace DocMerge.Settings

open Data (Fields Table Value)
open Files (Path Store)

structure ProjectSettings where
  table : Table := []
  /-- The directory from which relative paths are seen. -/
  base : Path

def sectionName : String := "tool.docport"

def inProject (limits : Limits) (file : Table) : Except Failure Table :=
  match Fields.get? file "tool" with
  | none => .ok []
  | some (.table tools) =>
    match Fields.get? tools "docport" with
    | none => .ok []
    | some (.table settings) => .ok settings
    | some value => invalid limits sectionName value .table
  | some _ => .error .noTable

def parse (limits : Limits) (path : Path) (content : ByteArray) : Except Failure Table :=
  match Files.textOf? content with
  | none => .error .notUtf8
  | some text =>
    match Data.Toml.parse limits.settings text with
    | .ok file => inProject limits file
    | .error .malformed => .error (.complaint (.unparsable path))
    | .error .longInteger => .error .longInteger
    | .error .tooDeep => .error .tooDeep

def ProjectSettings.read (limits : Limits) (store : Store) (start : Path) :
    Except Failure ProjectSettings :=
  if store.isOverlong (start.resolved / Files.projectFileName) then .error .longName
  else
    match Files.projectFile? store start with
    | none => .ok { base := start.resolved }
    | some path =>
      match store.read path with
      | .error _ => .error (.complaint (.unparsable path))
      | .ok content => (parse limits path content).map (fun table => { table, base := path.parent })

def anchorItem (s : Surroundings) (here : Path) : Value → Except Failure (List Value)
  | .text raw =>
    if trimmed raw == "" then .ok []
    else (s.expand (Path.ofString (trimmed raw))).map
      (fun path => [.text (here.join path).toString])
  | _ => .error .noText

def anchorItems (s : Surroundings) (here : Path) (items : List Value) : Except Failure Value :=
  (items.mapM (anchorItem s here)).map (fun items => .list items.flatten)

/-- Directories that override others, seen from where the program runs. -/
def anchor (s : Surroundings) (here : Path) : Value → Except Failure Value
  | .text raw => anchorItems s here ((commaList raw).map .text)
  | .list items => anchorItems s here items
  | value => .ok value

def directorySettings : List String := [Mandatory.docs.name, Mandatory.sources.name]

/-- Settings with the directories of one of them anchored, if these override others. -/
def anchorSetting (s : Surroundings) (here : Path) (changes settings : Table) (name : String) :
    Except Failure Table :=
  match Fields.get? changes name with
  | none => .ok settings
  | some value => (anchor s here value).map (settings.insert name)

def override (s : Surroundings) (here : Path) (settings changes : Table) : Except Failure Table :=
  directorySettings.foldlM (anchorSetting s here changes)
    (changes.foldl (fun settings (name, value) => settings.insert name value) settings)

def directoriesIn (s : Surroundings) (base : Path) (settings : Table) : List Path :=
  directorySettings.flatMap (fun name =>
    match readTexts s.limits name (Fields.get? settings name) with
    | .ok items =>
      items.filterMap (fun raw => ((s.expand (Path.ofString raw)).toOption).map base.join)
    | .error _ => [])

def directories (s : Surroundings) (here : Path) (overrides : Table) : List Path :=
  let project :=
    match ProjectSettings.read s.limits s.store here with
    | .ok project => directoriesIn s project.base project.table
    | .error _ => []
  project ++ directoriesIn s here overrides

def load (s : Surroundings) (here : Path) (needsSources : Bool) (overrides : Table) :
    Except Failure Configuration := do
  let project ← ProjectSettings.read s.limits s.store here
  let settings ← override s here project.table (given overrides)
  configure s project.base needsSources settings

end DocMerge.Settings

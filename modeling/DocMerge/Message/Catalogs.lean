import DocMerge.Data.Json
import DocMerge.Files.Project
import DocMerge.Limits
import DocMerge.Message.Standard

/-!
# Message catalogs

Every root may hold catalogs in a directory `needle` and, for what a project overrides, in
`.docport/needle`, with one directory for each language. What is read later counts, and a language
is read once until another root is added.

A file that is no catalog holds nothing. But a file or a directory that is too deep, or the name of
a language that is too long, keeps the whole language from being read.
-/

namespace DocMerge.Message

open Files (Path Store)
open Text (Symbol symbols)

inductive LookupError
  /-- What a file holds, or the directories in which it is, are too deep inside each other. -/
  | tooDeep
  /-- The path of a directory is too long to be looked up. -/
  | longName
  deriving DecidableEq, Repr

def LookupError.name : LookupError → String
  | tooDeep => "RecursionError"
  | longName => "OSError"

abbrev Catalog := List (List Symbol × List Symbol)

namespace Catalog

/-- Of several templates for a key, the last. -/
def get? (catalog : Catalog) (key : List Symbol) : Option (List Symbol) :=
  catalog.reverse.lookup key

/-- A value as a template: a text is not quoted. -/
def templateOf : Data.Json.Value → List Symbol
  | .text s => s
  | value => symbols (value.quotedBy (fun s => String.ofList (Text.quoted s)))

section
variable (limits : Limits) (store : Store)

/-- The catalog that a file holds. A file that cannot be read as one holds nothing. -/
def ofContent (content : ByteArray) : Except LookupError Catalog :=
  match (Files.textOf? content).map (Data.Json.parse limits.catalogs) with
  | some (.ok (.table fields)) => .ok (fields.map (fun (key, value) => (key, templateOf value)))
  | some (.error .tooDeep) => .error .tooDeep
  | _ => .ok []

def ofFile (path : Path) : Except LookupError Catalog :=
  match store.read path with
  | .ok content => ofContent limits content
  | .error _ => .ok []

def filesBelow (directory : Path) : Except LookupError (List Path) :=
  if store.isOverlong directory then .error .longName
  else if store.isDeeper directory limits.directories then .error .tooDeep
  else .ok (store.search directory ".json")

def ofDirectory (directory : Path) : Except LookupError Catalog := do
  let files ← filesBelow limits store directory
  return (← files.mapM (ofFile limits store)).flatten

end

end Catalog

namespace Standard

def catalogAt (path : Path) : Catalog :=
  ((files.lookup path.parts).getD []).map (fun (key, template) => (symbols key, symbols template))

end Standard

inductive Root
  | standard
  | directory (path : Path)
  deriving DecidableEq, Repr

def Root.catalog (limits : Limits) (store : Store) (language : String) :
    Root → Except LookupError Catalog
  | standard => do
    let path := Path.ofString language
    if path.absolute then Catalog.ofDirectory limits store path
    else
      let files ← Catalog.filesBelow limits Standard.tree ⟨true, "needle" :: path.parts⟩
      return files.flatMap Standard.catalogAt
  | directory path => do
    let provided ← Catalog.ofDirectory limits store (path / "needle" / language)
    return provided ++
      (← Catalog.ofDirectory limits store (path / ".docport" / "needle" / language))

structure Catalogs where
  /-- The roots, those that override others behind them. -/
  roots : List Root
  /-- The language that the surroundings ask for. -/
  preferred : Option String := none
  /-- What has been read, by language. -/
  loaded : List (String × Catalog) := []
  limits : Limits := {}

namespace Catalogs

def defaultLanguage : String := "en"

/-- Adds a root that all others override. What was read before is forgotten. -/
def addRoot (c : Catalogs) (root : Root) : Catalogs :=
  if c.roots.contains root then c else { c with roots := root :: c.roots, loaded := [] }

def read (store : Store) (c : Catalogs) (language : String) : Except LookupError Catalog := do
  return (← c.roots.mapM (Root.catalog c.limits store language)).flatten

def load (store : Store) (c : Catalogs) (language : String) :
    Except LookupError Catalog × Catalogs :=
  match c.loaded.lookup language with
  | some catalog => (.ok catalog, c)
  | none =>
    match c.read store language with
    | .ok catalog => (.ok catalog, { c with loaded := (language, catalog) :: c.loaded })
    | .error e => (.error e, c)

/-- The language in which a message is looked for first. An empty request is none. -/
def target (c : Catalogs) (language : Option String) : String :=
  match language.filter (· != "") with
  | some language => language
  | none => c.preferred.getD defaultLanguage

/-- The template for a key: in the language asked for, else in the default language, else the
key. -/
def get (store : Store) (c : Catalogs) (key : String) (language : Option String) :
    Except LookupError (List Symbol) × Catalogs :=
  match c.load store (c.target language) with
  | (.error e, c) => (.error e, c)
  | (.ok catalog, c) =>
    match catalog.get? (symbols key) with
    | some template => (.ok template, c)
    | none =>
      let (catalog, c) := c.load store defaultLanguage
      (catalog.map (fun catalog => (catalog.get? (symbols key)).getD (symbols key)), c)

end Catalogs

end DocMerge.Message

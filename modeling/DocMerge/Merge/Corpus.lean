import DocMerge.Docs.Writing
import DocMerge.Merge.Run

/-!
# Finding documentation in files

Directories are searched for files, whatever lies in them is read, and what is no documentation is
passed over with a notice. The destination holds type files, the source assembly files.
-/

namespace DocMerge.Merge

open Files (Path Store)
open Message (Notice)

abbrev TypeFile := Document Xml.File

def TypeFile.render (d : TypeFile) : TypeFile × Except Fault String :=
  let (body, text) := Writing.render d.type d.body
  ({ d with body }, text)

structure Found (α : Type) where
  items : List α := []
  notices : List Notice := []

def Found.collect (find : Path → Found α) (paths : List Path) : Found α :=
  let found := paths.map find
  { items := found.flatMap (·.items), notices := found.flatMap (·.notices) }

def searchAll (store : Store) (directories : List Path) : List Path :=
  directories.flatMap (fun directory => store.search directory ".xml")

def Found.typeFile (store : Store) (path : Path) : Found TypeFile :=
  match Xml.File.read store path with
  | .error e => { notices := [.unreadable path.toString e.name] }
  | .ok body =>
    match ApiType.ofRoot? path.toString body.root with
    | none => { notices := [.notDocumentation path.toString] }
    | some type => { items := [{ path, type, body }] }

def Found.typeFiles (store : Store) (directories : List Path) : Found TypeFile :=
  Found.collect (Found.typeFile store) (searchAll store directories)

def assemblyOf (root : Xml.Element) : String :=
  trimmed ((root.textAt? ["assembly", "name"]).getD "")

def Found.entriesAt (policy : Policy) (store : Store) (path : Path) : Found Entry :=
  match Xml.File.read store path with
  | .error e => { notices := [.unreadable path.toString e.name] }
  | .ok file =>
    if !file.root.tag.name.is "doc" then { notices := [.notDocumentation path.toString] }
    else
      let assembly := assemblyOf file.root
      if policy.includesAssembly assembly then
        let items := Entry.ofAssemblyFile path.toString assembly file.root
        { items, notices := [.entriesLoaded path.toString items.length] }
      else { notices := [.assemblyExcluded path.toString assembly] }

def Found.entries (policy : Policy) (store : Store) (directories : List Path) : Found Entry :=
  Found.collect (Found.entriesAt policy store) (searchAll store directories)

end DocMerge.Merge

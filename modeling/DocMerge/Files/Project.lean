import DocMerge.Files.Store

/-!
# Projects

A project is a directory that holds a project file or is under version control. What lies below it
belongs to it, unless a nearer project holds it.
-/

namespace DocMerge.Files

def projectFileName : String := "pyproject.toml"

def isProject (store : Store) (directory : Path) : Bool :=
  store.isFile (directory / projectFileName) || store.isDirectory (directory / ".git")

/-- The directory of the nearest project. The root of all files is none. Outside of projects every
directory is its own. -/
def projectRoot (store : Store) (start : Path) : Path :=
  (start.resolved.selfAndAncestors.dropLast.find? (isProject store)).getD start.resolved

def projectFile? (store : Store) (start : Path) : Option Path :=
  (start.resolved.selfAndAncestors.map (· / projectFileName)).find? store.isFile

end DocMerge.Files

import DocMerge.Command.Execution
import DocMerge.Command.Screen

/-!
# The program

Files are read before a command is executed and written after it; in between nothing but the session
changes.
-/

namespace DocMerge.Program

open Files (Path Place Store)

def depthLimit : Nat := 128

def isWritable (name : String) : IO Bool :=
  tryCatch (do let _ ← IO.FS.Handle.mk name .append; pure true) (fun _ => pure false)

/-- Adds what lies at a path to a store, down to a depth. What cannot be read is left out. -/
def gather : Nat → Store → String → IO Store
  | 0, store, _ => pure store
  | depth + 1, store, name => do
    let path := System.mkFilePath [name]
    let place : Place := (Path.ofString name).parts
    if ← path.isDir then
      let mut store := store.addDirectory place
      for entry in ← path.readDir do
        store ← gather depth store (name ++ "/" ++ entry.fileName)
      pure store
    else if ← path.pathExists then
      let store := store.addFile place (← IO.FS.readBinFile path)
      pure (if ← isWritable name then store else { store with readOnly := place :: store.readOnly })
    else pure store

def gatherProjects (store : Store) (here : Path) : IO Store :=
  here.selfAndAncestors.foldlM (fun store directory => do
    let store ← gather 1 store (directory / Files.projectFileName).toString
    if ← (System.mkFilePath [(directory / ".git").toString]).isDir then
      pure (store.addDirectory (directory / ".git").parts)
    else pure (store.addDirectory directory.parts)) store

def gatherAll (store : Store) (paths : List Path) : IO Store :=
  paths.foldlM (fun store path => gather depthLimit store path.toString) store

def nameOf (place : Place) : String := ({ absolute := true, parts := place } : Files.Path).toString

def writeChanges (before after : Store) : IO Unit :=
  for (place, item) in after.items do
    match item, before.items.lookup place with
    | .directory, some _ => pure ()
    | .directory, none => IO.FS.createDirAll (nameOf place)
    | .file new, some (.file old) => if new != old then IO.FS.writeBinFile (nameOf place) new
    | .file new, _ => IO.FS.writeBinFile (nameOf place) new

def execute (request : Command.Request) : IO UInt32 := do
  let here := Path.ofString (← IO.currentDir).toString
  let home := (← IO.getEnv "HOME").map Path.ofString
  let projects ← gatherProjects {} here
  let root := Files.projectRoot projects here
  let directories := Settings.directories { store := projects, home } here request.overrides
  let store ← gatherAll projects (directories ++ [root / "needle", root / ".docport" / "needle"])
  let catalogs := Command.catalogsFor store here (← IO.getEnv "DOCPORT_LANG")
  let output ← IO.getStdout
  let screen : Command.Screen := { verbose := request.verbose, coloured := ← output.isTty }
  let (ending, after) := request.execute { store, here, home, catalogs, takes := screen.takes }
  output.putStr (screen.output after.said)
  (← IO.getStderr).putStr (screen.errors after.said)
  match ending with
  | .stopped stop => IO.eprintln ("docport: " ++ stop.name)
  | _ => pure ()
  writeChanges store after.store
  pure ending.status.toUInt32

end DocMerge.Program

def main (arguments : List String) : IO UInt32 := do
  match DocMerge.Command.Request.ofArguments? false arguments with
  | some request => DocMerge.Program.execute request
  | none =>
    IO.eprintln "usage: docport [--verbose] (port | undoc) [options]"
    pure DocMerge.Command.Ending.misused.status.toUInt32

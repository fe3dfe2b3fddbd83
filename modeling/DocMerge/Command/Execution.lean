import DocMerge.Command.Options
import DocMerge.Command.Session

/-!
# Executing commands

A command ends well, ends with errors that its user is told about, or stops. Malformed command lines
are not executed.
-/

namespace DocMerge.Command

open Message (Catalogs)

inductive Ending
  | finished
  /-- There were errors, which the user has been told about. -/
  | failed
  | stopped (stop : Stop)
  /-- The command line is malformed. -/
  | misused

def Ending.status : Ending → Nat
  | finished => 0
  | failed | stopped _ => 1
  | misused => 2

def complete (overrides : Data.Table) : Work Bool := do
  let result ← Work.merge (← Work.configure true overrides)
  pure result.committed.success

def list (overrides : Data.Table) : Work Bool := do
  let _ ← Work.report (← Work.configure false overrides)
  pure true

def Action.work (overrides : Data.Table) : Action → Work Bool
  | merge => complete overrides
  | report => list overrides

def attempt (work : Work Bool) : Work Bool :=
  tryCatch work (fun stop =>
    match stop with
    | .settings (.complaint c) => do
      Work.say [.configurationError c.kind c.message]
      pure false
    | stop => throw stop)

def Request.execute (r : Request) (s : Session) : Ending × Session :=
  match (attempt (r.action.work r.overrides)).run.run s with
  | (.ok true, s) => (.finished, s)
  | (.ok false, s) => (.failed, s)
  | (.error stop, s) => (.stopped stop, s)

def catalogsFor (store : Files.Store) (here : Files.Path) (language : Option String) : Catalogs :=
  { roots := [.standard, .directory (Files.projectRoot store here)], preferred := language }

end DocMerge.Command

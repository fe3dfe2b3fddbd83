import DocMerge.Merge.Corpus
import DocMerge.Merge.Undocumented
import DocMerge.Message.Wording
import DocMerge.Settings.ProjectSettings

/-!
# Sessions

A session works on files and tells its user what it does. When it stops before its end, what it has
written and said so far stays.
-/

namespace DocMerge

open Files (Path Store)
open Message (Catalogs Level Notice Surface Unsaid Voice)
open Text (Symbol)

inductive Stop
  | settings (failure : Settings.Failure)
  | unsaid (why : Unsaid)
  | fault (fault : Fault)

def Stop.name : Stop → String
  | settings failure => failure.name
  | unsaid why => why.name
  | fault what => what.name

structure Session where
  store : Store
  /-- The directory in which the program runs. -/
  here : Path
  home : Option Path := none
  /-- The home directories of users, by their names. -/
  users : String → Option Path := fun _ => none
  limits : Limits := {}
  catalogs : Catalogs
  /-- What the arguments of messages have to offer to templates. -/
  surface : Surface := .counts
  /-- Whether the user can be told a text of a level. -/
  takes : Level → List Symbol → Bool := fun _ _ => true
  /-- What the user has been told, with the level of each message. -/
  said : List (Level × List Symbol) := []

namespace Session

def surroundings (s : Session) : Settings.Surroundings :=
  { store := s.store, home := s.home, users := s.users, limits := s.limits }

def voice (s : Session) : Voice := { store := s.store, surface := s.surface, takes := s.takes }

end Session

abbrev Work := ExceptT Stop (StateM Session)

namespace Work

def say (notices : List Notice) : Work Unit := do
  let s ← get
  let worded := Message.wordAll s.voice s.catalogs notices
  set { s with catalogs := worded.catalogs, said := s.said ++ worded.texts }
  match worded.error with
  | some e => throw (.unsaid e)
  | none => pure ()

def orStop (stop : ε → Stop) : Except ε α → Work α
  | .ok a => pure a
  | .error e => throw (stop e)

def configure (needsSources : Bool) (overrides : Data.Table) : Work Configuration := do
  let s ← get
  orStop .settings (Settings.load s.surroundings s.here needsSources overrides)

/-! ## Merging -/

def loadTypes (c : Configuration) : Work (List Merge.TypeFile) := do
  let found := Merge.Found.typeFiles (← get).store c.docs
  say found.notices
  say [.docsLoaded found.items.length]
  pure found.items

def loadIndex (c : Configuration) : Work Merge.SourceIndex := do
  let found := Merge.Found.entries c.policy (← get).store c.sources
  let (index, notices) := Merge.SourceIndex.build found.items
  say (found.notices ++ notices)
  say [.sourceIndexed index.size]
  pure index

/-- Merges files and writes those that have changed, if the policy says so. What is said of the
writing comes behind it. -/
def mergeFiles (setting : Merge.Setting Xml.File) (files : List Merge.TypeFile) :
    Work (List Merge.TypeFile × Merge.Result) := do
  let prepared := Merge.prepare setting files
  say prepared.notices
  let s ← get
  let (store, result) ← orStop .fault (prepared.commit s.here s.store)
  set { s with store }
  say (Merge.commitNotices result.committed)
  pure (prepared.merges.documents, result)

def reportOn (c : Configuration) (files : List Merge.TypeFile) : Work Merge.Undocumented := do
  let report := Merge.Undocumented.collect c.policy ((Merge.inOrder files).map (·.type))
  say report.notices
  pure report

def summary (r : Merge.Result) : List Notice :=
  .runSummary (r.count .merged) (r.count .nothingToMerge) (r.count .unmatched) ::
    (if r.unmatchedMemberCount = 0 && r.orphanCount = 0 then []
    else [.runMisses r.unmatchedMemberCount r.orphanCount])

/-- How a run ended. Nothing is said of a run that saves nothing. -/
def closing (c : Configuration) (r : Merge.Result) : List Notice :=
  if !r.committed.success then [.runFailed r.committed.failed.length]
  else if c.policy.save then [.runComplete r.committed.written.length]
  else []

/-- Completes the documentation. Interface remarks are taken before anything is merged. -/
def merge (c : Configuration) : Work Merge.Result := do
  say [.runStarted]
  let files ← loadTypes c
  if files.isEmpty then say [.noDocs]
  let index ← loadIndex c
  let types := (Merge.inOrder files).map (·.type)
  let interfaces ← orStop .fault (Merge.InterfaceRemarks.ofTypes c.policy (some index) types)
  let setting : Merge.Setting Xml.File :=
    { policy := c.policy, interfaces, index, render := fun d => (Merge.TypeFile.render d).2 }
  let (files, result) ← mergeFiles setting files
  say (summary result)
  if c.policy.listUndocumented then let _ ← reportOn c files
  say (closing c result)
  pure result

def report (c : Configuration) : Work Merge.Undocumented := do
  reportOn c (← loadTypes c)

end Work

end DocMerge

import DocMerge.Files.Batch
import DocMerge.Merge.Dirty
import DocMerge.Merge.Outcome

/-!
# A run over a corpus

The types of the destination are merged in the order of their DocIds. Afterwards, if the policy says
so, the documents of the dirty types are rendered and written.
-/

namespace DocMerge.Merge

open Files (Path Store Write Batch Committed FileError)
open Message (Notice)

structure Document (α : Type) where
  path : Path
  type : ApiType
  body : α

structure Setting (α : Type) where
  policy : Policy
  interfaces : InterfaceRemarks
  index : SourceIndex
  render : Document α → Except Fault String

structure Result where
  outcomes : List Outcome := []
  dirty : List String := []
  committed : Committed := {}

namespace Result

def count (r : Result) (status : Status) : Nat := (r.outcomes.filter (·.status == status)).length

def orphanCount (r : Result) : Nat :=
  r.outcomes.foldl (fun total o => total + o.orphans.length) 0

def unmatchedMemberCount (r : Result) : Nat :=
  r.outcomes.foldl (fun total o => total + o.unmatchedMembers.length) 0

end Result

def inOrder (documents : List (Document α)) : List (Document α) :=
  documents.mergeSort (fun a b => decide (a.type.docId ≤ b.type.docId))

/-- The document for a type: of several that declare it, the last. -/
def documentFor? (documents : List (Document α)) (docId : String) : Option (Document α) :=
  documents.reverse.find? (fun d => d.type.docId == docId)

structure Merges (α : Type) where
  documents : List (Document α) := []
  outcomes : List Outcome := []
  dirty : DirtyTypes := {}
  notices : List Notice := []
  fault : Option Fault := none

namespace Merges

def pass (m : Merges α) (d : Document α) (notices : List Notice) : Merges α :=
  { m with documents := m.documents ++ [d], notices := m.notices ++ notices }

def mergeNext (setting : Setting α) (m : Merges α) (d : Document α) : Merges α :=
  if m.fault.isSome then m.pass d []
  else
    let merge := mergeType setting.policy setting.interfaces setting.index d.type
    { documents := m.documents ++ [{ d with type := merge.type }]
      outcomes := if merge.fault.isSome then m.outcomes else m.outcomes ++ [merge.outcome]
      dirty := if merge.isDirty then m.dirty.mark d.type.docId else m.dirty
      notices := m.notices ++ merge.notices
      fault := merge.fault }

def step (setting : Setting α) (m : Merges α) (d : Document α) : Merges α :=
  if m.fault.isSome || setting.policy.includesType d.type.entry.node then m.mergeNext setting d
  else m.pass d [.typeExcluded d.type.docId]

def inTurn (setting : Setting α) (documents : List (Document α)) : Merges α :=
  documents.foldl (mergeNext setting) {}

def ofDocuments (setting : Setting α) (documents : List (Document α)) : Merges α :=
  (inOrder documents).foldl (step setting) {}

end Merges

/-- Renders the documents of the given types; a type without a document is left out. -/
def renderAll (setting : Setting α) (documents : List (Document α)) :
    List String → Except Fault (List Write)
  | [] => .ok []
  | docId :: rest =>
    match documentFor? documents docId with
    | none => renderAll setting documents rest
    | some d => do
      let content ← setting.render d
      let more ← renderAll setting documents rest
      pure (⟨d.path, content⟩ :: more)

def commitNotices (c : Committed) : List Notice :=
  c.failed.map (fun (path, e) => .writeFailed path.toString e.text) ++
    c.written.map (fun path => .fileSaved path.toString)

structure Prepared (α : Type) where
  merges : Merges α
  /-- The writes to be made; none at all if nothing is to be saved. -/
  writes : Except Fault (Option (List Write))

def prepare (setting : Setting α) (documents : List (Document α)) : Prepared α :=
  let merges := Merges.ofDocuments setting documents
  match merges.fault with
  | some fault => { merges, writes := .error fault }
  | none =>
    if setting.policy.save then
      { merges, writes := (renderAll setting merges.documents merges.dirty.sorted).map some }
    else { merges, writes := .ok none }

namespace Prepared

def dryRunNotices (p : Prepared α) : List Notice :=
  match p.writes with
  | .ok none => if p.merges.dirty.size = 0 then [] else [.dryRun p.merges.dirty.size]
  | _ => []

def notices (p : Prepared α) : List Notice := p.merges.notices ++ p.dryRunNotices

def commit (p : Prepared α) (root : Path) (store : Store) : Except Fault (Store × Result) :=
  p.writes.map (fun writes =>
    let (_, store, committed) := Batch.commit { root, pending := writes.getD [] } store
    (store, { outcomes := p.merges.outcomes, dirty := p.merges.dirty.sorted, committed }))

end Prepared

structure Run (α : Type) where
  documents : List (Document α)
  store : Store
  notices : List Notice
  result : Except Fault Result

def run (setting : Setting α) (root : Path) (store : Store) (documents : List (Document α)) :
    Run α :=
  let prepared := prepare setting documents
  match prepared.commit root store with
  | .error fault =>
    { documents := prepared.merges.documents, store, notices := prepared.notices,
      result := .error fault }
  | .ok (store, result) =>
    { documents := prepared.merges.documents, store
      notices := prepared.notices ++ commitNotices result.committed, result := .ok result }

end DocMerge.Merge

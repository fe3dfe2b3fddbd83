import DocMerge.Merge.Fields
import DocMerge.Merge.Exceptions
import DocMerge.Merge.Pairing

/-!
# Merging one type

A type that has a source receives its texts, and so does each of its paired members. The outcome
lists what was written, what found no place, and which members were passed over.
-/

namespace DocMerge.Merge

open Message (Notice)

inductive Status
  | merged | nothingToMerge | unmatched
  deriving DecidableEq, Repr

structure Change where
  docId : String
  label : Label
  deriving DecidableEq, Repr

def Change.text (c : Change) : String := c.docId ++ ": " ++ c.label.text

structure Outcome where
  docId : String
  status : Status
  updated : List Change := []
  orphans : List Change := []
  unmatchedMembers : List String := []
  skippedMembers : List String := []
  deriving DecidableEq, Repr

structure EntryMerge where
  entry : Entry
  updated : List Change := []
  orphans : List Change := []
  notices : List Notice := []
  fault : Option Fault := none
  deriving Repr

/-- Adds the exceptions of the source and turns labels into changes of the entry. Nothing is
reported of a merge that ended in a fault. -/
def EntryMerge.finish (policy : Policy) (e source : Entry) (m : Merged) : EntryMerge :=
  match m.fault with
  | some fault =>
    { entry := { e with docs := m.docs }, updated := m.updated.map (⟨e.docId, ·⟩),
      notices := m.notices, fault := some fault }
  | none =>
    let m := m.mergeExceptions policy source.docs
    { entry := { e with docs := m.docs }
      updated := m.updated.map (⟨e.docId, ·⟩)
      orphans := m.orphans.map (⟨e.docId, ·⟩)
      notices := m.notices ++ m.updated.map (fun l => .fieldUpdated e.docId l.text) ++
        m.orphans.map (fun l => .fieldOrphaned e.docId l.text) }

def mergeTypeEntry (policy : Policy) (type source : Entry) : EntryMerge :=
  EntryMerge.finish policy type source (mergeTypeFields policy type.docs source.docs)

def mergeMember (policy : Policy) (interfaces : InterfaceRemarks) (ownerId : String)
    (member source : Entry) : EntryMerge :=
  EntryMerge.finish policy member source
    (mergeMemberFields policy interfaces ownerId member source.docs)

def mergePaired (policy : Policy) (interfaces : InterfaceRemarks) (ownerId : String)
    (m : Entry × MemberMatch) : EntryMerge :=
  match m.2.source? with
  | some source => mergeMember policy interfaces ownerId m.1 source
  | none => { entry := m.1 }

/-- Merges the members of a type in order. After a fault the others stay as they are. -/
def mergeMembers (policy : Policy) (interfaces : InterfaceRemarks) (ownerId : String) :
    List (Entry × MemberMatch) → List EntryMerge × Option Fault
  | [] => ([], none)
  | m :: rest =>
    let merge := mergePaired policy interfaces ownerId m
    match merge.fault with
    | some fault => (merge :: rest.map (fun m => { entry := m.1 }), some fault)
    | none =>
      let (more, fault) := mergeMembers policy interfaces ownerId rest
      (merge :: more, fault)

structure TypeMerge where
  type : ApiType
  outcome : Outcome
  notices : List Notice := []
  fault : Option Fault := none
  deriving Repr

def TypeMerge.isDirty (m : TypeMerge) : Bool := !m.outcome.updated.isEmpty

def TypeMerge.assemble (type : ApiType) (pairing : Pairing) (own : EntryMerge)
    (members : List EntryMerge) (fault : Option Fault) : TypeMerge :=
  let updated := own.updated ++ members.flatMap (·.updated)
  let merged := !updated.isEmpty
  let entry := { own.entry with docs := own.entry.docs.markIf merged }
  { type := { entry, members := members.map (·.entry) }
    outcome := {
      docId := type.docId
      status := if merged then .merged else .nothingToMerge
      updated
      orphans := own.orphans ++ members.flatMap (·.orphans)
      unmatchedMembers := ((pairing.paired.filter (·.2.isNone)).map (·.1.docId))
      skippedMembers := pairing.skipped.map (·.docId) }
    notices := pairing.notices ++ own.notices ++ members.flatMap (·.notices) ++
      (if merged && fault.isNone then [.typeMerged type.docId updated.length] else [])
    fault }

def mergeType (policy : Policy) (interfaces : InterfaceRemarks) (index : SourceIndex)
    (type : ApiType) : TypeMerge :=
  match Pairing.of? policy index type with
  | none =>
    { type, outcome := { docId := type.docId, status := .unmatched },
      notices := [.typeUnmatched type.docId] }
  | some pairing =>
    let own := mergeTypeEntry policy type.entry pairing.source
    match own.fault with
    | some fault =>
      TypeMerge.assemble type pairing own (type.members.map (fun m => { entry := m })) (some fault)
    | none =>
      let (members, fault) := mergeMembers policy interfaces type.docId pairing.members
      TypeMerge.assemble type pairing own members fault

end DocMerge.Merge

import DocMerge.Docs.Entry
import DocMerge.Message.Notice

/-!
# The index of source entries

Entries are found by canonical key: types by their own, members by that of their type and their own.
Of several entries with one key the last counts. Before an index is built, entries are ordered by
the file they come from and their DocId, so the order in which files were read does not matter.
-/

namespace DocMerge.Merge

open Message (Notice)

structure SourceIndex where
  types : List Entry := []
  /-- Members with the key of the type they belong to. -/
  members : List (DocId.Key × Entry) := []
  duplicates : List String := []
  malformed : List String := []

/-- Puts an element in the place of the first that it replaces, or at the end, and returns the
replaced one. -/
def replaceFirst (replaces : α → Bool) (x : α) : List α → Option α × List α
  | [] => (none, [x])
  | y :: rest =>
    if replaces y then (some y, x :: rest)
    else
      let (old, rest) := replaceFirst replaces x rest
      (old, y :: rest)

namespace SourceIndex

def size (index : SourceIndex) : Nat := index.types.length + index.members.length

def findType? (index : SourceIndex) (key : DocId.Key) : Option Entry :=
  index.types.find? (fun e => e.key.agrees key)

def findMember? (index : SourceIndex) (typeKey key : DocId.Key) : Option Entry :=
  (index.members.find? (fun m => m.1.agrees typeKey && m.2.key.agrees key)).map (·.2)

def addType (index : SourceIndex) (e : Entry) : Option Entry × SourceIndex :=
  let (old, types) := replaceFirst (fun t => t.key.agrees e.key) e index.types
  (old, { index with types })

def addMember (index : SourceIndex) (typeKey : DocId.Key) (e : Entry) :
    Option Entry × SourceIndex :=
  let (old, members) :=
    replaceFirst (fun m => m.1.agrees typeKey && m.2.key.agrees e.key) (typeKey, e) index.members
  (old.map (·.2), { index with members })

def add (index : SourceIndex) (e : Entry) (typeKey : Option DocId.Key) :
    Option Entry × SourceIndex :=
  match typeKey with
  | none => index.addType e
  | some typeKey => index.addMember typeKey e

/-- The key of the type an entry belongs to: none for a type. An entry whose own key or whose type's
key is malformed has no place. -/
def placeOf? (e : Entry) : Option (Option DocId.Key) :=
  if !e.key.isValid then none
  else
    match e.node.kind with
    | .type => some none
    | .member =>
      let typeKey := DocId.Key.ofContainingType e.docId
      if typeKey.isValid then some (some typeKey) else none

def record (index : SourceIndex) (e : Entry) : SourceIndex × List Notice :=
  match placeOf? e with
  | none =>
    ({ index with malformed := index.malformed ++ [e.docId] },
      [.malformedKey e.docId e.node.sourcePath])
  | some typeKey =>
    match index.add e typeKey with
    | (none, index) => (index, [])
    | (some old, index) =>
      ({ index with duplicates := index.duplicates ++ [e.docId] },
        [.duplicateKey e.docId old.node.sourcePath e.node.sourcePath])

/-- Entries in the order of their files and, within one file, of their DocIds. -/
def entryLE (a b : Entry) : Bool :=
  a.node.sourcePath < b.node.sourcePath ||
  (a.node.sourcePath == b.node.sourcePath && a.docId ≤ b.docId)

def recordAll (index : SourceIndex) : List Entry → SourceIndex × List Notice
  | [] => (index, [])
  | e :: rest =>
    let (index, notices) := index.record e
    let (index, more) := index.recordAll rest
    (index, notices ++ more)

def build (entries : List Entry) : SourceIndex × List Notice :=
  recordAll {} (entries.mergeSort entryLE)

end SourceIndex

end DocMerge.Merge

import DocMerge.Docs.Entry

/-!
# Dirty types

Which destination types have been written to, by DocId. Writing to a member marks its type too.
-/

namespace DocMerge.Merge

structure DirtyTypes where
  ids : List String := []
  deriving Repr

namespace DirtyTypes

def mark (d : DirtyTypes) (docId : String) : DirtyTypes :=
  if d.ids.contains docId then d else ⟨d.ids ++ [docId]⟩

def isDirty (d : DirtyTypes) (docId : String) : Bool := d.ids.contains docId

def size (d : DirtyTypes) : Nat := d.ids.length

def sorted (d : DirtyTypes) : List String := d.ids.mergeSort (fun a b => decide (a ≤ b))

end DirtyTypes

def markEntry (e : Entry) : Entry := { e with docs := e.docs.markIf true }

def markType (t : ApiType) (member : Option Nat) : ApiType :=
  { entry := markEntry t.entry
    members := match member with
      | some place => t.members.modify place markEntry
      | none => t.members }

end DocMerge.Merge

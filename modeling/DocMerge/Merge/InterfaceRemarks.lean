import DocMerge.Docs.Markdown
import DocMerge.Fault
import DocMerge.Merge.Policy
import DocMerge.Merge.SourceIndex

/-!
# Remarks of interface members

A member may receive the remarks of the interface members that it implements. What these remarks are
is settled before anything is merged, so it does not depend on the order in which types are merged.
-/

namespace DocMerge.Merge

open Message (Notice)

def markdownOf (text : String) : Except Fault String :=
  match markdown? text with
  | some text => .ok text
  | none => .error .missingCodeBlock

/-- The remarks of every destination member, the last one first, and the index to ask for others. -/
structure InterfaceRemarks where
  policy : Policy
  index : Option SourceIndex
  known : List (DocId.Key × Option String) := []

namespace InterfaceRemarks

def findSource? (r : InterfaceRemarks) (docId : String) : Option Entry :=
  r.index.bind (fun index =>
    index.findMember? (DocId.Key.ofContainingType docId) (DocId.Key.ofDocId docId))

def remarksOf (source : Entry) : Except Fault (Option String) :=
  match source.docs.remarks with
  | some text => if isUndocumented text then .ok none else (markdownOf text).map some
  | none => .ok none

def sourceRemarks (r : InterfaceRemarks) (docId : String) : Except Fault (Option String) :=
  match r.findSource? docId with
  | some source => remarksOf source
  | none => .ok none

/-- The remarks that a destination member has or, if it has none, will receive. -/
def settledRemarks (r : InterfaceRemarks) (member : Entry) : Except Fault (Option String) := do
  let text ← if lacksText member.docs.remarks then r.sourceRemarks member.docId
    else pure member.docs.remarks
  pure (if lacksText text then none else text.map trimmed)

def addMember (r : InterfaceRemarks) (member : Entry) : Except Fault InterfaceRemarks := do
  if !member.key.isValid then return r
  let remarks ← r.settledRemarks member
  return { r with known := (member.key, remarks) :: r.known }

def ofTypes (policy : Policy) (index : Option SourceIndex) (types : List ApiType) :
    Except Fault InterfaceRemarks :=
  (types.flatMap (·.members)).foldlM addMember { policy, index }

/-- The remarks of an interface member; no answer at all if neither corpus has the member. -/
def lookup (r : InterfaceRemarks) (docId : String) : Except Fault (Option (Option String)) :=
  match r.known.find? (fun k => k.1.agrees (DocId.Key.ofDocId docId)) with
  | some (_, remarks) => .ok (some remarks)
  | none =>
    match r.findSource? docId with
    | some source => (remarksOf source).map some
    | none => .ok none

def block (docId remarks : String) : String :=
  "Remarks copied from <xref:" ++ crossReference docId ++ ">:\n\n" ++ remarks

def blocks (r : InterfaceRemarks) (memberId : String) :
    List String → List Notice × Except Fault (List String)
  | [] => ([], .ok [])
  | docId :: rest =>
    match r.lookup docId with
    | .error fault => ([], .error fault)
    | .ok none =>
      let (notices, found) := r.blocks memberId rest
      (.unresolvedInterface memberId docId :: notices, found)
    | .ok (some remarks) =>
      let (notices, found) := r.blocks memberId rest
      match remarks with
      | some text => (notices, if text == "" then found else found.map (block docId text :: ·))
      | none => (notices, found)

def separator : String := "\n\n"

def resolve (r : InterfaceRemarks) (member : ApiNode) : List Notice × Except Fault String :=
  if r.policy.skipImplementations then ([], .ok "")
  else
    let (notices, found) := r.blocks member.docId member.interfaceMembers
    (notices, found.map separator.intercalate)

end InterfaceRemarks

end DocMerge.Merge

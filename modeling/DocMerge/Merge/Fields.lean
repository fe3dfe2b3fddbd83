import DocMerge.Merge.Exceptions
import DocMerge.Merge.InterfaceRemarks

/-!
# Merging fields

A source text goes into a field of the destination that is there and is empty, or that the policy
overwrites. Elements that the destination does not have are never made.
-/

namespace DocMerge.Merge

open Message (Notice)

/-- What a merge into one entry has done. A fault ends the merge, and what was done before it
stays. -/
structure Merged where
  docs : DocFields
  updated : List Label := []
  orphans : List Label := []
  notices : List Notice := []
  fault : Option Fault := none
  deriving Repr

def replaces (policy : Policy) (field : DocField) (current incoming : String) : Bool :=
  !isUndocumented incoming &&
    (isUndocumented current || (policy.overwritten.contains field && current != incoming))

/-- The text that a field takes from a source, if it takes any. A field that is not there takes
none. -/
def taken? (policy : Policy) (field : DocField) (current incoming : Option String) :
    Option String :=
  match current, incoming.map trimmed with
  | some current, some text => if replaces policy field current text then some text else none
  | _, _ => none

structure Offer where
  scalar : ScalarField → Option String
  named : NamedField → NamedTexts

def Offer.ofSource (source : DocFields) (remarks value : Option String) : Offer where
  scalar
    | .summary => source.summary
    | .remarks => remarks
    | .returns => source.returns
    | .value => value
  named := source.named

namespace Merged

def mark (m : Merged) (docs : DocFields) (label : Label) : Merged :=
  { m with docs := docs.markIf true, updated := m.updated ++ [label] }

def mergeScalar (policy : Policy) (field : ScalarField) (incoming : Option String) (m : Merged) :
    Merged :=
  match taken? policy field.toField (m.docs.scalar field) incoming with
  | some text => m.mark (m.docs.setScalar field (some text)) (.scalar field)
  | none => m

def mergeName (policy : Policy) (field : NamedField) (m : Merged) (name text : String) : Merged :=
  let texts := m.docs.named field
  match texts.lookup name with
  | none => { m with orphans := m.orphans ++ [.named field name] }
  | some current =>
    match taken? policy field.toField current text with
    | some text => m.mark (m.docs.setNamed field (texts.set name text)) (.named field name)
    | none => m

def mergeNames (policy : Policy) (field : NamedField) (incoming : List (String × String))
    (m : Merged) : Merged :=
  incoming.foldl (fun m (name, text) => m.mergeName policy field name text) m

def mergeScalars (policy : Policy) (offer : Offer) (fields : List ScalarField) (m : Merged) :
    Merged :=
  fields.foldl (fun m field => m.mergeScalar policy field (offer.scalar field)) m

def mergeNamed (policy : Policy) (offer : Offer) (fields : List NamedField) (m : Merged) : Merged :=
  fields.foldl (fun m field => m.mergeNames policy field (offer.named field).toList) m

def mergeOffer (policy : Policy) (offer : Offer) (m : Merged) : Merged :=
  (m.mergeScalars policy offer ScalarField.all).mergeNamed policy offer NamedField.all

/-- Merges the texts of a source. If its remarks cannot be told, its summary is all that is
merged. -/
def mergeSource (policy : Policy) (source : DocFields) (remarks : Except Fault (Option String))
    (value : Option String) (m : Merged) : Merged :=
  match remarks with
  | .error fault => { m.mergeScalar policy .summary source.summary with fault := some fault }
  | .ok remarks => m.mergeOffer policy (.ofSource source remarks value)

def mergeExceptions (policy : Policy) (source : DocFields) (m : Merged) : Merged :=
  let (docs, labels) := DocMerge.Merge.mergeExceptions policy m.docs source
  { m with docs, updated := m.updated ++ labels }

end Merged

def ownRemarks (source : DocFields) : Except Fault String := markdownOf (source.remarks.getD "")

/-- Merges the fields of a source into a type. Delegates document their signature on the type; no
type has a value. -/
def mergeTypeFields (policy : Policy) (docs source : DocFields) : Merged :=
  Merged.mergeSource policy source
    (if policy.typeRemarks then (ownRemarks source).map some else .ok none) none { docs }

def explicitNote (ownerId interfaceMember : String) : String :=
  "This member is an explicit interface member implementation. It can be used only when the <xref:"
    ++
    crossReference ownerId ++ "> instance is cast to an <xref:" ++ interfaceOf interfaceMember ++
    "> interface."

def explicitNotes (policy : Policy) (ownerId : String) (node : ApiNode) : List String :=
  match node.interfaceMembers with
  | first :: _ =>
    if node.isExplicitImplementation && !policy.skipImplementations
      then [explicitNote ownerId first]
    else []
  | [] => []

def interfaceBlocks (policy : Policy) (interfaces : InterfaceRemarks) (node : ApiNode) :
    List Notice × Except Fault (List String) :=
  if node.implementsInterface && !policy.skipInterfaceRemarks then
    let (notices, text) := interfaces.resolve node
    (notices, text.map (fun block => [block].filter (· != "")))
  else ([], .ok [])

/-- The remarks that a member should receive: those of its source, then the note on an explicit
implementation, then a block for each interface member. -/
def composeRemarks (policy : Policy) (interfaces : InterfaceRemarks) (ownerId : String)
    (node : ApiNode) (source : DocFields) : List Notice × Except Fault String :=
  match ownRemarks source with
  | .error fault => ([], .error fault)
  | .ok own =>
    let (notices, blocks) := interfaceBlocks policy interfaces node
    (notices, blocks.map (fun blocks =>
      InterfaceRemarks.separator.intercalate
        ([own].filter (· != "") ++ explicitNotes policy ownerId node ++ blocks)))

/-- The text for the value of a member. A property whose source has none takes what the source says
it returns. -/
def incomingValue (node : ApiNode) (source : DocFields) : Option String :=
  if lacksText source.value && node.memberType == "Property" then source.returns else source.value

def memberRemarks (policy : Policy) (interfaces : InterfaceRemarks) (ownerId : String)
    (node : ApiNode) (source : DocFields) : List Notice × Except Fault (Option String) :=
  if policy.memberRemarks then
    let (notices, text) := composeRemarks policy interfaces ownerId node source
    (notices, text.map some)
  else ([], .ok none)

def mergeMemberFields (policy : Policy) (interfaces : InterfaceRemarks) (ownerId : String)
    (member : Entry) (source : DocFields) : Merged :=
  let (notices, remarks) := memberRemarks policy interfaces ownerId member.node source
  Merged.mergeSource policy source remarks (incomingValue member.node source)
    { docs := member.docs, notices }

end DocMerge.Merge

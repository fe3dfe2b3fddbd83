import DocMerge.Merge.Policy
import DocMerge.Merge.SourceIndex

/-!
# Pairing members with their sources

A destination type whose key is in the index is paired member by member, in order.
-/

namespace DocMerge.Merge

open Message (Notice)

inductive MemberMatch
  /-- The member implements an interface, and the policy leaves such members alone. -/
  | skipped
  /-- The key of the member is malformed. -/
  | malformed
  | unmatched
  | matched (source : Entry)
  deriving DecidableEq, Repr

def MemberMatch.source? : MemberMatch → Option Entry
  | matched source => some source
  | _ => none

def matchMember (policy : Policy) (index : SourceIndex) (typeKey : DocId.Key) (member : Entry) :
    MemberMatch :=
  if policy.skipImplementations && member.node.implementsInterface then .skipped
  else if !member.key.isValid then .malformed
  else
    match index.findMember? typeKey member.key with
    | some source => .matched source
    | none => .unmatched

structure Pairing where
  source : Entry
  members : List (Entry × MemberMatch)
  deriving DecidableEq, Repr

namespace Pairing

def of? (policy : Policy) (index : SourceIndex) (type : ApiType) : Option Pairing :=
  (index.findType? type.key).map (fun source =>
    { source, members := type.members.map (fun m => (m, matchMember policy index type.key m)) })

def skipped (p : Pairing) : List Entry :=
  (p.members.filter (·.2 == .skipped)).map (·.1)

def paired (p : Pairing) : List (Entry × Option Entry) :=
  (p.members.filter (·.2 != .skipped)).map (fun m => (m.1, m.2.source?))

def malformed (p : Pairing) : List Entry :=
  (p.members.filter (·.2 == .malformed)).map (·.1)

def notices (p : Pairing) : List Notice :=
  p.malformed.map (fun m => .malformedKey m.docId m.node.sourcePath)

end Pairing

end DocMerge.Merge

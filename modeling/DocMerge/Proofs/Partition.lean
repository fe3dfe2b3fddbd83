import DocMerge.Proofs.Remarks
import DocMerge.Proofs.Spelling

/-!
# Where the members of a type end up

The members of a type that has a source are divided in order: those that the policy leaves alone,
and the others, each with its source if there is one. `mergeType_accounts`: what a merge reports of
the members and what it makes of them follows this division, and no member is lost or counted twice.
-/

namespace DocMerge

def Policy.skips (policy : Policy) (m : Entry) : Bool :=
  policy.skipImplementations && m.node.implementsInterface

namespace Merge

def SourceIndex.sourceOf? (index : SourceIndex) (typeKey : DocId.Key) (m : Entry) : Option Entry :=
  if m.key.isValid then index.findMember? typeKey m.key else none

-- ---------------------------------------------------------------------------
-- One member
-- ---------------------------------------------------------------------------

section
variable {policy : Policy} {index : SourceIndex} {typeKey : DocId.Key} {m : Entry}

theorem matchMember_beq_skipped :
    (matchMember policy index typeKey m == .skipped) = policy.skips m := by
  rw [Bool.eq_iff_iff, beq_iff_eq, matchMember_eq_skipped_iff, Policy.skips]

theorem matchMember_source? :
    (matchMember policy index typeKey m).source? =
      if policy.skips m then none else index.sourceOf? typeKey m := by
  unfold matchMember SourceIndex.sourceOf? Policy.skips
  split
  · rfl
  · cases m.key.isValid with
    | false => rfl
    | true => cases index.findMember? typeKey m.key <;> rfl

theorem matchMember_beq_malformed :
    (matchMember policy index typeKey m == .malformed) = (!policy.skips m && !m.key.isValid) := by
  unfold matchMember Policy.skips
  split
  · rename_i hskips
    rw [hskips]
    rfl
  · rename_i hskips
    rw [Bool.not_eq_true] at hskips
    rw [hskips]
    cases m.key.isValid with
    | false => rfl
    | true => cases index.findMember? typeKey m.key <;> rfl

end

-- ---------------------------------------------------------------------------
-- All members
-- ---------------------------------------------------------------------------

/-- The division of a type's members. A filter keeps the order of what it keeps, and what one of the
two lists leaves out is in the other. -/
structure Pairing.Partitions (policy : Policy) (index : SourceIndex) (type : ApiType)
    (p : Pairing) : Prop where
  once : (p.skipped ++ p.paired.map (·.1)).Perm type.members
  skipped : p.skipped = type.members.filter policy.skips
  paired : p.paired = (type.members.filter (!policy.skips ·)).map fun m =>
    (m, index.sourceOf? type.key m)
  malformed : p.malformed = (type.members.filter (!policy.skips ·)).filter (!·.key.isValid)

section
variable (policy : Policy) (index : SourceIndex) (type : ApiType) (source : Entry)

theorem pairedMembers_skipped :
    Pairing.skipped ⟨source, pairedMembers policy index type⟩ =
    type.members.filter policy.skips := by
  simp [Pairing.skipped, pairedMembers, List.filter_map, Function.comp_def, matchMember_beq_skipped]

theorem pairedMembers_paired :
    Pairing.paired ⟨source, pairedMembers policy index type⟩ =
      (type.members.filter (!policy.skips ·)).map fun m => (m, index.sourceOf? type.key m) := by
  simp only [Pairing.paired, pairedMembers, List.filter_map, List.map_map, Function.comp_def, bne,
    matchMember_beq_skipped, matchMember_source?]
  refine List.map_congr_left fun m hm => ?_
  have hkept : policy.skips m = false := by simpa using (List.mem_filter.mp hm).2
  rw [hkept]
  rfl

theorem pairedMembers_malformed :
    Pairing.malformed ⟨source, pairedMembers policy index type⟩ =
      (type.members.filter (!policy.skips ·)).filter (!·.key.isValid) := by
  simp [Pairing.malformed, pairedMembers, List.filter_map, List.filter_filter, Function.comp_def,
    matchMember_beq_malformed, Bool.and_comm]

theorem pairedMembers_partitions :
    Pairing.Partitions policy index type ⟨source, pairedMembers policy index type⟩ where
  once := by
    rw [pairedMembers_skipped, pairedMembers_paired, List.map_map]
    simpa [Function.comp_def] using List.filter_append_perm policy.skips type.members
  skipped := pairedMembers_skipped policy index type source
  paired := pairedMembers_paired policy index type source
  malformed := pairedMembers_malformed policy index type source

end

-- ---------------------------------------------------------------------------
-- The report and the members after a merge
-- ---------------------------------------------------------------------------

def mergedMember (policy : Policy) (interfaces : InterfaceRemarks)
    (index : SourceIndex) (type : ApiType)
    (m : Entry) : Entry :=
  if policy.skips m then m
  else
    match index.sourceOf? type.key m with
    | some source => (mergeMember policy interfaces type.docId m source).entry
    | none => m

theorem mergePaired_entry (policy : Policy) (interfaces : InterfaceRemarks)
    (index : SourceIndex) (type : ApiType)
    (m : Entry) :
    (mergePaired policy interfaces type.docId (m, matchMember policy index type.key m)).entry =
      mergedMember policy interfaces index type m := by
  rw [mergePaired, matchMember_source?, mergedMember]
  cases policy.skips m with
  | true => rfl
  | false => cases index.sourceOf? type.key m <;> rfl

def Pairing.mergedIds (p : Pairing) : List String := (p.paired.filter (·.2.isSome)).map (·.1.docId)

/-- What a merge tells of the members of a type, and what it makes of them. -/
structure TypeMerge.Accounts (policy : Policy) (interfaces : InterfaceRemarks)
    (index : SourceIndex) (type : ApiType)
    (p : Pairing) (merge : TypeMerge) : Prop where
  matched : merge.outcome.status ≠ .unmatched
  skipped : merge.outcome.skippedMembers = p.skipped.map (·.docId)
  unmatched : merge.outcome.unmatchedMembers = (p.paired.filter (·.2.isNone)).map (·.1.docId)
  members : merge.type.members = type.members.map (mergedMember policy interfaces index type)
  complete : (merge.outcome.skippedMembers ++ merge.outcome.unmatchedMembers ++ p.mergedIds).Perm
    (type.members.map (·.docId))

/-- Skipped, unmatched and merged members are all members. -/
theorem Pairing.Partitions.complete {p : Pairing} (h : p.Partitions policy index type) :
    (p.skipped.map (·.docId) ++ (p.paired.filter (·.2.isNone)).map (·.1.docId) ++ p.mergedIds).Perm
      (type.members.map (·.docId)) := by
  have hpaired : (p.paired.filter (·.2.isNone) ++ p.paired.filter (·.2.isSome)).Perm p.paired := by
    simpa using List.filter_append_perm (·.2.isNone) p.paired
  have hids := hpaired.map fun m => m.1.docId
  rw [List.map_append] at hids
  have honce := h.once.map (·.docId)
  rw [List.map_append, List.map_map] at honce
  rw [List.append_assoc]
  exact (hids.append_left _).trans honce

theorem TypeMerge.assemble_status (type : ApiType) (p : Pairing) (own : EntryMerge)
    (members : List EntryMerge)
    (fault : Option Fault) :
    (TypeMerge.assemble type p own members fault).outcome.status ≠ .unmatched := by
  simp only [assemble]
  split <;> simp

theorem mergeType_of_source (h : index.findType? type.key = some source)
    (hok : (mergeType policy interfaces index type).fault = none) :
    (mergeType policy interfaces index type).Accounts policy interfaces index type
      ⟨source, pairedMembers policy index type⟩ := by
  obtain ⟨hown, hmembers⟩ := mergeType_fault_eq_none policy interfaces index type h hok
  have hmerge := mergeType_of_ok policy interfaces index type h hown hmembers
  have hpartition := pairedMembers_partitions policy index type source
  rw [hmerge]
  refine ⟨TypeMerge.assemble_status _ _ _ _ _, rfl, rfl, ?_, hpartition.complete⟩
  simp only [TypeMerge.assemble, pairedMembers, List.map_map]
  exact List.map_congr_left fun m _ => mergePaired_entry policy interfaces index type m

/-- The members of a type with a source are divided into those that are left alone and the others,
in order; of the others, those with a malformed key have no source, and the rest have what the index
has for them. If the merge ends without a fault, it reports the members that are left alone and
those without a source, and merges the remaining ones. A type without a source is reported as
unmatched, and nothing of it is paired or changed. -/
theorem mergeType_accounts (policy : Policy) (interfaces : InterfaceRemarks) (index : SourceIndex)
    (type : ApiType) :
    match index.findType? type.key with
    | some source => ∃ p, Pairing.of? policy index type = some p ∧ p.source = source ∧
        p.Partitions policy index type ∧
        ((mergeType policy interfaces index type).fault = none →
          (mergeType policy interfaces index type).Accounts policy interfaces index type p)
    | none => Pairing.of? policy index type = none ∧
        mergeType policy interfaces index type =
          { type
            outcome := { docId := type.docId, status := .unmatched, updated := [], orphans := []
                         unmatchedMembers := [], skippedMembers := [] }
            notices := [.typeUnmatched type.docId] } := by
  cases hfound : index.findType? type.key with
  | some source =>
    refine ⟨⟨source, pairedMembers policy index type⟩,
      pairing_eq policy index type source hfound, rfl,
      pairedMembers_partitions policy index type source, mergeType_of_source hfound⟩
  | none =>
    refine ⟨?_, mergeType_of_unmatched policy interfaces index type hfound⟩
    rw [Pairing.of?, hfound]
    rfl

namespace Small

def mixed : ApiType where
  entry := { node := node .type "T:Stack" [] }
  members := [
    { node := node .member "M:Stack.Count" ["M:ICounted.Count"] },
    { node := node .member "M:Stack.(" [] },
    { node := node .member "M:Stack.Take" [], docs := { remarks := some placeholder } },
    { node := node .member "M:Stack.Peek" [] }]

end Small

theorem mergeType_accounts_small :
    let policy : Policy := { (Small.setting true).policy with skipImplementations := true }
    let merge := mergeType policy (Small.setting true).interfaces Small.index Small.mixed
    (Small.index.findType? Small.mixed.key).isSome = true ∧ merge.fault = none ∧
      ∃ p, Pairing.of? policy Small.index Small.mixed = some p ∧
      p.Partitions policy Small.index Small.mixed ∧
        merge.Accounts policy (Small.setting true).interfaces Small.index Small.mixed p ∧
        merge.outcome.skippedMembers = ["M:Stack.Count"] ∧
        merge.outcome.unmatchedMembers = ["M:Stack.(", "M:Stack.Peek"] ∧
        p.mergedIds = ["M:Stack.Take"] := by
  intro policy merge
  have haccounts := mergeType_accounts policy
    (Small.setting true).interfaces Small.index Small.mixed
  have hfault : merge.fault = none := by decide +kernel
  cases hfound : Small.index.findType? Small.mixed.key with
  | none =>
    have hsome : (Small.index.findType? Small.mixed.key).isSome = true := by decide +kernel
    rw [hfound] at hsome
    cases hsome
  | some source =>
    rw [hfound] at haccounts
    obtain ⟨p, hp, -, hpartition, hreport⟩ := haccounts
    have hids : (Pairing.of? policy Small.index Small.mixed).map Pairing.mergedIds =
        some ["M:Stack.Take"] := by
      decide +kernel
    rw [hp, Option.map_some, Option.some.injEq] at hids
    exact ⟨rfl, hfault, p, hp, hpartition,
      hreport hfault, by decide +kernel, by decide +kernel, hids⟩

end Merge

end DocMerge

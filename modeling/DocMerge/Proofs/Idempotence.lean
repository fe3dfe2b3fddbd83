import DocMerge.Proofs.Remarks

/-!
# A second run does nothing

`run_again`: when interface remarks are not copied and documented exceptions keep their texts, a run
leaves a corpus in which the same run has nothing left to write. An entry that has received an offer
has nothing to take from it, whatever is overwritten, since a text that was taken is the trimmed
text on offer; and each exception of its source is by then a duplicate or has no place.
-/

namespace DocMerge.Merge

open DocId (Key)

-- ---------------------------------------------------------------------------
-- An entry
-- ---------------------------------------------------------------------------

structure IsDone (policy : Policy) (source : DocFields) (offer : Offer) (docs : DocFields) :
    Prop where
  scalar : ∀ f, taken? policy f.toField (docs.scalar f) (offer.scalar f) = none
  named : ∀ f name,
    taken? policy f.toField ((docs.named f).lookup name) ((offer.named f).lookup name) = none
  exceptions : exceptionsAfter policy docs source = docs.exceptions
  labels : exceptionLabels policy docs source = []

theorem IsDone.markIf (h : IsDone policy source offer docs) (written : Bool) :
    IsDone policy source offer (docs.markIf written) where
  scalar f := by rw [DocFields.scalar_markIf]; exact h.scalar f
  named f name := by rw [DocFields.named_markIf]; exact h.named f name
  exceptions := (exceptionsAfter_congr policy source rfl rfl).1.trans h.exceptions
  labels := (exceptionsAfter_congr policy source rfl rfl).2.trans h.labels

theorem takenLabels_of_isDone (h : IsDone policy source offer docs) :
    takenLabels policy offer docs = [] := by
  have hscalars : scalarLabels policy offer docs ScalarField.all = [] := by
    simp [scalarLabels, h.scalar]
  have hnames : ∀ f, nameLabels policy f (docs.named f) (offer.named f).toList = [] := by
    intro f
    simp only [nameLabels, List.map_eq_nil_iff, List.filter_eq_nil_iff]
    intro pair hpair
    rw [← NamedTexts.mem_toList_iff.mp hpair, h.named f pair.1]
    simp
  rw [takenLabels, hscalars, List.nil_append, List.flatMap_eq_nil_iff]
  exact fun f _ => hnames f

structure LeavesAlone (e : Entry) (merge : EntryMerge) : Prop where
  entry : merge.entry = e
  updated : merge.updated = []
  fault : merge.fault = none

theorem Absorbs.of_isDone (h : Absorbs policy e source offer merge)
    (hdone : IsDone policy source.docs offer e.docs) : LeavesAlone e merge := by
  have hupdated : merge.updated = [] := by
    rw [h.updated, takenLabels_of_isDone hdone, hdone.labels]
    rfl
  have hdocs : merge.entry.docs = e.docs := by
    refine DocFields.ext_fields (fun f => ?_) (fun f => ?_) (h.exceptions.trans hdone.exceptions)
      h.present (by simp [h.changed, hupdated])
    · rw [h.fields.scalar f, settled, hdone.scalar f, Option.none_or]
    · refine NamedTexts.ext_lookup (h.fields.names f) fun name => ?_
      rw [h.fields.lookup f name, settled, hdone.named f name, Option.none_or]
  refine ⟨?_, hupdated, h.fault⟩
  have hnode := h.node
  cases hentry : merge.entry
  simp_all

def HasTypedExceptions (e : Entry) : Prop :=
  ∀ x ∈ e.docs.exceptions, isUndocumented x.text = false → (Key.ofDocId x.cref).isValid = true

theorem Absorbs.isDone (h : Absorbs policy e source offer merge)
    (htyped : HasTypedExceptions source)
    (hoff : policy.replaceExceptions = false) (hthreshold : policy.collisionThreshold ≤ 100) :
    IsDone policy source.docs offer merge.entry.docs := by
  have hagain : mergeExceptionList policy merge.entry.docs.exceptions source.docs.exceptions =
      (merge.entry.docs.exceptions, []) ∨ merge.entry.docs.present = false := by
    cases hpresent : e.docs.present with
    | false => exact .inr (h.present.trans hpresent)
    | true =>
      have hafter : merge.entry.docs.exceptions =
          (mergeExceptionList policy e.docs.exceptions source.docs.exceptions).1 := by
        rw [h.exceptions, exceptionsAfter, if_pos hpresent]
      rw [hafter]
      exact .inl (mergeExceptionList_again htyped hoff hthreshold e.docs.exceptions)
  refine ⟨fun f => ?_, fun f name => ?_, ?_, ?_⟩
  · rw [h.fields.scalar f, taken?_settled]
  · rw [h.fields.lookup f name, taken?_settled]
  · rcases hagain with hagain | habsent
    · simp [exceptionsAfter, hagain]
    · simp [exceptionsAfter, habsent]
  · rcases hagain with hagain | habsent
    · simp [exceptionLabels, hagain]
    · simp [exceptionLabels, habsent]

-- ---------------------------------------------------------------------------
-- Members
-- ---------------------------------------------------------------------------

/-- What the second of two runs with the same policy and index can rely on. -/
structure Repeatable (policy : Policy) (index : SourceIndex) : Prop where
  skips : policy.skipInterfaceRemarks = true
  keeps : policy.replaceExceptions = false
  threshold : policy.collisionThreshold ≤ 100
  plain : ∀ e ∈ index.entries, IsPlain e
  typed : ∀ e ∈ index.entries, HasTypedExceptions e

theorem memberOffer_of_skip (h : policy.skipInterfaceRemarks = true)
    (interfaces others : InterfaceRemarks) (ownerId : String) (node : ApiNode)
    (source : DocFields) :
    memberOffer policy interfaces ownerId node source =
      memberOffer policy others ownerId node source := by
  have hblocks : interfaceBlocks policy interfaces node = interfaceBlocks policy others node := by
    simp [interfaceBlocks, h]
  simp only [memberOffer, memberRemarks, composeRemarks, hblocks]

theorem matchMember_congr (h : m.node = m'.node) :
    matchMember policy index key m = matchMember policy index key m' := by
  unfold matchMember Entry.key
  rw [h]

theorem mergePaired_again (hrep : Repeatable policy index) (interfaces others : InterfaceRemarks)
    (ownerId : String) (m : Entry) (key : Key) :
    let found := matchMember policy index key m
    let once := (mergePaired policy interfaces ownerId (m, found)).entry
    let again := mergePaired policy others ownerId (once, found)
    once.node = m.node ∧ LeavesAlone once again := by
  intro found once again
  cases hfound : matchMember policy index key m with
  | matched source =>
    have hmem := mem_of_matchMember hfound
    obtain ⟨offer, hoffer⟩ :
        ∃ offer, memberOffer policy interfaces ownerId m.node source.docs = .ok offer :=
      memberOffer_ok (hrep.plain source hmem) (.inl hrep.skips) ownerId m.node
    have honce := mergeMember_of_ok hoffer
    have hdone := honce.isDone (hrep.typed source hmem) hrep.keeps hrep.threshold
    have hnode : once.node = m.node := by
      simp only [once, found, hfound]
      exact honce.node
    have hoffer' : memberOffer policy others ownerId once.node source.docs = .ok offer := by
      rw [hnode, memberOffer_of_skip hrep.skips others interfaces, hoffer]
    have hagain := mergeMember_of_ok hoffer'
    have halone := hagain.of_isDone (by
      simpa only [once, found, hfound, mergePaired_matched] using hdone)
    simp only [again, found, hfound]
    exact ⟨hnode, halone⟩
  | skipped | malformed | unmatched =>
    simp only [again, once, found, hfound]
    exact ⟨rfl, rfl, rfl, rfl⟩

-- ---------------------------------------------------------------------------
-- A type
-- ---------------------------------------------------------------------------

structure ChangesNothing (type : ApiType) (merge : TypeMerge) : Prop where
  type : merge.type = type
  updated : merge.outcome.updated = []
  status : merge.outcome.status ≠ .merged
  fault : merge.fault = none

theorem assemble_changesNothing (hown : own.entry = type.entry) (hupdated : own.updated = [])
    (hmembers : members.map (·.entry) = type.members)
    (hnone : ∀ m ∈ members, m.updated = []) :
    ChangesNothing type (TypeMerge.assemble type pairing own members none) := by
  have hall : own.updated ++ members.flatMap (·.updated) = [] := by
    rw [hupdated, List.nil_append, List.flatMap_eq_nil_iff]
    exact hnone
  constructor <;> simp [TypeMerge.assemble, hall, hown, hmembers]

theorem mergeType_changesNothing (hsource : index.findType? type.key = some source)
    (hown : LeavesAlone type.entry (mergeTypeEntry policy type.entry source))
    (hmembers : ∀ m ∈ pairedMembers policy index type,
      LeavesAlone m.1 (mergePaired policy interfaces type.docId m)) :
    ChangesNothing type (mergeType policy interfaces index type) := by
  rw [mergeType_of_ok policy interfaces index type hsource hown.fault fun m hm =>
    (hmembers m hm).fault]
  refine assemble_changesNothing hown.entry hown.updated ?_ ?_
  · rw [List.map_map]
    calc
      (pairedMembers policy index type).map ((·.entry) ∘ mergePaired policy interfaces type.docId)
        = (pairedMembers policy index type).map (·.1) :=
          List.map_congr_left fun m hm => (hmembers m hm).entry
      _ = type.members := by simp [pairedMembers, Function.comp_def]
  · intro merge hmerge
    obtain ⟨m, hm, rfl⟩ := List.mem_map.mp hmerge
    exact (hmembers m hm).updated

/-- A type that has been merged is left as it is when it is merged again. -/
theorem mergeType_again (hrep : Repeatable policy index) (interfaces others : InterfaceRemarks)
    (type : ApiType) :
    let once := (mergeType policy interfaces index type).type
    once.entry.node = type.entry.node ∧
    ChangesNothing once (mergeType policy others index once) := by
  intro once
  cases hsource : index.findType? type.key with
  | none =>
    have honce : once = type := by
      simp only [once, mergeType_of_unmatched policy interfaces index type hsource]
    rw [honce, mergeType_of_unmatched policy others index type hsource]
    exact ⟨rfl, rfl, rfl, by simp, rfl⟩
  | some source =>
    have hmem := SourceIndex.mem_of_findType? hsource
    have hskip : policy.skipInterfaceRemarks = true ∨ interfaces.Answers := .inl hrep.skips
    obtain ⟨hown, hmembers⟩ := entries_fault_eq_none hrep.plain hskip type
    obtain ⟨written, honce⟩ :=
      mergeType_type_of_ok policy interfaces index type hsource (hown source hsource) hmembers
    have hentryOnce := congrArg ApiType.entry honce
    have hmembersOnce := congrArg ApiType.members honce
    -- The type receives the same offer again.
    obtain ⟨offer, hoffer⟩ := typeOffer_ok policy (hrep.plain source hmem)
    have hentry : Absorbs policy type.entry source offer
        (mergeTypeEntry policy type.entry source) := mergeTypeEntry_of_ok hoffer
    have hdone := hentry.isDone (hrep.typed source hmem) hrep.keeps hrep.threshold
    have hagain : Absorbs policy once.entry source offer
        (mergeTypeEntry policy once.entry source) := mergeTypeEntry_of_ok hoffer
    have hnode : once.entry.node = type.entry.node :=
      (congrArg Entry.node hentryOnce).trans hentry.node
    have hkey : once.key = type.key := congrArg ApiNode.key hnode
    have hdocId : once.docId = type.docId := congrArg ApiNode.docId hnode
    refine ⟨hnode, mergeType_changesNothing (hkey ▸ hsource) (hagain.of_isDone ?_) fun m hm => ?_⟩
    · simp only [once, hentryOnce]
      exact hdone.markIf written
    · -- Each member is paired with the same source again.
      simp only [pairedMembers, once, hmembersOnce, List.map_map, List.mem_map,
        Function.comp_apply] at hm
      obtain ⟨member, -, rfl⟩ := hm
      have hmember := mergePaired_again hrep interfaces others type.docId member type.key
      rw [hkey, hdocId, matchMember_congr hmember.1]
      exact hmember.2

-- ---------------------------------------------------------------------------
-- A run
-- ---------------------------------------------------------------------------

theorem mergeOf_again (setting : Setting α) (hrep : Repeatable setting.policy setting.index)
    (interfaces : InterfaceRemarks) (d : Document α) :
    (mergedDocument setting d).type.entry.node = d.type.entry.node ∧
      ChangesNothing (mergedDocument setting d).type
        (mergeOf { setting with interfaces } (mergedDocument setting d)) :=
  mergeType_again hrep setting.interfaces interfaces d.type

theorem run_of_changesNothing (setting : Setting α) (root : Files.Path) (store : Files.Store)
    {documents : List (Document α)} (hordered : inOrder documents = documents)
    (hnothing : ∀ d ∈ documents, isIncluded setting d = true →
      ChangesNothing d.type (mergeOf setting d)) :
    (run setting root store documents).documents = documents ∧
      ∃ result, (run setting root store documents).result = .ok result ∧ result.dirty = [] ∧
        ∀ o ∈ result.outcomes, o.status ≠ .merged ∧ o.updated = [] := by
  have hall := Merges.ofDocuments_completes setting documents fun d hd hincluded =>
    (hnothing d (hordered ▸ hd) hincluded).fault
  rw [hordered] at hall
  have hdirty : (Merges.ofDocuments setting documents).dirty = {} := by
    rw [hall.dirty]
    refine markDirty_of_clean setting _ _ fun d hd => ?_
    obtain ⟨hmem, hincluded⟩ := List.mem_filter.mp hd
    rw [TypeMerge.isDirty, (hnothing d hmem hincluded).updated]
    rfl
  have hsorted : (Merges.ofDocuments setting documents).dirty.sorted = [] := by
    rw [hdirty, DirtyTypes.sorted, List.mergeSort_nil]
  constructor
  · rw [run_documents_eq, hall.documents, List.nil_append]
    refine (List.map_congr_left fun d hd => ?_).trans (List.map_id _)
    split
    · rename_i hincluded
      rw [mergedDocument, (hnothing d hd hincluded).type]
      rfl
    · rfl
  · obtain ⟨committed, hresult⟩ :=
      run_of_ok setting root store documents hall.fault ⟨[], by rw [hsorted]; rfl⟩
    refine ⟨_, hresult, hsorted, fun o ho => ?_⟩
    rw [hall.outcomes, List.nil_append, List.mem_map] at ho
    obtain ⟨d, hd, rfl⟩ := ho
    obtain ⟨hmem, hincluded⟩ := List.mem_filter.mp hd
    exact ⟨(hnothing d hmem hincluded).status, (hnothing d hmem hincluded).updated⟩

/-- After a run, the same run with the remarks of interface members taken down anew writes nothing:
it leaves every document as it is, and reports neither a merged type nor a dirty one. -/
theorem run_again (setting : Setting α) (hrep : Repeatable setting.policy setting.index)
    (root root' : Files.Path) (store store' : Files.Store) (documents : List (Document α)) :
    let first := run setting root store documents
    ∃ interfaces,
      InterfaceRemarks.ofTypes setting.policy (some setting.index) (first.documents.map (·.type)) =
        .ok interfaces ∧
      let again := run { setting with interfaces } root' store' first.documents
      again.documents = first.documents ∧
        ∃ result, again.result = .ok result ∧ result.dirty = [] ∧
          ∀ o ∈ result.outcomes, o.status ≠ .merged ∧ o.updated = [] := by
  intro first
  have honce := Merges.ofDocuments_completes setting documents fun d _ _ =>
    mergeType_ok hrep.plain (.inl hrep.skips) d.type
  have hfirst : first.documents = (inOrder documents).map
      fun d => if isIncluded setting d then mergedDocument setting d else d := by
    rw [run_documents_eq, honce.documents, List.nil_append]
  have hordered : inOrder first.documents = first.documents := by
    rw [hfirst]
    refine inOrder_map documents _ fun d => ?_
    split
    · exact congrArg ApiNode.docId (mergeOf_again setting hrep setting.interfaces d).1
    · rfl
  refine ⟨_, InterfaceRemarks.ofTypes_ok setting.policy hrep.plain _,
    run_of_changesNothing _ root' store' hordered fun d' hd' hincluded => ?_⟩
  -- The second run meets documents that are not included and documents once merged.
  rw [hfirst, List.mem_map] at hd'
  obtain ⟨d, -, rfl⟩ := hd'
  split at hincluded
  · rename_i hd
    rw [if_pos hd]
    exact (mergeOf_again setting hrep _ d).2
  · rename_i hd
    exact absurd hincluded hd

theorem Small.repeatable : Repeatable (Small.setting true).policy (Small.setting true).index where
  skips := rfl
  keeps := rfl
  threshold := by decide
  plain := Small.index_plain
  typed := by
    simp only [setting, SourceIndex.entries, index, HasTypedExceptions]
    decide

theorem run_again_small :
    Repeatable (Small.setting true).policy (Small.setting true).index ∧
    let first := run (Small.setting true) ⟨true, []⟩ {} [Small.stack, Small.queue]
    ∃ interfaces,
      InterfaceRemarks.ofTypes (Small.setting true).policy (some Small.index)
        (first.documents.map (·.type)) = .ok interfaces ∧
      let again := run { Small.setting true with interfaces } ⟨true, []⟩ first.store first.documents
      again.documents = first.documents ∧
        ∃ result, again.result = .ok result ∧ result.dirty = [] ∧
          ∀ o ∈ result.outcomes, o.status ≠ .merged ∧ o.updated = [] :=
  ⟨Small.repeatable, run_again (Small.setting true) Small.repeatable _ _ _ _ _⟩

end DocMerge.Merge

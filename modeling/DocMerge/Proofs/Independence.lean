import DocMerge.Proofs.Preservation
import DocMerge.Proofs.Remarks

/-!
# The order of merges does not matter

`inTurn_perm`: types with distinct DocIds and distinct member keys can be merged in any order. What
is copied from interface members has been taken down before the first merge, and what was taken down
can be looked up with the same answer whatever the order in which it was. So each type is merged as
if it were alone.
-/

namespace DocMerge.Merge

open DocId (Key)

-- ---------------------------------------------------------------------------
-- Lists in another order
-- ---------------------------------------------------------------------------

theorem find?_perm {xs ys : List β} (hperm : xs.Perm ys)
    (honly : ∀ x ∈ xs, ∀ y ∈ xs, p x = true → p y = true → x = y) : xs.find? p = ys.find? p := by
  cases hx : xs.find? p with
  | none =>
    rw [List.find?_eq_none] at hx
    exact (List.find?_eq_none.mpr fun y hy => hx y (hperm.mem_iff.mpr hy)).symm
  | some x =>
    have hmem := List.mem_of_find?_eq_some hx
    have hp := List.find?_some hx
    cases hy : ys.find? p with
    | none => exact absurd hp (List.find?_eq_none.mp hy x (hperm.mem_iff.mp hmem))
    | some y =>
      rw [honly x hmem y (hperm.mem_iff.mpr (List.mem_of_find?_eq_some hy)) hp (List.find?_some hy)]

theorem mergeSort_perm_eq {xs ys : List String} (hperm : xs.Perm ys) :
    xs.mergeSort (fun a b => decide (a ≤ b)) = ys.mergeSort (fun a b => decide (a ≤ b)) := by
  have hsorted : ∀ zs : List String,
      (zs.mergeSort (fun a b => decide (a ≤ b))).Pairwise (fun a b => decide (a ≤ b) = true) :=
    List.pairwise_mergeSort (by simpa using fun a b c => String.le_trans)
      (by simpa using String.le_total)
  refine List.Perm.eq_of_pairwise (fun a b _ _ hab hba => ?_) (hsorted xs) (hsorted ys)
    ((List.mergeSort_perm xs _).trans (hperm.trans (List.mergeSort_perm ys _).symm))
  exact String.le_antisymm (by simpa using hab) (by simpa using hba)

-- ---------------------------------------------------------------------------
-- Remarks that answer alike
-- ---------------------------------------------------------------------------

structure InterfaceRemarks.Alike (r s : InterfaceRemarks) : Prop where
  policy : r.policy = s.policy
  lookup : ∀ docId, r.lookup docId = s.lookup docId

section
variable {r s : InterfaceRemarks} (h : r.Alike s)
include h

theorem InterfaceRemarks.blocks_congr (memberId : String) (docIds : List String) :
    r.blocks memberId docIds = s.blocks memberId docIds := by
  induction docIds with
  | nil => rfl
  | cons docId rest ih => rw [blocks, blocks, h.lookup docId, ih]

theorem InterfaceRemarks.resolve_congr (member : ApiNode) :
    r.resolve member = s.resolve member := by
  rw [resolve, resolve, h.policy, blocks_congr h]

theorem memberRemarks_congr (policy : Policy) (ownerId : String) (node : ApiNode)
    (source : DocFields) :
    memberRemarks policy r ownerId node source = memberRemarks policy s ownerId node source := by
  simp only [memberRemarks, composeRemarks, interfaceBlocks, InterfaceRemarks.resolve_congr h]

theorem mergeMember_congr (policy : Policy) (ownerId : String) (member source : Entry) :
    mergeMember policy r ownerId member source = mergeMember policy s ownerId member source := by
  rw [mergeMember, mergeMember, mergeMemberFields, mergeMemberFields, memberRemarks_congr h]

theorem mergePaired_congr (policy : Policy) (ownerId : String) (m : Entry × MemberMatch) :
    mergePaired policy r ownerId m = mergePaired policy s ownerId m := by
  simp only [mergePaired, mergeMember_congr h]

theorem mergeMembers_congr (policy : Policy) (ownerId : String)
    (members : List (Entry × MemberMatch)) :
    mergeMembers policy r ownerId members = mergeMembers policy s ownerId members := by
  induction members with
  | nil => rfl
  | cons m rest ih => rw [mergeMembers, mergeMembers, mergePaired_congr h, ih]

theorem mergeType_congr (policy : Policy) (index : SourceIndex) (type : ApiType) :
    mergeType policy r index type = mergeType policy s index type := by
  simp only [mergeType, mergeMembers_congr h]

theorem Merges.inTurn_congr (setting : Setting α) (documents : List (Document α)) :
    Merges.inTurn { setting with interfaces := r } documents =
      Merges.inTurn { setting with interfaces := s } documents := by
  have hstep : Merges.mergeNext { setting with interfaces := r } =
      Merges.mergeNext { setting with interfaces := s } := by
    funext m d
    simp only [mergeNext, mergeType_congr h]
  rw [Merges.inTurn, Merges.inTurn, hstep]

end

-- ---------------------------------------------------------------------------
-- Taking down remarks in another order
-- ---------------------------------------------------------------------------

namespace InterfaceRemarks

theorem takenDown_perm (r : InterfaceRemarks) (hperm : members.Perm others) :
    (r.takenDown members).Perm (r.takenDown others) :=
  ((List.reverse_perm _).trans ((hperm.filter _).map _)).trans (List.reverse_perm _).symm

theorem takenDown_keys (r : InterfaceRemarks) (members : List Entry) :
    (r.takenDown members).map (·.1) = ((members.filter (·.key.isValid)).map (·.key)).reverse := by
  simp [takenDown, Function.comp_def]

theorem alike_of_perm (policy : Policy) (index : Option SourceIndex)
    {known others : List (Key × Option String)} (hperm : known.Perm others)
    (hkeys : (known.map (·.1)).Nodup) :
    Alike { policy, index, known } { policy, index, known := others } where
  policy := rfl
  lookup docId := by
    have hfound : known.find? (fun k => k.1.agrees (Key.ofDocId docId)) =
        others.find? (fun k => k.1.agrees (Key.ofDocId docId)) := by
      refine find?_perm hperm fun x hx y hy hxkey hykey => ?_
      have hkey : x.1 = y.1 := (Key.agrees_iff.mp hxkey).2.trans (Key.agrees_iff.mp hykey).2.symm
      exact List.inj_on_of_nodup_map hkeys hx hy hkey
    simp only [lookup, findSource?, hfound]

end InterfaceRemarks

-- ---------------------------------------------------------------------------
-- Merging in another order
-- ---------------------------------------------------------------------------

section
variable {α : Type}

structure Merges.IsWhole (ds : List (Document α)) (m : Merges α) : Prop where
  documents : m.documents.map (·.type.docId) = ds.map (·.type.docId)
  outcomes : m.outcomes.map (·.docId) = ds.map (·.type.docId)
  fault : m.fault = none

structure Merges.SameResults (a b : Merges α) : Prop where
  documents : a.documents.Perm b.documents
  document : ∀ docId, documentFor? a.documents docId = documentFor? b.documents docId
  outcomes : a.outcomes.Perm b.outcomes
  outcome : ∀ docId, a.outcomes.find? (·.docId == docId) = b.outcomes.find? (·.docId == docId)
  dirty : a.dirty.sorted = b.dirty.sorted

variable (setting : Setting α)

theorem mergedDocument_docId (d : Document α) :
    (mergedDocument setting d).type.docId = d.type.docId :=
  congrArg ApiNode.docId
    (mergeType_kept setting.policy setting.interfaces setting.index d.type).entry.node

theorem Merges.inTurn_completes (hok : ∀ d, (mergeOf setting d).fault = none)
    (documents : List (Document α)) :
    Completes setting (fun _ => true) documents {} (Merges.inTurn setting documents) := by
  rw [Merges.inTurn_eq]
  exact Merges.foldl_completes setting _ documents {} rfl fun d _ _ => hok d

theorem Merges.Completes.isWhole (h : Completes setting (fun _ => true) ds {} merges) :
    merges.IsWhole ds where
  documents := by simp [h.documents, Function.comp_def, mergedDocument_docId]
  outcomes := by simp [h.outcomes, Function.comp_def, mergeOf]
  fault := h.fault

/-- Documents with distinct DocIds can be merged in any order. -/
theorem Merges.Completes.sameResults (h : Completes setting (fun _ => true) ds {} a)
    (h' : Completes setting (fun _ => true) ds' {} b) (hperm : ds.Perm ds')
    (hdistinct : (ds.map (·.type.docId)).Nodup) : a.SameResults b := by
  have hdocuments : a.documents.Perm b.documents := by
    simpa [h.documents, h'.documents] using hperm.map (mergedDocument setting)
  have houtcomes : a.outcomes.Perm b.outcomes := by
    simpa [h.outcomes, h'.outcomes] using hperm.map fun d => (mergeOf setting d).outcome
  refine ⟨hdocuments, fun docId => ?_, houtcomes, fun docId => ?_, ?_⟩
  · have hnodup : (a.documents.map (·.type.docId)).Nodup := by rwa [(h.isWhole setting).documents]
    have hreversed : a.documents.reverse.Perm b.documents.reverse :=
      (List.reverse_perm _).trans (hdocuments.trans (List.reverse_perm _).symm)
    refine find?_perm hreversed fun x hx y hy hxid hyid => ?_
    rw [List.mem_reverse] at hx hy
    simp only [beq_iff_eq] at hxid hyid
    exact List.inj_on_of_nodup_map hnodup hx hy (hxid.trans hyid.symm)
  · have hnodup : (a.outcomes.map (·.docId)).Nodup := by rwa [(h.isWhole setting).outcomes]
    refine find?_perm houtcomes fun x hx y hy hxid hyid => ?_
    simp only [beq_iff_eq] at hxid hyid
    exact List.inj_on_of_nodup_map hnodup hx hy (hxid.trans hyid.symm)
  · have hdistinct' := (hperm.map (·.type.docId)).nodup_iff.mp hdistinct
    have hids := markDirty_ids setting ds {} hdistinct (by simp)
    have hids' := markDirty_ids setting ds' {} hdistinct' (by simp)
    have hdirty : a.dirty = markDirty setting {} ds := by simpa using h.dirty
    have hdirty' : b.dirty = markDirty setting {} ds' := by simpa using h'.dirty
    rw [DirtyTypes.sorted, DirtyTypes.sorted, hdirty, hdirty', hids, hids']
    exact mergeSort_perm_eq (((hperm.filter _).map _).append_left _)

/-- Types with distinct DocIds and distinct member keys are merged with the same results in any
order, each order with the remarks of interface members as they were taken down in it. -/
theorem inTurn_perm (hplain : ∀ e ∈ setting.index.entries, IsPlain e)
    {documents others : List (Document α)} (hperm : documents.Perm others)
    (hdistinct : (documents.map (·.type.docId)).Nodup)
    (hkeys : (((documents.flatMap (·.type.members)).filter (·.key.isValid)).map (·.key)).Nodup) :
    ∃ r s,
      InterfaceRemarks.ofTypes setting.policy (some setting.index)
        (documents.map (·.type)) = .ok r ∧
      InterfaceRemarks.ofTypes setting.policy (some setting.index) (others.map (·.type)) = .ok s ∧
      let merges := Merges.inTurn { setting with interfaces := r } documents
      let merges' := Merges.inTurn { setting with interfaces := s } others
      merges.IsWhole documents ∧ merges'.IsWhole others ∧ merges.SameResults merges' := by
  refine ⟨_, _, InterfaceRemarks.ofTypes_ok setting.policy hplain _,
    InterfaceRemarks.ofTypes_ok setting.policy hplain _, ?_⟩
  simp only [List.flatMap_map]
  generalize hr : InterfaceRemarks.mk _ _ (InterfaceRemarks.takenDown _ (documents.flatMap _)) = r
  generalize hs : InterfaceRemarks.mk _ _ (InterfaceRemarks.takenDown _ (others.flatMap _)) = s
  have halike : r.Alike s := by
    subst hr hs
    have hknown := hperm.flatMap_right (·.type.members)
    refine InterfaceRemarks.alike_of_perm _ _ (InterfaceRemarks.takenDown_perm _ hknown) ?_
    rw [InterfaceRemarks.takenDown_keys, List.nodup_reverse]
    exact hkeys
  have hok : ∀ d : Document α, (mergeOf { setting with interfaces := r } d).fault = none := by
    subst hr
    exact fun d => mergeType_ok hplain (.inr (InterfaceRemarks.answers_of_plain rfl hplain)) d.type
  have hfirst := Merges.inTurn_completes _ hok documents
  have hsecond := Merges.inTurn_completes _ hok others
  rw [← Merges.inTurn_congr halike setting others]
  exact ⟨hfirst.isWhole, hsecond.isWhole, hfirst.sameResults _ hsecond hperm hdistinct⟩

end

theorem inTurn_perm_small :
    let documents := [Small.stack, Small.queue]
    let others := [Small.queue, Small.stack]
    (∀ e ∈ Small.index.entries, IsPlain e) ∧ documents.Perm others ∧
    (documents.map (·.type.docId)).Nodup ∧
    (((documents.flatMap (·.type.members)).filter (·.key.isValid)).map (·.key)).Nodup ∧
    ∃ r s,
      InterfaceRemarks.ofTypes (Small.setting false).policy (some Small.index)
        (documents.map (·.type)) = .ok r ∧
      InterfaceRemarks.ofTypes (Small.setting false).policy (some Small.index)
        (others.map (·.type)) = .ok s ∧
      let merges := Merges.inTurn { Small.setting false with interfaces := r } documents
      let merges' := Merges.inTurn { Small.setting false with interfaces := s } others
      merges.IsWhole documents ∧ merges'.IsWhole others ∧ merges.SameResults merges' := by
  intro documents others
  have hperm : documents.Perm others := List.Perm.swap _ _ []
  have hdistinct : (documents.map (·.type.docId)).Nodup := by decide
  have hkeys : (((documents.flatMap (·.type.members)).filter (·.key.isValid)).map
      (·.key)).Nodup := by
    decide
  exact ⟨Small.index_plain, hperm, hdistinct, hkeys,
    inTurn_perm (Small.setting false) Small.index_plain hperm hdistinct hkeys⟩

end DocMerge.Merge

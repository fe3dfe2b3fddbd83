import DocMerge.Proofs.Saving

/-!
# Changes that are not saved

A type of which no text was written is as it was, so each document that a run has changed has a
dirty type. `changed_written_iff`: where all can be written, it is written exactly if no document
that was loaded later declares the same DocId.
-/

namespace DocMerge.Merge

open Files (Path Store)
open Files.Batch (IsAlone)

-- ---------------------------------------------------------------------------
-- What is not dirty has not changed
-- ---------------------------------------------------------------------------

theorem taken?_of_no_labels (h : takenLabels policy offer docs = []) :
    (∀ f, taken? policy f.toField (docs.scalar f) (offer.scalar f) = none) ∧
      ∀ f name, taken? policy f.toField ((docs.named f).lookup name)
        ((offer.named f).lookup name) = none := by
  have hslots : fieldSlots policy offer docs = [] := by
    refine List.length_eq_zero_iff.mp ?_
    rw [(fieldSlots_labelled policy offer docs docs).length_eq, h, List.length_nil]
  constructor
  · intro f
    refine Option.not_isSome_iff_eq_none.mp fun htaken => ?_
    simpa [hslots] using scalar_mem_fieldSlots.mpr htaken
  · intro f name
    refine Option.not_isSome_iff_eq_none.mp fun htaken => ?_
    simpa [hslots] using named_mem_fieldSlots.mpr htaken

/-- Exceptions of which nothing is reported are as they were, even if they may be rewritten. -/
theorem mergeExceptionList_of_no_labels (policy : Policy) (existing source : List ExceptionDoc)
    (h : (mergeExceptionList policy existing source).2 = []) :
    (mergeExceptionList policy existing source).1 = existing := by
  refine mergeExceptionList_induction policy existing source
    (fun before after labels => labels = [] → after = before) (fun _ _ => rfl) ?_ ?_ h
  · intro x _ before after labels hmerge hnone
    cases hmerge with
    | empty | duplicate | refused => rfl
    | rewritten | filled | appended => simp at hnone
  · intro a b c first second hleft hright hnone
    obtain ⟨hfirst, hsecond⟩ := List.append_eq_nil_iff.mp hnone
    rw [hright hsecond, hleft hfirst]

theorem Absorbs.leavesAlone (h : Absorbs policy e source offer merge) (hnone : merge.updated = []) :
    LeavesAlone e merge := by
  rw [h.updated, List.map_eq_nil_iff, List.append_eq_nil_iff] at hnone
  obtain ⟨hfields, hexceptions⟩ := hnone
  obtain ⟨hscalar, hnamed⟩ := taken?_of_no_labels hfields
  refine h.of_isDone ⟨hscalar, hnamed, ?_, hexceptions⟩
  unfold exceptionsAfter exceptionLabels at *
  split at hexceptions
  · rename_i hpresent
    rw [if_pos hpresent]
    exact mergeExceptionList_of_no_labels policy _ _ hexceptions
  · rename_i habsent
    rw [if_neg habsent]

theorem mergeTypeEntry_leavesAlone (hok : (mergeTypeEntry policy type source).fault = none)
    (hnone : (mergeTypeEntry policy type source).updated = []) :
    LeavesAlone type (mergeTypeEntry policy type source) := by
  cases hoffer : typeOffer policy source.docs with
  | error fault =>
    have hfailed : AbsorbsSummary policy type source fault (mergeTypeEntry policy type source) :=
      mergeTypeEntry_of_error hoffer
    simpa [hok] using hfailed.fault
  | ok offer => exact (mergeTypeEntry_of_ok hoffer).leavesAlone hnone

theorem mergePaired_leavesAlone
    (hok : (mergePaired policy interfaces ownerId (m, found)).fault = none)
    (hnone : (mergePaired policy interfaces ownerId (m, found)).updated = []) :
    LeavesAlone m (mergePaired policy interfaces ownerId (m, found)) := by
  cases found with
  | matched source =>
    rw [mergePaired_matched] at hok hnone ⊢
    cases hoffer : memberOffer policy interfaces ownerId m.node source.docs with
    | error fault =>
      have hfault := (mergeMember_of_error hoffer).fault
      simp [hok] at hfault
    | ok offer => exact (mergeMember_of_ok hoffer).leavesAlone hnone
  | skipped | malformed | unmatched => exact ⟨rfl, rfl, rfl⟩

/-- A type that is not dirty after its merge is as it was. -/
theorem mergeType_of_clean (hok : (mergeType policy interfaces index type).fault = none)
    (hclean : (mergeType policy interfaces index type).isDirty = false) :
    (mergeType policy interfaces index type).type = type := by
  cases hsource : index.findType? type.key with
  | none => rw [mergeType_of_unmatched policy interfaces index type hsource]
  | some source =>
    obtain ⟨hown, hmembers⟩ := mergeType_fault_eq_none policy interfaces index type hsource hok
    rw [mergeType_of_ok policy interfaces index type hsource hown hmembers] at hclean
    have hnone : (mergeTypeEntry policy type.entry source).updated = [] ∧
        ∀ m ∈ pairedMembers policy index type,
          (mergePaired policy interfaces type.docId m).updated = [] := by
      simpa only [TypeMerge.isDirty, TypeMerge.assemble, Bool.not_eq_false', List.isEmpty_iff,
        List.append_eq_nil_iff, List.flatMap_eq_nil_iff, List.forall_mem_map] using hclean
    refine (mergeType_changesNothing hsource (mergeTypeEntry_leavesAlone hown hnone.1) ?_).type
    exact fun m hm => mergePaired_leavesAlone (hmembers m hm) (hnone.2 m hm)

theorem isDirtied_of_differs {setting : Setting α} (hmerging : Merging setting d)
    (h : TypeDiffers d.type (documentAfter setting d).type) : IsDirtied setting d := by
  unfold documentAfter at h
  split at h
  · rename_i hincluded
    refine ⟨hincluded, Bool.not_eq_false _ ▸ fun hclean => ?_⟩
    have hsame : (mergedDocument setting d).type = d.type :=
      mergeType_of_clean (hmerging hincluded) hclean
    exact not_typeDiffers_self d.type (hsame ▸ h)
  · exact absurd h (not_typeDiffers_self d.type)

-- ---------------------------------------------------------------------------
-- Which of them are written
-- ---------------------------------------------------------------------------

section
variable {α : Type} {setting : Setting α} {root : Path} {store : Store}
  {documents : List (Document α)}

section
variable (h : (run setting root store documents).result = .ok result)
include h

theorem of_mem_tried {after : Document α}
    (hafter : after ∈ tried (run setting root store documents) result) :
    ∃ d ∈ documents, documentFor? documents d.type.docId = some d ∧
      after = documentAfter setting d := by
  obtain ⟨docId, -, hfound⟩ := List.mem_filterMap.mp hafter
  rw [documentFor?_after h, Option.map_eq_some_iff] at hfound
  obtain ⟨d, hd, rfl⟩ := hfound
  obtain ⟨hmem, rfl⟩ := mem_of_documentFor? hd
  exact ⟨d, hmem, hd, rfl⟩

section
variable {d : Document α} (hd : d ∈ documents) (hdirty : IsDirtied setting d)
include hd hdirty

theorem documentAfter_mem_tried (hlast : documentFor? documents d.type.docId = some d) :
    documentAfter setting d ∈ tried (run setting root store documents) result := by
  refine List.mem_filterMap.mpr ⟨d.type.docId, (mem_dirty h).mpr ⟨d, hd, hdirty, rfl⟩, ?_⟩
  rw [documentFor?_after h, hlast, Option.map_some]

theorem path_mem_tried_iff (hpaths : (documents.map (·.path)).Nodup) :
    d.path ∈ (tried (run setting root store documents) result).map (·.path) ↔
      documentFor? documents d.type.docId = some d := by
  rw [List.mem_map]
  constructor
  · rintro ⟨after, hafter, hpath⟩
    obtain ⟨e, he, hlast, rfl⟩ := of_mem_tried h hafter
    rw [documentAfter_path] at hpath
    obtain rfl := List.inj_on_of_nodup_map hpaths he hd hpath
    exact hlast
  · exact fun hlast => ⟨_, documentAfter_mem_tried h hd hdirty hlast, documentAfter_path d⟩

end

/-- Nothing fails if the store takes every document and none is in the way of another. -/
theorem failed_eq_nil (hpaths : (documents.map (·.path)).Nodup) (hsave : setting.policy.save = true)
    (htakes : ∀ p ∈ documents.map (·.path), store.takes (root.join p) = true)
    (hapart : ∀ p ∈ documents.map (·.path), ∀ q ∈ documents.map (·.path),
      ¬ (root.join p).InWay (root.join q)) : result.committed.failed = [] := by
  obtain ⟨writes, hsaves⟩ := run_saved_saves h hpaths hsave
  have hknown : ∀ w ∈ writes, w.path ∈ documents.map (·.path) := by
    intro w hw
    have hmem := List.mem_map_of_mem (f := (·.path)) hw
    rw [paths_of_writes setting hsaves.rendered, List.mem_map] at hmem
    obtain ⟨after, hafter, hpath⟩ := hmem
    obtain ⟨d, hd, -, rfl⟩ := of_mem_tried h hafter
    exact List.mem_map.mpr ⟨d, hd, (documentAfter_path d).symm.trans hpath⟩
  have hwritten : ∀ w ∈ writes, w.path ∈ result.committed.written := fun w hw =>
    (hsaves.commits.mem_written_iff (fun v hv u hu =>
      hapart _ (hknown v hv) _ (hknown u hu)) hw).mpr
      (htakes _ (hknown w hw))
  have hfailed := hsaves.commits.failed
  rw [List.filter_eq_nil_iff.mpr
    (List.forall_mem_map.mpr fun w hw => by simp [hwritten w hw])] at hfailed
  exact List.map_eq_nil_iff.mp hfailed

end

/-- Where nothing fails, all documents that were tried are written. -/
theorem Saves.mem_written_iff (h : Saves setting root store documents after result writes)
    (hall : result.committed.failed = []) :
    p ∈ result.committed.written ↔ p ∈ (tried after result).map (·.path) := by
  rw [← paths_of_writes setting h.rendered]
  refine ⟨fun hp => h.commits.written.subset hp, fun hp => ?_⟩
  have hnone := h.commits.failed
  rw [hall, List.map_nil, eq_comm, List.filter_eq_nil_iff] at hnone
  simpa using hnone p hp

end

/-- Where every write succeeds, a document with documentation that a run has changed is written if,
and only if, no document that was loaded later declares its DocId; and what is written can be
read. -/
theorem changed_written_iff (setting : Setting α) (root : Path) (store : Store)
    (documents : List (Document α)) (hpaths : (documents.map (·.path)).Nodup)
    (hsave : setting.policy.save = true) :
    ((∀ e ∈ setting.index.entries, IsPlain e) →
      (setting.policy.skipInterfaceRemarks = true ∨ setting.interfaces.Answers) →
      (∀ d, ∃ content, setting.render d = .ok content) →
      ∃ result, (run setting root store documents).result = .ok result) ∧
    ∀ result, (run setting root store documents).result = .ok result →
      result.committed.failed = [] →
      List.Forall₂ (fun d d' => TypeDiffers d.type d'.type →
          (d'.path ∈ result.committed.written ↔ documentFor? documents d.type.docId = some d) ∧
          (d'.path ∈ result.committed.written → IsAlone root result.committed.written d'.path →
            ∃ text, setting.render d' = .ok text ∧
              (run setting root store documents).store.read (root.join d'.path) = .ok text.toUTF8))
        (inOrder documents) (run setting root store documents).documents := by
  refine ⟨fun hplain hinterfaces hrender => ?_, fun result h hall => ?_⟩
  · exact run_returns setting hplain hinterfaces hrender root store documents
  · obtain ⟨writes, hsaves⟩ := run_saved_saves h hpaths hsave
    rw [documents_after h, List.forall₂_map_right_iff]
    refine List.forall₂_same.mpr fun d hd hdiffers => ?_
    have hmem : d ∈ documents := (List.mergeSort_perm documents _).mem_iff.mp hd
    have hdirty := isDirtied_of_differs (merging_of_result h d hd) hdiffers
    have hwritten : (documentAfter setting d).path ∈ result.committed.written ↔
        documentFor? documents d.type.docId = some d := by
      rw [documentAfter_path, hsaves.mem_written_iff hall, path_mem_tried_iff h hmem hdirty hpaths]
    exact ⟨hwritten, fun hwrite halone =>
      hsaves.holds (documentAfter_mem_tried h hmem hdirty (hwritten.mp hwrite)) hwrite halone⟩

namespace Small

def twin : Document String := { stack with path := ⟨false, ["Twin.xml"]⟩ }

def twins : List (Document String) := [stack, twin]

theorem twins_ordered : inOrder twins = twins := List.mergeSort_of_pairwise (by decide)

theorem twins_differ :
    ∀ d ∈ twins, TypeDiffers d.type (documentAfter saving d).type := by
  have hdiffers : Differs stack.type.entry.docs (documentAfter saving stack).type.entry.docs := by
    unfold Differs
    decide +kernel
  exact List.forall_mem_cons.mpr ⟨.inl hdiffers, List.forall_mem_singleton.mpr (.inl hdiffers)⟩

theorem twins_run : ∃ result, (run saving ⟨true, []⟩ {} twins).result = .ok result ∧
    result.committed.failed = [] := by
  obtain ⟨result, hresult⟩ := run_returns saving index_plain (.inl rfl) (fun d => ⟨d.body, rfl⟩)
    ⟨true, []⟩ {} twins
  exact ⟨result, hresult, failed_eq_nil hresult (by decide) rfl (by decide) (by decide)⟩

theorem twins_last : documentFor? twins stack.type.docId = some twin := rfl

theorem stack_not_last : documentFor? twins stack.type.docId ≠ some stack := fun heq =>
  absurd (congrArg Document.path (Option.some.inj heq)) (by decide)

end Small

theorem changed_written_iff_small :
    (Small.twins.map (·.path)).Nodup ∧ Small.saving.policy.save = true ∧
    ∃ result, (run Small.saving ⟨true, []⟩ {} Small.twins).result = .ok result ∧
      result.committed.failed = [] ∧ Small.twin.path ∈ result.committed.written ∧
      Small.stack.path ∉ result.committed.written := by
  have hpaths : (Small.twins.map (·.path)).Nodup := by decide
  obtain ⟨result, hresult, hall⟩ := Small.twins_run
  have hwritten := (changed_written_iff Small.saving ⟨true, []⟩ {} Small.twins hpaths rfl).2 result
    hresult hall
  rw [documents_after hresult, List.forall₂_map_right_iff, Small.twins_ordered,
    List.forall₂_same] at hwritten
  have heach : ∀ d ∈ Small.twins, d.path ∈ result.committed.written ↔
      documentFor? Small.twins d.type.docId = some d := fun d hd => by
    have h := (hwritten d hd (Small.twins_differ d hd)).1
    rwa [documentAfter_path] at h
  refine ⟨hpaths, rfl, result, hresult, hall, ?_, ?_⟩
  · exact (heach Small.twin (List.mem_cons_of_mem _ List.mem_cons_self)).mpr Small.twins_last
  · rw [heach Small.stack List.mem_cons_self]
    exact Small.stack_not_last

/-- Of two changed documents that declare one type, the first is not written although it could
be. -/
theorem twin_not_written :
    (Small.twins.map (·.path)).Nodup ∧ Small.saving.policy.save = true ∧
    let after := run Small.saving ⟨true, []⟩ {} Small.twins
    ∃ result, after.result = .ok result ∧ result.committed.failed = [] ∧
      ∃ p ∈ (inOrder Small.twins).zip after.documents, TypeDiffers p.1.type p.2.type ∧
        p.2.path ∉ result.committed.written := by
  have hpaths : (Small.twins.map (·.path)).Nodup := by decide
  obtain ⟨result, hresult, hall⟩ := Small.twins_run
  obtain ⟨writes, hsaves⟩ := run_saved_saves hresult hpaths rfl
  have hmem : Small.stack ∈ Small.twins := List.mem_cons_self
  have hdiffers := Small.twins_differ _ hmem
  have hdirty : IsDirtied Small.saving Small.stack :=
    isDirtied_of_differs (merging_of_result hresult _ (by rwa [Small.twins_ordered])) hdiffers
  refine ⟨hpaths, rfl, result, hresult, hall,
    (Small.stack, documentAfter Small.saving Small.stack), ?_,
    hdiffers, ?_⟩
  · rw [documents_after hresult, zip_map_self, Small.twins_ordered]
    exact List.mem_cons_self
  · rw [documentAfter_path, hsaves.mem_written_iff hall,
      path_mem_tried_iff hresult hmem hdirty hpaths]
    exact Small.stack_not_last

end DocMerge.Merge

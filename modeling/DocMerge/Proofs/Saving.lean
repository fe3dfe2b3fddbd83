import DocMerge.Proofs.Settling
import DocMerge.Proofs.Stores

/-!
# What a run writes

A run writes one document for each dirty type: of those that declare its DocId, the one that was
loaded last. `run_saves`: these documents and no others are tried, each once, and one that cannot be
written does no harm to the others.
-/

namespace DocMerge.Merge

open Files (Path Store Write Batch)
open Files.Batch (Commits IsAlone)

-- ---------------------------------------------------------------------------
-- Dirty types
-- ---------------------------------------------------------------------------

section
variable {α : Type} {setting : Setting α} {dirty : DirtyTypes}

theorem mem_mark_ids : name ∈ (dirty.mark docId).ids ↔ name = docId ∨ name ∈ dirty.ids := by
  unfold DirtyTypes.mark
  split
  · rename_i hthere
    have hthere : docId ∈ dirty.ids := by simpa using hthere
    exact ⟨.inr, fun h => h.elim (fun heq => heq ▸ hthere) fun h => h⟩
  · rw [List.mem_append, List.mem_singleton, or_comm]

theorem mark_ids_nodup (h : dirty.ids.Nodup) : (dirty.mark docId).ids.Nodup := by
  unfold DirtyTypes.mark
  split
  · exact h
  · rename_i hnew
    rw [← List.concat_eq_append]
    exact h.concat (by simpa using hnew)

def IsDirtied (setting : Setting α) (d : Document α) : Prop :=
  isIncluded setting d = true ∧ (mergeOf setting d).isDirty = true

theorem mem_markDirty {documents : List (Document α)} :
    name ∈ (markDirty setting dirty documents).ids ↔
      name ∈ dirty.ids ∨ ∃ d ∈ documents, (mergeOf setting d).isDirty = true ∧
      d.type.docId = name := by
  induction documents generalizing dirty with
  | nil => simp [markDirty]
  | cons d rest ih =>
    rw [markDirty, List.foldl_cons, ← markDirty, ih, List.exists_mem_cons_iff]
    cases hdirty : (mergeOf setting d).isDirty with
    | false => simp
    | true =>
      rw [if_pos rfl, mem_mark_ids, or_assoc, or_left_comm, and_iff_right rfl, eq_comm]

theorem markDirty_nodup (documents : List (Document α)) (h : dirty.ids.Nodup) :
    (markDirty setting dirty documents).ids.Nodup := by
  induction documents generalizing dirty with
  | nil => exact h
  | cons d rest ih =>
    rw [markDirty, List.foldl_cons]
    refine ih ?_
    split
    · exact mark_ids_nodup h
    · exact h

end

-- ---------------------------------------------------------------------------
-- The document for a DocId
-- ---------------------------------------------------------------------------

section
variable {α : Type} {documents : List (Document α)}

theorem documentFor?_eq (documents : List (Document α)) (docId : String) :
    documentFor? documents docId = (documents.filter (·.type.docId == docId)).getLast? := by
  rw [documentFor?, ← List.head?_filter, List.filter_reverse, List.head?_reverse]

theorem mem_of_documentFor? (h : documentFor? documents docId = some d) :
    d ∈ documents ∧ d.type.docId = docId := by
  rw [documentFor?_eq] at h
  simpa using List.mem_filter.mp (List.mem_of_getLast? h)

theorem exists_documentFor? (hd : d ∈ documents) :
    ∃ e, documentFor? documents d.type.docId = some e := by
  rw [documentFor?_eq]
  refine Option.isSome_iff_exists.mp (List.getLast?_isSome.mpr fun hnil => ?_)
  have hmem : d ∈ documents.filter (·.type.docId == d.type.docId) :=
    List.mem_filter.mpr ⟨hd, by simp⟩
  simp [hnil] at hmem

theorem documentFor?_inOrder (documents : List (Document α)) (docId : String) :
    documentFor? (inOrder documents) docId = documentFor? documents docId := by
  rw [documentFor?_eq, documentFor?_eq]
  have hequal : (documents.filter (·.type.docId == docId)).Pairwise
      (fun a b => decide (a.type.docId ≤ b.type.docId) = true) := by
    refine List.pairwise_of_forall_mem_list fun a ha b hb => ?_
    have ha := (List.mem_filter.mp ha).2
    have hb := (List.mem_filter.mp hb).2
    simp [beq_iff_eq.mp ha, beq_iff_eq.mp hb]
  have hsub :=
    (List.sublist_mergeSort docId_le_trans docId_le_total hequal List.filter_sublist).filter
    (·.type.docId == docId)
  simp only [List.filter_filter, Bool.and_self] at hsub
  refine congrArg List.getLast? (hsub.eq_of_length ?_).symm
  simpa using ((List.mergeSort_perm documents _).filter (·.type.docId == docId)).length_eq.symm

theorem documentFor?_map (f : Document α → Document α) (hf : ∀ d, (f d).type.docId = d.type.docId) :
    documentFor? (documents.map f) docId = (documentFor? documents docId).map f := by
  rw [documentFor?, documentFor?, ← List.map_reverse, List.find?_map]
  simp only [Function.comp_def, hf]

end

-- ---------------------------------------------------------------------------
-- The writes of a run
-- ---------------------------------------------------------------------------

section
variable {α : Type} (setting : Setting α)

def IsWriteOf (d : Document α) (w : Write) : Prop :=
  w.path = d.path ∧ setting.render d = .ok w.content

theorem paths_of_writes (h : List.Forall₂ (IsWriteOf setting) docs writes) :
    writes.map (·.path) = docs.map (·.path) := by
  induction h with
  | nil => rfl
  | cons hw _ ih => rw [List.map_cons, List.map_cons, hw.1, ih]

theorem exists_write (h : List.Forall₂ (IsWriteOf setting) docs writes) (hd : d ∈ docs) :
    ∃ w ∈ writes, IsWriteOf setting d w := by
  induction h with
  | nil => simp at hd
  | cons hw _ ih =>
    rcases List.mem_cons.mp hd with rfl | hd
    · exact ⟨_, List.mem_cons_self, hw⟩
    · obtain ⟨w, hw, hof⟩ := ih hd
      exact ⟨w, List.mem_cons_of_mem _ hw, hof⟩

theorem renderAll_writes {documents : List (Document α)}
    (h : renderAll setting documents docIds = .ok writes) :
    List.Forall₂ (IsWriteOf setting) (docIds.filterMap (documentFor? documents)) writes := by
  induction docIds generalizing writes with
  | nil =>
    obtain rfl : [] = writes := by simpa [renderAll] using h
    exact .nil
  | cons docId rest ih =>
    rw [renderAll] at h
    cases hdocument : documentFor? documents docId with
    | none =>
      rw [hdocument] at h
      rw [List.filterMap_cons_none hdocument]
      exact ih h
    | some d =>
      rw [hdocument] at h
      rw [List.filterMap_cons_some hdocument]
      cases hcontent : setting.render d with
      | error fault => simp [hcontent, bind, Except.bind] at h
      | ok content =>
        cases hmore : renderAll setting documents rest with
        | error fault => simp [hcontent, hmore, bind, Except.bind] at h
        | ok more =>
          obtain rfl : ⟨d.path, content⟩ :: more = writes := by
            simpa [hcontent, hmore, bind, Except.bind, pure, Except.pure] using h
          exact .cons ⟨rfl, hcontent⟩ (ih hmore)

variable {setting} {root : Path} {store : Store} {documents : List (Document α)}

theorem run_store_of_error (h : (run setting root store documents).result = .error fault) :
    (run setting root store documents).store = store := by
  unfold run at h ⊢
  dsimp only at h ⊢
  split
  · rfl
  · rename_i hcommit
    simp [hcommit] at h

theorem run_committed (h : (run setting root store documents).result = .ok result) :
    ∃ writes, (prepare setting documents).writes = .ok writes ∧
      Batch.commit { root, pending := writes.getD [] } store =
        ({ root }, (run setting root store documents).store, result.committed) := by
  unfold run at h ⊢
  dsimp only at h ⊢
  cases hwrites : (prepare setting documents).writes with
  | error fault => simp [Prepared.commit, hwrites, Except.map] at h
  | ok writes =>
    simp only [Prepared.commit, hwrites, Except.map, Except.ok.injEq] at h ⊢
    subst h
    exact ⟨writes, rfl, rfl⟩

theorem prepare_writes (h : (Merges.ofDocuments setting documents).fault = none) :
    (prepare setting documents).writes =
      if setting.policy.save then
        (renderAll setting (Merges.ofDocuments setting documents).documents
          (Merges.ofDocuments setting documents).dirty.sorted).map some
      else .ok none := by
  unfold prepare
  dsimp only
  rw [h]
  dsimp only
  split <;> rfl

theorem run_unsaved (hsave : setting.policy.save = false)
    (h : (run setting root store documents).result = .ok result) :
    (run setting root store documents).store = store ∧ result.committed.written = [] ∧
      result.committed.failed = [] := by
  obtain ⟨hfault, -⟩ := run_result_ok setting h
  obtain ⟨writes, hwrites, hcommit⟩ := run_committed h
  rw [prepare_writes hfault, hsave] at hwrites
  obtain rfl : none = writes := by simpa using hwrites
  simp only [Option.getD_none, Batch.commit, Files.Batch.commitAll, Prod.mk.injEq] at hcommit
  obtain ⟨-, hstore, hcommitted⟩ := hcommit
  simp [← hstore, ← hcommitted]

theorem run_saved (hsave : setting.policy.save = true)
    (h : (run setting root store documents).result = .ok result) :
    ∃ writes, renderAll setting (run setting root store documents).documents
      result.dirty = .ok writes ∧
      Batch.commit { root, pending := writes } store =
        ({ root }, (run setting root store documents).store, result.committed) := by
  obtain ⟨hfault, -, hdirty⟩ := run_result_ok setting h
  obtain ⟨writes, hwrites, hcommit⟩ := run_committed h
  rw [prepare_writes hfault, if_pos hsave, ← hdirty,
    ← run_documents_eq setting root store] at hwrites
  cases hrendered : renderAll setting (run setting root store documents).documents result.dirty with
  | error fault => simp [hrendered, Except.map] at hwrites
  | ok rendered =>
    obtain rfl : some rendered = writes := by simpa [hrendered, Except.map] using hwrites
    exact ⟨rendered, rfl, hcommit⟩

end

-- ---------------------------------------------------------------------------
-- What is saved
-- ---------------------------------------------------------------------------

section
variable {α : Type} (setting : Setting α) (root : Path) (store : Store)
  (documents : List (Document α))

def tried (after : Run α) (result : Result) : List (Document α) :=
  result.dirty.filterMap (documentFor? after.documents)

/-- A run that has a result has made the writes of the documents that it tries, or failed to, and
nothing else. -/
structure Saves (after : Run α) (result : Result) (writes : List Write) : Prop where
  /-- The dirty types are those of the documents that were written to, each listed once. -/
  dirty : ∀ docId, docId ∈ result.dirty ↔ ∃ d ∈ documents, IsDirtied setting d ∧
    d.type.docId = docId
  ordered : result.dirty.Pairwise (· < ·)
  /-- There is one document for each of them. -/
  each : (tried after result).map some = result.dirty.map (documentFor? after.documents)
  distinct : ((tried after result).map (·.path)).Nodup
  rendered : List.Forall₂ (IsWriteOf setting) (tried after result) writes
  /-- Each is tried once, and none is left to be tried. -/
  commit : Batch.commit { root, pending := writes } store =
    ({ root }, after.store, result.committed)
  commits : Commits root store writes after.store result.committed
  success : result.committed.success = true ↔ result.committed.failed = []

variable {setting root store documents}

/-- A document that was written can be read as it is rendered, unless another went to the same
place. -/
theorem Saves.holds (h : Saves setting root store documents after result writes)
    (hd : d ∈ tried after result)
    (hwritten : d.path ∈ result.committed.written)
    (halone : IsAlone root result.committed.written d.path) :
    ∃ text, setting.render d = .ok text ∧
      after.store.read (root.join d.path) = .ok text.toUTF8 := by
  obtain ⟨w, hw, hpath, hrender⟩ := exists_write setting h.rendered hd
  rw [← hpath] at hwritten halone ⊢
  exact ⟨w.content, hrender, h.commits.holds w hw hwritten halone⟩

/-- A run that has a result has merged each document by itself. -/
theorem merging_of_result (h : (run setting root store documents).result = .ok result) :
    ∀ d ∈ inOrder documents, Merging setting d := by
  obtain ⟨hfault, -⟩ := run_result_ok setting h
  rw [Merges.ofDocuments_eq] at hfault
  exact ((Merges.foldl_fault setting _ _ _).mp hfault).2

theorem documentAfter_docId (d : Document α) :
    (documentAfter setting d).type.docId = d.type.docId :=
  congrArg ApiNode.docId documentAfter_node

theorem documentAfter_path (d : Document α) : (documentAfter setting d).path = d.path := by
  unfold documentAfter
  split <;> rfl

section
variable (h : (run setting root store documents).result = .ok result)
include h

theorem documents_after :
    (run setting root store documents).documents =
    (inOrder documents).map (documentAfter setting) :=
  documents_of_merging setting root store documents (merging_of_result h)

/-- The document that is written for a DocId is the last one loaded for it, merged. -/
theorem documentFor?_after (docId : String) :
    documentFor? (run setting root store documents).documents docId =
      (documentFor? documents docId).map (documentAfter setting) := by
  rw [documents_after h, documentFor?_map _ documentAfter_docId, documentFor?_inOrder]

theorem dirty_eq_sorted : result.dirty =
    (markDirty setting {} ((inOrder documents).filter (isIncluded setting))).sorted := by
  obtain ⟨-, -, hdirty⟩ := run_result_ok setting h
  rw [hdirty, (Merges.ofDocuments_completes setting documents (merging_of_result h)).dirty]

theorem mem_dirty : docId ∈ result.dirty ↔
    ∃ d ∈ documents, IsDirtied setting d ∧ d.type.docId = docId := by
  have hperm : (result.dirty).Perm
      (markDirty setting {} ((inOrder documents).filter (isIncluded setting))).ids :=
    dirty_eq_sorted h ▸ List.mergeSort_perm _ _
  rw [hperm.mem_iff, mem_markDirty]
  simp only [List.not_mem_nil, false_or, List.mem_filter, IsDirtied, and_assoc]
  exact exists_congr fun d => and_congr_left' (List.mergeSort_perm documents _).mem_iff

theorem dirty_pairwise : result.dirty.Pairwise (· < ·) := by
  have hnodup : result.dirty.Nodup := by
    rw [dirty_eq_sorted h]
    exact (List.mergeSort_perm _ _).nodup_iff.mpr (markDirty_nodup _ List.nodup_nil)
  have hle : result.dirty.Pairwise (fun a b => decide (a ≤ b) = true) := by
    rw [dirty_eq_sorted h]
    refine List.pairwise_mergeSort (fun a b c => ?_) (fun a b => ?_) _
    · simpa using String.le_trans
    · simpa using String.le_total a b
  exact (hle.and hnodup).imp fun ⟨hle, hne⟩ => Std.lt_of_le_of_ne (by simpa using hle) hne

theorem map_some_tried :
    (tried (run setting root store documents) result).map some =
      result.dirty.map (documentFor? (run setting root store documents).documents) := by
  have hsome : ∀ docId ∈ result.dirty,
      ∃ d, documentFor? (run setting root store documents).documents docId = some d := by
    intro docId hdirty
    obtain ⟨d, hd, -, rfl⟩ := (mem_dirty h).mp hdirty
    obtain ⟨e, he⟩ := exists_documentFor? hd
    exact ⟨documentAfter setting e, by rw [documentFor?_after h, he, Option.map_some]⟩
  unfold tried
  generalize documentFor? (run setting root store documents).documents = find at hsome
  generalize result.dirty = docIds at hsome
  induction docIds with
  | nil => rfl
  | cons docId rest ih =>
    obtain ⟨⟨d, hd⟩, hrest⟩ := List.forall_mem_cons.mp hsome
    rw [List.filterMap_cons_some hd, List.map_cons, List.map_cons, hd, ih hrest]

variable (hpaths : (documents.map (·.path)).Nodup)
include hpaths

theorem tried_paths_nodup :
    ((tried (run setting root store documents) result).map (·.path)).Nodup := by
  refine List.pairwise_map.mpr (List.pairwise_filterMap.mpr ?_)
  refine (dirty_pairwise h).imp fun hlt d hd e he heq => ?_
  rw [documentFor?_after h, Option.map_eq_some_iff] at hd he
  obtain ⟨d, hd, rfl⟩ := hd
  obtain ⟨e, he, rfl⟩ := he
  rw [documentAfter_path, documentAfter_path] at heq
  obtain ⟨hdmem, rfl⟩ := mem_of_documentFor? hd
  obtain ⟨hemem, rfl⟩ := mem_of_documentFor? he
  obtain rfl := List.inj_on_of_nodup_map hpaths hdmem hemem heq
  exact absurd hlt (String.lt_irrefl _)

theorem run_saved_saves (hsave : setting.policy.save = true) :
    ∃ writes, Saves setting root store documents
      (run setting root store documents) result writes := by
  obtain ⟨writes, hrendered, hcommit⟩ := run_saved hsave h
  have hwrites := renderAll_writes setting hrendered
  refine ⟨writes, fun docId => mem_dirty h, dirty_pairwise h, map_some_tried h,
    tried_paths_nodup h hpaths, hwrites, hcommit, ?_, ?_⟩
  · have hcommits := @Files.Batch.commitAll_commits root store writes
      (paths_of_writes setting hwrites ▸ tried_paths_nodup h hpaths)
    simp only [Batch.commit, Prod.mk.injEq] at hcommit
    rw [← hcommit.2.1, ← hcommit.2.2]
    exact hcommits
  · exact List.isEmpty_iff

end

/-- What a run saves. Without a result it has written nothing, and nothing either if the policy does
not say so. Otherwise the documents of the dirty types are written, however many of them cannot
be. -/
theorem run_saves (setting : Setting α) (root : Path) (store : Store)
    (documents : List (Document α))
    (hpaths : (documents.map (·.path)).Nodup) :
    ((∀ e ∈ setting.index.entries, IsPlain e) →
      (setting.policy.skipInterfaceRemarks = true ∨ setting.interfaces.Answers) →
      (∀ d, ∃ content, setting.render d = .ok content) →
      ∃ result, (run setting root store documents).result = .ok result) ∧
    (∀ fault, (run setting root store documents).result = .error fault →
      (run setting root store documents).store = store) ∧
    ∀ result, (run setting root store documents).result = .ok result →
      (setting.policy.save = false → (run setting root store documents).store = store ∧
        result.committed.written = [] ∧ result.committed.failed = []) ∧
      (setting.policy.save = true → ∃ writes,
        Saves setting root store documents (run setting root store documents) result writes) := by
  refine ⟨fun hplain hinterfaces hrender => ?_, fun fault => run_store_of_error, fun result h => ?_⟩
  · exact run_returns setting hplain hinterfaces hrender root store documents
  · exact ⟨fun hsave => run_unsaved hsave h,
      fun hsave => run_saved_saves h hpaths hsave⟩

end

namespace Small

def saving : Setting String :=
  { setting true with policy := { (setting true).policy with save := true } }

def guarded : Store := { readOnly := [["Stack.xml"]] }

end Small

theorem run_saves_small :
    let documents := [Small.stack, Small.queue]
    let after := run Small.saving ⟨true, []⟩ Small.guarded documents
    (documents.map (·.path)).Nodup ∧ ∃ result writes, after.result = .ok result ∧
      Saves Small.saving ⟨true, []⟩ Small.guarded documents after result writes ∧
      Small.stack.path ∉ result.committed.written := by
  intro documents after
  have hpaths : (documents.map (·.path)).Nodup := by decide
  obtain ⟨hreturns, -, hsaves⟩ := run_saves Small.saving ⟨true, []⟩ Small.guarded documents hpaths
  obtain ⟨result, hresult⟩ := hreturns Small.index_plain (.inl rfl) fun d => ⟨d.body, rfl⟩
  obtain ⟨writes, hwrites⟩ := (hsaves result hresult).2 rfl
  have hrefused : ¬ Small.guarded.takes (Path.join ⟨true, []⟩ Small.stack.path) := by decide
  exact ⟨hpaths, result, writes, hresult, hwrites, fun h => hrefused (hwrites.commits.taken _ h)⟩

end DocMerge.Merge

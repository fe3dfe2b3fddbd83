import DocMerge.Proofs.Entries

/-!
# What the merge of a type and of a corpus comes to

A fault ends a merge: what comes after it stays as it is. Without one, a type is merged entry by
entry and a corpus type by type, each of them as if it were alone.
-/

namespace DocMerge.Merge

-- ---------------------------------------------------------------------------
-- Members
-- ---------------------------------------------------------------------------

section
variable (policy : Policy) (interfaces : InterfaceRemarks) (ownerId : String)

theorem mergePaired_matched (member source : Entry) :
    mergePaired policy interfaces ownerId (member, .matched source) =
      mergeMember policy interfaces ownerId member source := rfl

theorem mergeMembers_each (members : List (Entry × MemberMatch)) :
    List.Forall₂ (fun m merge => merge = { entry := m.1 } ∨
        merge = mergePaired policy interfaces ownerId m)
      members (mergeMembers policy interfaces ownerId members).1 := by
  induction members with
  | nil => exact .nil
  | cons m rest ih =>
    rw [mergeMembers]
    dsimp only
    split
    · refine .cons (.inr rfl) (List.forall₂_map_right_iff.mpr (List.forall₂_same.mpr ?_))
      exact fun m _ => .inl rfl
    · exact .cons (.inr rfl) ih

theorem mergeMembers_fault_eq_none_iff (members : List (Entry × MemberMatch)) :
    (mergeMembers policy interfaces ownerId members).2 = none ↔
      ∀ m ∈ members, (mergePaired policy interfaces ownerId m).fault = none := by
  induction members with
  | nil => simp [mergeMembers]
  | cons m rest ih =>
    rw [mergeMembers]
    dsimp only
    split
    · rename_i hfault
      simp [hfault]
    · rename_i hnone
      simp [hnone, ih]

theorem mergeMembers_of_ok (members : List (Entry × MemberMatch))
    (h : ∀ m ∈ members, (mergePaired policy interfaces ownerId m).fault = none) :
    mergeMembers policy interfaces ownerId members =
      (members.map (mergePaired policy interfaces ownerId), none) := by
  induction members with
  | nil => rfl
  | cons m rest ih =>
    rw [mergeMembers, h m List.mem_cons_self]
    simp [ih fun n hn => h n (List.mem_cons_of_mem m hn)]

end

-- ---------------------------------------------------------------------------
-- A type
-- ---------------------------------------------------------------------------

section
variable (policy : Policy) (interfaces : InterfaceRemarks) (index : SourceIndex) (type : ApiType)

def pairedMembers : List (Entry × MemberMatch) :=
  type.members.map (fun m => (m, matchMember policy index type.key m))

theorem pairing_eq (source : Entry) (h : index.findType? type.key = some source) :
    Pairing.of? policy index type =
    some { source, members := pairedMembers policy index type } := by
  rw [Pairing.of?, h]
  rfl

theorem mergeType_of_unmatched (h : index.findType? type.key = none) :
    mergeType policy interfaces index type =
      { type, outcome := { docId := type.docId, status := .unmatched }
        notices := [.typeUnmatched type.docId] } := by
  rw [mergeType, Pairing.of?, h]
  rfl

theorem mergeType_of_ok (h : index.findType? type.key = some source)
    (hown : (mergeTypeEntry policy type.entry source).fault = none)
    (hmembers : ∀ m ∈ pairedMembers policy index type,
      (mergePaired policy interfaces type.docId m).fault = none) :
    mergeType policy interfaces index type =
      TypeMerge.assemble type { source, members := pairedMembers policy index type }
        (mergeTypeEntry policy type.entry source)
        ((pairedMembers policy index type).map
          (mergePaired policy interfaces type.docId)) none := by
  rw [mergeType, pairing_eq policy index type source h]
  simp only [hown, mergeMembers_of_ok policy interfaces type.docId _ hmembers]

theorem mergeType_type_of_ok (h : index.findType? type.key = some source)
    (hown : (mergeTypeEntry policy type.entry source).fault = none)
    (hmembers : ∀ m ∈ pairedMembers policy index type,
      (mergePaired policy interfaces type.docId m).fault = none) :
    ∃ written, (mergeType policy interfaces index type).type = {
      entry := { (mergeTypeEntry policy type.entry source).entry with
        docs := (mergeTypeEntry policy type.entry source).entry.docs.markIf written }
      members := type.members.map fun m =>
        (mergePaired policy interfaces type.docId
          (m, matchMember policy index type.key m)).entry } := by
  rw [mergeType_of_ok policy interfaces index type h hown hmembers]
  simp only [TypeMerge.assemble, pairedMembers, List.map_map, Function.comp_def]
  exact ⟨_, rfl⟩

theorem mergeType_fault_eq_none (h : index.findType? type.key = some source)
    (hok : (mergeType policy interfaces index type).fault = none) :
    (mergeTypeEntry policy type.entry source).fault = none ∧
      ∀ m ∈ pairedMembers policy index type,
        (mergePaired policy interfaces type.docId m).fault = none := by
  rw [mergeType, pairing_eq policy index type source h] at hok
  simp only at hok
  split at hok
  · simp [TypeMerge.assemble] at hok
  · rename_i hown
    exact ⟨hown, (mergeMembers_fault_eq_none_iff policy interfaces type.docId _).mp hok⟩

@[simp] theorem mergeType_docId :
    (mergeType policy interfaces index type).outcome.docId = type.docId := by
  unfold mergeType
  split
  · rfl
  · dsimp only
    split <;> rfl

/-- What becomes of the entries of a type that has a source, with a fault or without. -/
theorem mergeType_entries (h : index.findType? type.key = some source) :
    (∃ written, (mergeType policy interfaces index type).type.entry =
      { (mergeTypeEntry policy type.entry source).entry with
        docs := (mergeTypeEntry policy type.entry source).entry.docs.markIf written }) ∧
    List.Forall₂ (fun m m' => m' = m ∨ ∃ s, matchMember policy index type.key m = .matched s ∧
        m' = (mergeMember policy interfaces type.docId m s).entry)
      type.members (mergeType policy interfaces index type).type.members := by
  rw [mergeType, pairing_eq policy index type source h]
  simp only
  split
  · refine ⟨⟨_, rfl⟩, ?_⟩
    simp only [TypeMerge.assemble, List.map_map, List.forall₂_map_right_iff]
    exact List.forall₂_same.mpr fun m _ => .inl rfl
  · refine ⟨⟨_, rfl⟩, ?_⟩
    have heach := mergeMembers_each policy interfaces type.docId (pairedMembers policy index type)
    simp only [TypeMerge.assemble, List.forall₂_map_right_iff]
    refine (List.forall₂_map_left_iff.mp heach).imp fun m merge hmerge => ?_
    rcases hmerge with rfl | rfl
    · exact .inl rfl
    · cases hfound : matchMember policy index type.key m with
      | matched s => exact .inr ⟨s, rfl, rfl⟩
      | skipped | malformed | unmatched => exact .inl rfl

end

-- ---------------------------------------------------------------------------
-- A corpus
-- ---------------------------------------------------------------------------

section
variable {α : Type} (setting : Setting α)

def mergeOf (d : Document α) : TypeMerge :=
  mergeType setting.policy setting.interfaces setting.index d.type

def mergedDocument (d : Document α) : Document α := { d with type := (mergeOf setting d).type }

def isIncluded (d : Document α) : Bool := setting.policy.includesType d.type.entry.node

def Merges.stepIf (accepts : Document α → Bool) (m : Merges α) (d : Document α) : Merges α :=
  if m.fault.isSome || accepts d then m.mergeNext setting d
  else m.pass d [.typeExcluded d.type.docId]

theorem Merges.ofDocuments_eq (documents : List (Document α)) :
    Merges.ofDocuments setting documents =
      (inOrder documents).foldl (Merges.stepIf setting (isIncluded setting)) {} := rfl

theorem Merges.inTurn_eq (documents : List (Document α)) :
    Merges.inTurn setting documents =
      documents.foldl (Merges.stepIf setting fun _ => true) {} := by
  have hstep : Merges.mergeNext setting = Merges.stepIf setting fun _ => true := by
    funext m d
    simp [Merges.stepIf]
  rw [Merges.inTurn, hstep]

variable (accepts : Document α → Bool)

theorem Merges.stepIf_documents (m : Merges α) (d : Document α) :
    ∃ d', (m.stepIf setting accepts d).documents = m.documents ++ [d'] ∧
      (d' = d ∨ accepts d = true ∧ d' = mergedDocument setting d) := by
  unfold stepIf mergeNext
  split
  · rename_i hmerge
    split
    · exact ⟨d, rfl, .inl rfl⟩
    · rename_i hactive
      exact ⟨_, rfl, .inr ⟨by simpa [hactive] using hmerge, rfl⟩⟩
  · exact ⟨d, rfl, .inl rfl⟩

theorem Merges.foldl_documents (documents : List (Document α)) (m : Merges α) :
    ∃ after, (documents.foldl (Merges.stepIf setting accepts) m).documents = m.documents ++ after ∧
      List.Forall₂ (fun d d' => d' = d ∨ accepts d = true ∧ d' = mergedDocument setting d)
        documents after := by
  induction documents generalizing m with
  | nil => exact ⟨[], by simp, .nil⟩
  | cons d rest ih =>
    obtain ⟨d', hstep, hd'⟩ := Merges.stepIf_documents setting accepts m d
    obtain ⟨after, hafter, heach⟩ := ih (m.stepIf setting accepts d)
    exact ⟨d' :: after, by rw [List.foldl_cons, hafter, hstep]; simp, .cons hd' heach⟩

theorem run_documents_eq (root : Files.Path) (store : Files.Store) (documents : List (Document α)) :
    (run setting root store documents).documents =
      (Merges.ofDocuments setting documents).documents := by
  unfold run prepare
  dsimp only
  split <;> split <;> (try split) <;> rfl

/-- Whatever happens in a run, each document is merged by itself or stays as it is. -/
theorem run_documents (root : Files.Path) (store : Files.Store) (documents : List (Document α)) :
    List.Forall₂ (fun d d' => d' = d ∨ isIncluded setting d = true ∧ d' = mergedDocument setting d)
      (inOrder documents) (run setting root store documents).documents := by
  obtain ⟨after, hafter, heach⟩ :=
    Merges.foldl_documents setting (isIncluded setting) (inOrder documents) {}
  rw [run_documents_eq, Merges.ofDocuments_eq, hafter]
  exact heach

def markDirty (dirty : DirtyTypes) (documents : List (Document α)) : DirtyTypes :=
  documents.foldl (fun dirty d =>
    if (mergeOf setting d).isDirty then dirty.mark d.type.docId else dirty) dirty

structure Merges.Completes (ds : List (Document α)) (m after : Merges α) : Prop where
  documents : after.documents = m.documents ++
    ds.map (fun d => if accepts d then mergedDocument setting d else d)
  outcomes : after.outcomes = m.outcomes ++
    (ds.filter accepts).map (fun d => (mergeOf setting d).outcome)
  dirty : after.dirty = markDirty setting m.dirty (ds.filter accepts)
  fault : after.fault = none

theorem Merges.stepIf_fault (m : Merges α) (d : Document α) :
    (m.stepIf setting accepts d).fault = none ↔
      m.fault = none ∧ (accepts d = true → (mergeOf setting d).fault = none) := by
  unfold stepIf mergeNext mergeOf
  cases hfault : m.fault <;> cases haccepts : accepts d <;> simp [pass, hfault]

theorem Merges.foldl_fault (documents : List (Document α)) (m : Merges α) :
    (documents.foldl (Merges.stepIf setting accepts) m).fault = none ↔
      m.fault = none ∧ ∀ d ∈ documents, accepts d = true → (mergeOf setting d).fault = none := by
  induction documents generalizing m with
  | nil => simp
  | cons d rest ih =>
    rw [List.foldl_cons, ih, Merges.stepIf_fault, and_assoc, List.forall_mem_cons]

theorem Merges.stepIf_completes (m : Merges α) (d : Document α) (hfault : m.fault = none)
    (hok : accepts d = true → (mergeOf setting d).fault = none) :
    Completes setting accepts [d] m (m.stepIf setting accepts d) := by
  unfold stepIf mergeNext
  cases haccepts : accepts d with
  | false => constructor <;> simp [pass, hfault, haccepts, markDirty]
  | true =>
    have hok := hok haccepts
    unfold mergeOf at hok
    constructor <;> simp [hfault, haccepts, hok, mergedDocument, mergeOf, markDirty]
    rfl

theorem Merges.Completes.trans (h : Completes setting accepts first a b)
    (h' : Completes setting accepts second b c) :
    Completes setting accepts (first ++ second) a c where
  documents := by rw [h'.documents, h.documents, List.map_append, List.append_assoc]
  outcomes := by
    rw [h'.outcomes, h.outcomes, List.filter_append, List.map_append, List.append_assoc]
  dirty := by rw [h'.dirty, h.dirty, List.filter_append, markDirty, markDirty, markDirty,
    List.foldl_append]
  fault := h'.fault

theorem Merges.foldl_completes (documents : List (Document α)) (m : Merges α)
    (hfault : m.fault = none)
    (hok : ∀ d ∈ documents, accepts d = true → (mergeOf setting d).fault = none) :
    Completes setting accepts documents m (documents.foldl (Merges.stepIf setting accepts) m) := by
  induction documents generalizing m with
  | nil => constructor <;> simp [hfault, markDirty]
  | cons d rest ih =>
    have hstep := Merges.stepIf_completes setting accepts m d hfault (hok d List.mem_cons_self)
    have hrest := ih _ hstep.fault fun e he => hok e (List.mem_cons_of_mem d he)
    simpa using hstep.trans setting accepts hrest

theorem Merges.ofDocuments_completes (documents : List (Document α))
    (hok : ∀ d ∈ inOrder documents, isIncluded setting d = true →
      (mergeOf setting d).fault = none) :
    Completes setting (isIncluded setting) (inOrder documents) {}
      (Merges.ofDocuments setting documents) := by
  rw [Merges.ofDocuments_eq]
  exact Merges.foldl_completes setting _ (inOrder documents) {} rfl hok

-- ---------------------------------------------------------------------------
-- Order and result
-- ---------------------------------------------------------------------------

theorem docId_le_trans (a b c : Document α) :
    decide (a.type.docId ≤ b.type.docId) = true → decide (b.type.docId ≤ c.type.docId) = true →
      decide (a.type.docId ≤ c.type.docId) = true := by
  simpa using String.le_trans

theorem docId_le_total (a b : Document α) :
    (decide (a.type.docId ≤ b.type.docId) || decide (b.type.docId ≤ a.type.docId)) = true := by
  simpa using String.le_total a.type.docId b.type.docId

theorem inOrder_pairwise (documents : List (Document α)) :
    (inOrder documents).Pairwise (fun a b => decide (a.type.docId ≤ b.type.docId) = true) :=
  List.pairwise_mergeSort docId_le_trans docId_le_total documents

theorem inOrder_map (documents : List (Document α)) (f : Document α → Document α)
    (hf : ∀ d, (f d).type.docId = d.type.docId) :
    inOrder ((inOrder documents).map f) = (inOrder documents).map f := by
  refine List.mergeSort_of_pairwise (List.pairwise_map.mpr ?_)
  simpa only [hf] using inOrder_pairwise documents

theorem markDirty_of_clean (dirty : DirtyTypes) (documents : List (Document α))
    (h : ∀ d ∈ documents, (mergeOf setting d).isDirty = false) :
    markDirty setting dirty documents = dirty := by
  induction documents with
  | nil => rfl
  | cons d rest ih =>
    rw [markDirty, List.foldl_cons, h d List.mem_cons_self]
    exact ih fun e he => h e (List.mem_cons_of_mem d he)

theorem mark_ids (dirty : DirtyTypes) (h : docId ∉ dirty.ids) :
    (dirty.mark docId).ids = dirty.ids ++ [docId] := by
  rw [DirtyTypes.mark, if_neg (by simpa using h)]

theorem markDirty_ids (documents : List (Document α)) (dirty : DirtyTypes)
    (hdistinct : (documents.map (·.type.docId)).Nodup)
    (hnew : ∀ d ∈ documents, d.type.docId ∉ dirty.ids) :
    (markDirty setting dirty documents).ids =
      dirty.ids ++ (documents.filter (fun d => (mergeOf setting d).isDirty)).map
        (·.type.docId) := by
  induction documents generalizing dirty with
  | nil => simp [markDirty]
  | cons d rest ih =>
    rw [List.map_cons, List.nodup_cons] at hdistinct
    have hd := hnew d List.mem_cons_self
    have hother : ∀ e ∈ rest, e.type.docId ≠ d.type.docId := fun e he heq =>
      hdistinct.1 (heq ▸ List.mem_map.mpr ⟨e, he, rfl⟩)
    rw [markDirty, List.foldl_cons, List.filter_cons]
    cases hdirty : (mergeOf setting d).isDirty with
    | false =>
      have h := ih dirty hdistinct.2 fun e he => hnew e (List.mem_cons_of_mem d he)
      simpa [markDirty] using h
    | true =>
      have hids := mark_ids dirty hd
      have h := ih (dirty.mark d.type.docId) hdistinct.2 fun e he => by
        rw [hids, List.mem_append, List.mem_singleton, not_or]
        exact ⟨hnew e (List.mem_cons_of_mem d he), hother e he⟩
      rw [hids] at h
      simpa [markDirty] using h

/-- A run that has merged without a fault and can render what it writes has a result. -/
theorem run_of_ok (root : Files.Path) (store : Files.Store) (documents : List (Document α))
    (hfault : (Merges.ofDocuments setting documents).fault = none)
    (hrender : ∃ writes, renderAll setting (Merges.ofDocuments setting documents).documents
      (Merges.ofDocuments setting documents).dirty.sorted = .ok writes) :
    ∃ committed, (run setting root store documents).result = .ok {
      outcomes := (Merges.ofDocuments setting documents).outcomes
      dirty := (Merges.ofDocuments setting documents).dirty.sorted
      committed } := by
  obtain ⟨writes, hwrites⟩ := hrender
  unfold run prepare
  dsimp only
  rw [hfault]
  cases hsave : setting.policy.save with
  | false => exact ⟨_, rfl⟩
  | true => exact ⟨_, by simp only [if_true, hwrites, Except.map, Prepared.commit]; rfl⟩

end

end DocMerge.Merge

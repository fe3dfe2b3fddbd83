import DocMerge.Proofs.Remarks
import Mathlib.Data.List.Nodup

/-!
# What a run reports is what it did

`run_reports`: as long as documented exceptions keep their texts, a report has one label for each
text that differs and none for any other, a type is dirty exactly if a text of it or of one of its
members differs, and the marks on entries say the same.
-/

namespace DocMerge.Merge

-- ---------------------------------------------------------------------------
-- Where documentation differs
-- ---------------------------------------------------------------------------

inductive Slot
  | scalar (field : ScalarField)
  | named (field : NamedField) (name : String)
  | exception (place : Nat)
  deriving DecidableEq, Repr

def DiffersAt (before after : DocFields) : Slot → Prop
  | .scalar f => after.scalar f ≠ before.scalar f
  | .named f name => (after.named f).lookup name ≠ (before.named f).lookup name
  | .exception place => after.exceptions[place]? ≠ before.exceptions[place]?

def IsLabelOf (after : DocFields) : Slot → Label → Prop
  | .scalar f, label => label = .scalar f
  | .named f name, label => label = .named f name
  | .exception place, label => IsLabelAt after.exceptions place label

def Differs (before after : DocFields) : Prop := { after with changed := before.changed } ≠ before

theorem differs_iff (hnames : ∀ f, (after.named f).names = (before.named f).names)
    (hpresent : after.present = before.present) :
    Differs before after ↔ ∃ slot, DiffersAt before after slot := by
  constructor
  · intro hne
    by_contra hnone
    refine hne ?_
    have hsame : ∀ slot, ¬ DiffersAt before after slot := fun slot h => hnone ⟨slot, h⟩
    refine DocFields.ext_fields (fun f => ?_) (fun f => ?_) ?_ hpresent rfl
    · have h := hsame (.scalar f)
      simp only [DiffersAt, not_not] at h
      rw [← h]
      cases f <;> rfl
    · have h := fun name => hsame (.named f name)
      simp only [DiffersAt, not_not] at h
      rw [← NamedTexts.ext_lookup (hnames f) h]
      cases f <;> rfl
    · refine List.ext_getElem? fun place => ?_
      have h := hsame (.exception place)
      simpa only [DiffersAt, not_not] using h
  · rintro ⟨slot, h⟩ hsame
    rw [← hsame] at h
    cases slot with
    | scalar f => cases f <;> exact h rfl
    | named f name => cases f <;> exact h rfl
    | exception place => exact h rfl

-- ---------------------------------------------------------------------------
-- The report on an entry
-- ---------------------------------------------------------------------------

/-- Changes tell of an entry's documentation exactly where it differs, once each. -/
def Reported (before after : Entry) (changes : List Change) : Prop :=
  ∃ slots : List Slot, slots.Nodup ∧
  (∀ slot, slot ∈ slots ↔ DiffersAt before.docs after.docs slot) ∧
    List.Forall₂ (fun slot c => c.docId = before.docId ∧ IsLabelOf after.docs slot c.label)
      slots changes

/-- Orphans tell of the names that the source has and the entry does not, once each. -/
def OrphansOf (e : Entry) (source : Option Entry) (orphans : List Change) : Prop :=
  orphans.Nodup ∧ ∀ c, c ∈ orphans ↔ ∃ s f name, source = some s ∧ c = ⟨e.docId, .named f name⟩ ∧
    name ∈ (s.docs.named f).names ∧ name ∉ (e.docs.named f).names

structure EntryReport (e : Entry) (source : Option Entry) (merge : EntryMerge) : Prop where
  updated : Reported e merge.entry merge.updated
  orphans : OrphansOf e source merge.orphans
  differs : Differs e.docs merge.entry.docs ↔ merge.updated ≠ []
  changed : merge.entry.docs.changed = (e.docs.changed || !merge.updated.isEmpty)

def fieldSlots (policy : Policy) (offer : Offer) (docs : DocFields) : List Slot :=
  (ScalarField.all.filter
    (fun f => (taken? policy f.toField (docs.scalar f) (offer.scalar f)).isSome)).map .scalar ++
  NamedField.all.flatMap (fun f => ((offer.named f).toList.filter (fun pair =>
    (taken? policy f.toField ((docs.named f).lookup pair.1) (some pair.2)).isSome)).map
      (fun pair => .named f pair.1))

theorem fieldSlots_labelled (policy : Policy) (offer : Offer) (docs after : DocFields) :
    List.Forall₂ (IsLabelOf after) (fieldSlots policy offer docs)
      (takenLabels policy offer docs) := by
  have hfields : List.Forall₂ Eq NamedField.all NamedField.all := List.forall₂_refl _
  refine List.rel_append ?_ (List.rel_flatMap hfields ?_)
  · simp only [scalarLabels, List.forall₂_map_left_iff, List.forall₂_map_right_iff]
    exact List.forall₂_same.mpr fun f _ => rfl
  · rintro f _ rfl
    simp only [nameLabels, List.forall₂_map_left_iff, List.forall₂_map_right_iff]
    exact List.forall₂_same.mpr fun pair _ => rfl

theorem fieldSlots_nodup (policy : Policy) (offer : Offer) (docs : DocFields) :
    (fieldSlots policy offer docs).Nodup := by
  have hscalars : (ScalarField.all.filter
      (fun f => (taken? policy f.toField (docs.scalar f) (offer.scalar f)).isSome)).Nodup :=
    List.Nodup.filter _ (by decide)
  have hnames : ∀ f (p : String × String → Bool),
      (((offer.named f).toList.filter p).map (fun pair => Slot.named f pair.1)).Nodup := by
    intro f p
    have h : (((offer.named f).toList.filter p).map (·.1)).Nodup :=
      (offer.named f).distinct.sublist (List.filter_sublist.map _)
    simpa [Function.comp_def] using
      h.map (fun a b hab => by simpa using hab : Function.Injective (Slot.named f))
  have hfields : NamedField.all.Nodup := by decide
  refine List.nodup_append.mpr ⟨hscalars.map fun a b hab => by simpa using hab,
    List.nodup_flatMap.mpr ⟨fun f _ => hnames f _, hfields.imp fun hne => ?_⟩, ?_⟩
  · rintro slot hleft hright
    simp only [List.mem_map] at hleft hright
    obtain ⟨_, -, rfl⟩ := hleft
    obtain ⟨_, -, hslot⟩ := hright
    simp only [Slot.named.injEq] at hslot
    exact hne hslot.1.symm
  · intro slot hslot other hother heq
    subst heq
    simp only [List.mem_map, List.mem_flatMap] at hslot hother
    obtain ⟨_, -, rfl⟩ := hslot
    obtain ⟨_, -, _, -, hslot⟩ := hother
    simp at hslot

theorem scalar_mem_fieldSlots :
    .scalar f ∈ fieldSlots policy offer docs ↔
      (taken? policy f.toField (docs.scalar f) (offer.scalar f)).isSome := by
  simp [fieldSlots, scalarField_mem_all]

theorem named_mem_fieldSlots :
    .named f name ∈ fieldSlots policy offer docs ↔
      (taken? policy f.toField ((docs.named f).lookup name)
        ((offer.named f).lookup name)).isSome := by
  simp only [fieldSlots, List.mem_append, List.mem_map, reduceCtorEq, and_false, exists_false,
    List.mem_flatMap, List.mem_filter, Slot.named.injEq, false_or]
  constructor
  · rintro ⟨_, -, ⟨name, text⟩, ⟨hmem, htaken⟩, rfl, rfl⟩
    rwa [NamedTexts.mem_toList_iff.mp hmem]
  · intro htaken
    cases htext : (offer.named f).lookup name with
    | none => simp [htext] at htaken
    | some text =>
      rw [htext] at htaken
      exact ⟨f, namedField_mem_all f, (name, text), ⟨NamedTexts.mem_toList_iff.mpr htext, htaken⟩,
        rfl, rfl⟩

theorem exception_not_mem_fieldSlots : .exception place ∉ fieldSlots policy offer docs := by
  simp [fieldSlots]

theorem exceptionsAfter_writes (hoff : policy.replaceExceptions = false) (docs source : DocFields) :
    ∃ places, Writes docs.exceptions (exceptionsAfter policy docs source) places
      (exceptionLabels policy docs source) := by
  unfold exceptionsAfter exceptionLabels
  split
  · exact mergeExceptionList_writes policy docs.exceptions source.exceptions hoff
  · exact ⟨[], .refl docs.exceptions⟩

theorem Absorbs.reported (h : Absorbs policy e source offer merge)
    (hoff : policy.replaceExceptions = false) : Reported e merge.entry merge.updated := by
  obtain ⟨places, hwrites⟩ := exceptionsAfter_writes hoff e.docs source.docs
  refine ⟨fieldSlots policy offer e.docs ++ places.map .exception, ?_, fun slot => ?_, ?_⟩
  · refine List.nodup_append.mpr ⟨fieldSlots_nodup policy offer e.docs,
      hwrites.distinct.map fun a b hab => by simpa using hab, ?_⟩
    intro slot hslot other hother heq
    subst heq
    obtain ⟨place, -, rfl⟩ := List.mem_map.mp hother
    exact exception_not_mem_fieldSlots hslot
  · rw [List.mem_append]
    cases slot with
    | scalar f =>
      rw [scalar_mem_fieldSlots, ← settled_ne_iff, ← h.fields.scalar f]
      simp [DiffersAt]
    | named f name =>
      rw [named_mem_fieldSlots, ← settled_ne_iff, ← h.fields.lookup f name]
      simp [DiffersAt]
    | exception place =>
      rw [or_iff_right exception_not_mem_fieldSlots, DiffersAt, h.exceptions, ← hwrites.mem_iff]
      simp
  · rw [h.updated, List.map_append]
    refine List.rel_append ?_ ?_
    · rw [List.forall₂_map_right_iff]
      exact (fieldSlots_labelled policy offer e.docs merge.entry.docs).imp fun _ _ hl => ⟨rfl, hl⟩
    · rw [List.forall₂_map_left_iff, List.forall₂_map_right_iff]
      refine hwrites.labelled.imp fun place label hl => ⟨rfl, ?_⟩
      rw [IsLabelOf, h.exceptions]
      exact hl

theorem missingLabels_nodup (f : NamedField) (texts offered : NamedTexts) :
    (missingLabels f texts offered.toList).Nodup := by
  have h : ((offered.toList.filter (fun pair => pair.1 ∉ texts.names)).map (·.1)).Nodup :=
    offered.distinct.sublist (List.filter_sublist.map _)
  simpa [missingLabels, Function.comp_def] using
    h.map (fun a b hab => by simpa using hab : Function.Injective (Label.named f))

theorem mem_missingLabels {offered : NamedTexts} :
    label ∈ missingLabels f texts offered.toList ↔
      ∃ name, label = .named f name ∧ name ∈ offered.names ∧ name ∉ texts.names := by
  simp only [missingLabels, List.mem_map, List.mem_filter, decide_eq_true_eq, NamedTexts.names]
  constructor
  · rintro ⟨pair, ⟨hpair, hmissing⟩, rfl⟩
    exact ⟨pair.1, rfl, ⟨pair, hpair, rfl⟩, hmissing⟩
  · rintro ⟨_, rfl, ⟨pair, hpair, rfl⟩, hmissing⟩
    exact ⟨pair, ⟨hpair, hmissing⟩, rfl⟩

theorem Absorbs.orphansOf (h : Absorbs policy e source offer merge)
    (hnamed : offer.named = source.docs.named) : OrphansOf e (some source) merge.orphans := by
  rw [OrphansOf, h.orphans, orphanLabels, hnamed]
  have hfields : NamedField.all.Nodup := by decide
  constructor
  · refine List.Nodup.map (fun a b hab => by simpa using hab) (List.nodup_flatMap.mpr
      ⟨fun f _ => missingLabels_nodup f _ _, hfields.imp fun hne label hleft hright => ?_⟩)
    obtain ⟨_, rfl, -⟩ := mem_missingLabels.mp hleft
    obtain ⟨_, hlabel, -⟩ := mem_missingLabels.mp hright
    simp only [Label.named.injEq] at hlabel
    exact hne hlabel.1
  · intro c
    simp only [List.mem_map, List.mem_flatMap, mem_missingLabels, Option.some.injEq]
    constructor
    · rintro ⟨_, ⟨f, -, name, rfl, hoffered, hmissing⟩, rfl⟩
      exact ⟨source, f, name, rfl, rfl, hoffered, hmissing⟩
    · rintro ⟨_, f, name, rfl, rfl, hoffered, hmissing⟩
      exact ⟨_, ⟨f, namedField_mem_all f, name, rfl, hoffered, hmissing⟩, rfl⟩

theorem Reported.ne_nil_iff (h : Reported before after changes) :
    changes ≠ [] ↔ ∃ slot, DiffersAt before.docs after.docs slot := by
  obtain ⟨slots, -, hmem, hlabels⟩ := h
  have hlen := hlabels.length_eq
  constructor
  · intro hne
    have hslots : slots ≠ [] := by
      rintro rfl
      exact hne (List.length_eq_zero_iff.mp hlen.symm)
    obtain ⟨slot, hslot⟩ := List.exists_mem_of_ne_nil slots hslots
    exact ⟨slot, (hmem slot).mp hslot⟩
  · rintro ⟨slot, hslot⟩ rfl
    have hnil : slots = [] := List.length_eq_zero_iff.mp hlen
    simp [hnil] at hmem
    exact hmem slot hslot

theorem Absorbs.report (h : Absorbs policy e source offer merge)
    (hnamed : offer.named = source.docs.named) (hoff : policy.replaceExceptions = false) :
    EntryReport e (some source) merge where
  updated := h.reported hoff
  orphans := h.orphansOf hnamed
  differs := by rw [differs_iff h.fields.names h.present, (h.reported hoff).ne_nil_iff]
  changed := h.changed

theorem entryReport_of_alone (e : Entry) : EntryReport e none { entry := e } where
  updated := ⟨[], List.nodup_nil, fun slot => by cases slot <;> simp [DiffersAt], .nil⟩
  orphans := ⟨List.nodup_nil, by simp⟩
  differs := by simp [Differs]
  changed := by simp

-- ---------------------------------------------------------------------------
-- The report on a type
-- ---------------------------------------------------------------------------

def memberSource? (policy : Policy) (index : SourceIndex) (type : ApiType) (m : Entry) :
    Option Entry :=
  (index.findType? type.key).bind fun _ => (matchMember policy index type.key m).source?

/-- An outcome tells of a type's own entry and of each of its members exactly what differs, and
which names of their sources found no place. -/
structure TypeReport (policy : Policy) (index : SourceIndex)
    (before after : ApiType) (o : Outcome) :
    Prop where
  docId : o.docId = before.docId
  status : o.status = .merged ↔ o.updated ≠ []
  updated : ∃ own parts, o.updated = own ++ parts.flatten ∧ Reported before.entry after.entry own ∧
    parts.length = after.members.length ∧
    List.Forall₂ (fun m p => Reported m p.1 p.2) before.members (after.members.zip parts)
  orphans : ∃ own parts, o.orphans = own ++ parts.flatten ∧
    OrphansOf before.entry (index.findType? before.key) own ∧
    List.Forall₂ (fun m part => OrphansOf m (memberSource? policy index before m) part)
      before.members parts

/-- The marks on the entries of a type tell which of them differ; that on the type itself, whether
any does. -/
structure TypeMarks (before after : ApiType) (o : Outcome) : Prop where
  type : after.entry.docs.changed = true ↔ o.updated ≠ []
  differs : o.updated ≠ [] ↔ Differs before.entry.docs after.entry.docs ∨
    ∃ p ∈ before.members.zip after.members, Differs p.1.docs p.2.docs
  members : List.Forall₂ (fun m m' => m'.docs.changed = true ↔ Differs m.docs m'.docs)
    before.members after.members

structure MadeOf (policy : Policy) (index : SourceIndex) (type : ApiType) (merge : TypeMerge)
    (own : EntryMerge) (parts : List EntryMerge) : Prop where
  entry : merge.type.entry =
    { own.entry with docs := own.entry.docs.markIf (!merge.outcome.updated.isEmpty) }
  members : merge.type.members = parts.map (·.entry)
  docId : merge.outcome.docId = type.docId
  status : merge.outcome.status = .merged ↔ merge.outcome.updated ≠ []
  updated : merge.outcome.updated = own.updated ++ parts.flatMap (·.updated)
  orphans : merge.outcome.orphans = own.orphans ++ parts.flatMap (·.orphans)
  ownReport : EntryReport type.entry (index.findType? type.key) own
  memberReports : List.Forall₂ (fun m part =>
    EntryReport m (memberSource? policy index type m) part)
    type.members parts

theorem mergePaired_report (h : (mergePaired policy interfaces ownerId (m, found)).fault = none)
    (hoff : policy.replaceExceptions = false) :
    EntryReport m found.source? (mergePaired policy interfaces ownerId (m, found)) := by
  cases found with
  | matched source =>
    rw [mergePaired_matched] at h ⊢
    cases hoffer : memberOffer policy interfaces ownerId m.node source.docs with
    | error fault =>
      have hfault := (mergeMember_of_error hoffer).fault
      simp [h] at hfault
    | ok offer =>
      obtain ⟨remarks, -, rfl⟩ := offerOf_eq_ok hoffer
      exact (mergeMember_of_ok hoffer).report rfl hoff
  | skipped | malformed | unmatched => exact entryReport_of_alone m

theorem mergeTypeEntry_report (h : (mergeTypeEntry policy type source).fault = none)
    (hoff : policy.replaceExceptions = false) :
    EntryReport type (some source) (mergeTypeEntry policy type source) := by
  cases hoffer : typeOffer policy source.docs with
  | error fault =>
    have hfailed : AbsorbsSummary policy type source fault (mergeTypeEntry policy type source) :=
      mergeTypeEntry_of_error hoffer
    simpa [h] using hfailed.fault
  | ok offer =>
    obtain ⟨remarks, -, rfl⟩ := offerOf_eq_ok hoffer
    exact (mergeTypeEntry_of_ok hoffer).report rfl hoff

theorem mergeType_madeOf (policy : Policy) (interfaces : InterfaceRemarks) (index : SourceIndex)
    (type : ApiType) (hoff : policy.replaceExceptions = false)
    (hok : (mergeType policy interfaces index type).fault = none) :
    ∃ own members, MadeOf policy index type
      (mergeType policy interfaces index type) own members := by
  cases hsource : index.findType? type.key with
  | none =>
    rw [mergeType_of_unmatched policy interfaces index type hsource]
    have hmember : ∀ m, memberSource? policy index type m = none := by simp [memberSource?, hsource]
    refine ⟨{ entry := type.entry }, type.members.map fun m => { entry := m },
      by simp, by simp [Function.comp_def], rfl, by simp, by simp, by simp,
      hsource ▸ entryReport_of_alone _, ?_⟩
    rw [List.forall₂_map_right_iff]
    exact List.forall₂_same.mpr fun m _ => hmember m ▸ entryReport_of_alone m
  | some source =>
    obtain ⟨hown, hmembers⟩ := mergeType_fault_eq_none policy interfaces index type hsource hok
    rw [mergeType_of_ok policy interfaces index type hsource hown hmembers]
    refine ⟨mergeTypeEntry policy type.entry source,
      (pairedMembers policy index type).map (mergePaired policy interfaces type.docId),
      rfl, rfl, rfl, ?_, rfl, rfl, hsource ▸ mergeTypeEntry_report hown hoff, ?_⟩
    · simp only [TypeMerge.assemble]
      split <;> simp_all
    · rw [List.forall₂_map_right_iff, pairedMembers, List.forall₂_map_right_iff]
      refine List.forall₂_same.mpr fun m hm => ?_
      have hsame : memberSource? policy index type m =
          (matchMember policy index type.key m).source? := by simp [memberSource?, hsource]
      rw [hsame]
      exact mergePaired_report (hmembers _ (List.mem_map.mpr ⟨m, hm, rfl⟩)) hoff

theorem Reported.markIf (h : Reported before after changes) (written : Bool) :
    Reported before { after with docs := after.docs.markIf written } changes := by
  obtain ⟨slots, hdistinct, hmem, hlabels⟩ := h
  refine ⟨slots, hdistinct, fun slot => (hmem slot).trans ?_, hlabels.imp fun slot c hc => ?_⟩
  · cases slot <;> simp [DiffersAt]
  · cases slot <;> exact hc

theorem forall₂_zip_map (f : β → γ) (g : β → δ) (R : α → γ → δ → Prop)
    (h : List.Forall₂ (fun a b => R a (f b) (g b)) as bs) :
    List.Forall₂ (fun a p => R a p.1 p.2) as ((bs.map f).zip (bs.map g)) := by
  rw [List.zip_map', List.forall₂_map_right_iff]
  exact h

theorem MadeOf.report (h : MadeOf policy index type merge own parts) :
    TypeReport policy index type merge.type merge.outcome where
  docId := h.docId
  status := h.status
  updated := by
    refine ⟨own.updated, parts.map (·.updated), ?_, ?_, by simp [h.members], ?_⟩
    · rw [h.updated, List.flatMap_def]
    · rw [h.entry]
      exact h.ownReport.updated.markIf _
    · rw [h.members]
      exact forall₂_zip_map _ _ Reported (h.memberReports.imp fun m part hp => hp.updated)
  orphans := by
    refine ⟨own.orphans, parts.map (·.orphans), ?_, h.ownReport.orphans, ?_⟩
    · rw [h.orphans, List.flatMap_def]
    · rw [List.forall₂_map_right_iff]
      exact h.memberReports.imp fun m part hp => hp.orphans

theorem differs_markIf : Differs before (after.markIf written) ↔ Differs before after := Iff.rfl

theorem reports_differ {source : Entry → Option Entry}
    (h : List.Forall₂ (fun m part => EntryReport m (source m) part) members parts) :
    (∃ p ∈ members.zip (parts.map (·.entry)), Differs p.1.docs p.2.docs) ↔
      parts.flatMap (·.updated) ≠ [] := by
  induction h with
  | nil => simp
  | cons hm _ ih =>
    simp only [List.map_cons, List.zip_cons_cons, List.mem_cons, exists_eq_or_imp, ih, hm.differs,
      List.flatMap_cons, ne_eq, List.append_eq_nil_iff, not_and_or]

theorem MadeOf.typeMarks (h : MadeOf policy index type merge own parts)
    (hclean : type.entry.docs.changed = false)
    (hmembers : ∀ m ∈ type.members, m.docs.changed = false) :
    TypeMarks type merge.type merge.outcome where
  type := by
    rw [h.entry, DocFields.changed_markIf, h.ownReport.changed, hclean, h.updated]
    cases own.updated <;> simp
  differs := by
    rw [h.members, reports_differ h.memberReports, h.entry, differs_markIf, h.ownReport.differs,
      h.updated]
    cases own.updated <;> simp
  members := by
    rw [h.members, List.forall₂_map_right_iff]
    obtain ⟨hlen, heach⟩ := List.forall₂_iff_zip.mp h.memberReports
    refine List.forall₂_iff_zip.mpr ⟨hlen, fun {m part} hpair => ?_⟩
    have hreport := heach hpair
    rw [hreport.changed, hmembers m (List.of_mem_zip hpair).1, hreport.differs]
    simp

-- ---------------------------------------------------------------------------
-- The report on a run
-- ---------------------------------------------------------------------------

section
variable {α : Type} (setting : Setting α)

def IsClean (d : Document α) : Prop :=
  d.type.entry.docs.changed = false ∧ ∀ m ∈ d.type.members, m.docs.changed = false

/-- The list of dirty types and the marks of a document tell which of its entries differ. -/
structure DocumentMarks (dirty : List String) (before after : ApiType) : Prop where
  differs : before.docId ∈ dirty ↔ Differs before.entry.docs after.entry.docs ∨
    ∃ p ∈ before.members.zip after.members, Differs p.1.docs p.2.docs
  type : before.docId ∈ dirty ↔ after.entry.docs.changed = true
  members : List.Forall₂ (fun m m' => m'.docs.changed = true ↔ Differs m.docs m'.docs)
    before.members after.members

theorem isDirty_iff (m : TypeMerge) : m.isDirty = true ↔ m.outcome.updated ≠ [] := by
  simp [TypeMerge.isDirty]

theorem run_result_ok {root : Files.Path} {store : Files.Store} {documents : List (Document α)}
    (h : (run setting root store documents).result = .ok result) :
    (Merges.ofDocuments setting documents).fault = none ∧
      result.outcomes = (Merges.ofDocuments setting documents).outcomes ∧
      result.dirty = (Merges.ofDocuments setting documents).dirty.sorted := by
  unfold run prepare at h
  dsimp only at h
  cases hfault : (Merges.ofDocuments setting documents).fault with
  | some fault => simp [hfault, Prepared.commit, Except.map] at h
  | none =>
    rw [hfault] at h
    dsimp only at h
    split at h
    · simp at h
    · rename_i committed hcommit
      simp only [Except.ok.injEq] at h
      subst h
      split at hcommit <;> simp only [Prepared.commit] at hcommit
      · cases hwrites : (renderAll setting (Merges.ofDocuments setting documents).documents
            (Merges.ofDocuments setting documents).dirty.sorted) with
        | error fault => simp [hwrites, Except.map] at hcommit
        | ok writes =>
          simp only [hwrites, Except.map, Except.ok.injEq, Prod.mk.injEq] at hcommit
          simp [← hcommit.2]
      · simp only [Except.map, Except.ok.injEq, Prod.mk.injEq] at hcommit
        simp [← hcommit.2]

theorem zip_map_self (f : β → γ) (xs : List β) : xs.zip (xs.map f) = xs.map fun x => (x, f x) := by
  induction xs with
  | nil => rfl
  | cons x rest ih => rw [List.map_cons, List.zip_cons_cons, ih, List.map_cons]

def TypeDiffers (before after : ApiType) : Prop :=
  Differs before.entry.docs after.entry.docs ∨
    ∃ p ∈ before.members.zip after.members, Differs p.1.docs p.2.docs

theorem not_typeDiffers_self (type : ApiType) : ¬ TypeDiffers type type := by
  rintro (h | ⟨p, hp, h⟩)
  · exact h rfl
  · have hzip := zip_map_self id type.members
    rw [List.map_id] at hzip
    rw [hzip, List.mem_map] at hp
    obtain ⟨m, -, rfl⟩ := hp
    exact h rfl

theorem documentMarks_of_alone (type : ApiType) (hclean : type.entry.docs.changed = false)
    (hmembers : ∀ m ∈ type.members, m.docs.changed = false) (hdirty : type.docId ∉ dirty) :
    DocumentMarks dirty type type where
  differs := iff_of_false hdirty (not_typeDiffers_self type)
  type := by simp [hdirty, hclean]
  members := List.forall₂_same.mpr fun m hm =>
    iff_of_false (by simp [hmembers m hm]) fun h => h rfl

structure RunsTo (ds : List (Document α)) (after : List (Document α)) (result : Result) :
    Prop where
  documents : after =
    (inOrder ds).map fun d => if isIncluded setting d then mergedDocument setting d else d
  outcomes : result.outcomes =
    ((inOrder ds).filter (isIncluded setting)).map fun d => (mergeOf setting d).outcome
  dirty : result.dirty = (((inOrder ds).filter (isIncluded setting)).filter
    fun d => (mergeOf setting d).isDirty).map (·.type.docId)
  fault : ∀ d ∈ inOrder ds, isIncluded setting d = true → (mergeOf setting d).fault = none

theorem inOrder_map_nodup {documents : List (Document α)}
    (hdistinct : (documents.map (·.type.docId)).Nodup) :
    ((inOrder documents).map (·.type.docId)).Nodup :=
  ((List.mergeSort_perm documents _).map _).nodup_iff.mpr hdistinct

theorem run_runsTo {root : Files.Path} {store : Files.Store} {documents : List (Document α)}
    (hdistinct : (documents.map (·.type.docId)).Nodup)
    (hresult : (run setting root store documents).result = .ok result) :
    RunsTo setting documents (run setting root store documents).documents result := by
  obtain ⟨hfault, houtcomes, hdirty⟩ := run_result_ok setting hresult
  have hok : ∀ d ∈ inOrder documents, isIncluded setting d = true →
      (mergeOf setting d).fault = none := by
    rw [Merges.ofDocuments_eq] at hfault
    exact ((Merges.foldl_fault setting _ _ _).mp hfault).2
  have hall := Merges.ofDocuments_completes setting documents hok
  refine ⟨?_, ?_, ?_, hok⟩
  · rw [run_documents_eq]
    exact hall.documents
  · rw [houtcomes]
    exact hall.outcomes
  · have hnodup : (((inOrder documents).filter (isIncluded setting)).map (·.type.docId)).Nodup :=
      (inOrder_map_nodup hdistinct).sublist (List.filter_sublist.map _)
    have hids := markDirty_ids setting ((inOrder documents).filter (isIncluded setting)) {} hnodup
      (by simp)
    have hsorted : (((inOrder documents).filter (isIncluded setting)).filter
        fun d => (mergeOf setting d).isDirty).Pairwise
          (fun a b => decide (a.type.docId ≤ b.type.docId) = true) :=
      ((inOrder_pairwise documents).sublist List.filter_sublist).sublist List.filter_sublist
    rw [hdirty, hall.dirty, DirtyTypes.sorted, hids, List.nil_append]
    exact List.mergeSort_of_pairwise (List.pairwise_map.mpr hsorted)

/-- What is reported of a run is what it has done to the documents, which it has met in this
order. -/
structure RunReport (before after : List (Document α)) (result : Result) : Prop where
  /-- Each included type has one outcome. -/
  docIds : result.outcomes.map (·.docId) = (before.filter (isIncluded setting)).map (·.type.docId)
  ordered : (result.outcomes.map (·.docId)).Pairwise (· < ·)
  dirty : result.dirty = (result.outcomes.filter (·.status == .merged)).map (·.docId)
  marks : List.Forall₂ (fun d d' => DocumentMarks result.dirty d.type d'.type) before after
  reports : List.Forall₂ (fun p o => TypeReport setting.policy setting.index p.1.type p.2.type o)
    ((before.zip after).filter fun p => isIncluded setting p.1) result.outcomes

end

namespace RunsTo

variable {setting : Setting α} (h : RunsTo setting ds after result)
include h

theorem madeOf (hoff : setting.policy.replaceExceptions = false) (hd : d ∈ inOrder ds)
    (hincluded : isIncluded setting d = true) :
    ∃ own parts, MadeOf setting.policy setting.index d.type (mergeOf setting d) own parts :=
  mergeType_madeOf setting.policy setting.interfaces setting.index d.type hoff
    (h.fault d hd hincluded)

theorem docIds :
    result.outcomes.map (·.docId) = ((inOrder ds).filter (isIncluded setting)).map
      (·.type.docId) := by
  rw [h.outcomes, List.map_map]
  exact List.map_congr_left fun d _ => mergeType_docId _ _ _ d.type

theorem ordered (hdistinct : (ds.map (·.type.docId)).Nodup) :
    (result.outcomes.map (·.docId)).Pairwise (· < ·) := by
  rw [h.docIds, List.pairwise_map]
  have hordered := (inOrder_pairwise ds).and (List.pairwise_map.mp (inOrder_map_nodup hdistinct))
  refine (hordered.sublist List.filter_sublist).imp fun hle => ?_
  exact Std.lt_of_le_of_ne (by simpa using hle.1) hle.2

theorem dirty_eq (hoff : setting.policy.replaceExceptions = false) :
    result.dirty = (result.outcomes.filter (·.status == .merged)).map (·.docId) := by
  rw [h.dirty, h.outcomes, List.filter_map, List.map_map]
  have hstatus : ((inOrder ds).filter (isIncluded setting)).filter
        (fun d => (mergeOf setting d).isDirty) =
      ((inOrder ds).filter (isIncluded setting)).filter
        (fun d => (mergeOf setting d).outcome.status == .merged) := by
    refine List.filter_congr fun d hd => ?_
    obtain ⟨hd, hincluded⟩ := List.mem_filter.mp hd
    obtain ⟨_, _, hmade⟩ := h.madeOf hoff hd hincluded
    rw [Bool.eq_iff_iff, isDirty_iff, ← hmade.status, beq_iff_eq]
  rw [hstatus]
  exact List.map_congr_left fun d _ => (mergeType_docId _ _ _ d.type).symm

theorem mem_dirty_iff (hdistinct : (ds.map (·.type.docId)).Nodup) (hd : d ∈ inOrder ds) :
    d.type.docId ∈ result.dirty ↔ isIncluded setting d = true ∧
    (mergeOf setting d).isDirty = true := by
  rw [h.dirty, List.mem_map]
  constructor
  · rintro ⟨e, he, heq⟩
    obtain ⟨he, hdirty⟩ := List.mem_filter.mp he
    obtain ⟨he, hincluded⟩ := List.mem_filter.mp he
    obtain rfl := List.inj_on_of_nodup_map (inOrder_map_nodup hdistinct) he hd heq
    exact ⟨hincluded, hdirty⟩
  · rintro ⟨hincluded, hdirty⟩
    exact ⟨d, List.mem_filter.mpr ⟨List.mem_filter.mpr ⟨hd, hincluded⟩, hdirty⟩, rfl⟩

theorem documentMarks (hoff : setting.policy.replaceExceptions = false)
    (hdistinct : (ds.map (·.type.docId)).Nodup) (hclean : ∀ d ∈ ds, IsClean d) :
    List.Forall₂ (fun d d' => DocumentMarks result.dirty d.type d'.type) (inOrder ds) after := by
  rw [h.documents, List.forall₂_map_right_iff]
  refine List.forall₂_same.mpr fun d hd => ?_
  have hclean := hclean d ((List.mergeSort_perm ds _).mem_iff.mp hd)
  have hdirty := h.mem_dirty_iff hdistinct hd
  cases hincluded : isIncluded setting d with
  | false => exact documentMarks_of_alone d.type hclean.1 hclean.2 (by simp [hdirty, hincluded])
  | true =>
    obtain ⟨_, _, hmade⟩ := h.madeOf hoff hd hincluded
    have hmarks := hmade.typeMarks hclean.1 hclean.2
    have hlisted : d.type.docId ∈ result.dirty ↔ (mergeOf setting d).outcome.updated ≠ [] := by
      rw [hdirty, isDirty_iff, and_iff_right hincluded]
    exact ⟨hlisted.trans hmarks.differs, hlisted.trans hmarks.type.symm, hmarks.members⟩

theorem typeReports (hoff : setting.policy.replaceExceptions = false) :
    List.Forall₂ (fun p o => TypeReport setting.policy setting.index p.1.type p.2.type o)
      (((inOrder ds).zip after).filter fun p => isIncluded setting p.1) result.outcomes := by
  rw [h.documents, zip_map_self, List.filter_map, h.outcomes, List.forall₂_map_left_iff,
    List.forall₂_map_right_iff]
  refine List.forall₂_same.mpr fun d hd => ?_
  simp only [Function.comp_apply, List.mem_filter] at hd
  obtain ⟨_, _, hmade⟩ := h.madeOf hoff hd.1 hd.2
  simp only [hd.2, if_true]
  exact hmade.report

end RunsTo

/-- As long as documented exceptions keep their texts, a run over types with distinct DocIds, none
of them written to before, reports exactly what it does. -/
theorem run_reports (setting : Setting α) (hoff : setting.policy.replaceExceptions = false)
    (root : Files.Path) (store : Files.Store) (documents : List (Document α))
    (hdistinct : (documents.map (·.type.docId)).Nodup) (hclean : ∀ d ∈ documents, IsClean d)
    (hresult : (run setting root store documents).result = .ok result) :
    RunReport setting (inOrder documents) (run setting root store documents).documents result := by
  have hruns := run_runsTo setting hdistinct hresult
  exact ⟨hruns.docIds, hruns.ordered hdistinct, hruns.dirty_eq hoff,
    hruns.documentMarks hoff hdistinct hclean,
    hruns.typeReports hoff⟩

theorem run_reports_small :
    let documents := [Small.stack, Small.queue]
    (Small.setting true).policy.replaceExceptions = false ∧
    (documents.map (·.type.docId)).Nodup ∧ (∀ d ∈ documents, IsClean d) ∧
    ∃ result, (run (Small.setting true) ⟨true, []⟩ {} documents).result = .ok result ∧
      RunReport (Small.setting true) (inOrder documents)
        (run (Small.setting true) ⟨true, []⟩ {} documents).documents result := by
  intro documents
  have hdistinct : (documents.map (·.type.docId)).Nodup := by decide
  have hclean : ∀ d ∈ documents, IsClean d := by
    simp [documents, Small.stack, Small.queue, Small.document, IsClean]
  obtain ⟨result, hresult⟩ := run_returns (Small.setting true) Small.index_plain (.inl rfl)
    (fun d => ⟨d.body, rfl⟩) ⟨true, []⟩ {} documents
  exact ⟨rfl, hdistinct, hclean, result, hresult,
    run_reports (Small.setting true) rfl _ _ documents hdistinct hclean hresult⟩

end DocMerge.Merge

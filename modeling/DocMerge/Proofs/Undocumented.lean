import DocMerge.Command.Session
import DocMerge.Proofs.Preservation

/-!
# What is undocumented after a run

`run_leaves_no_gaps`: whatever is reported as undocumented after a run has been so before it, list
by list and in the same order. A text that is still empty has not been touched, and what a run adds
is documented, so a run can only take lines out of the report. It holds of runs that end in a fault
too.
-/

namespace DocMerge

-- ---------------------------------------------------------------------------
-- Making a report
-- ---------------------------------------------------------------------------

namespace Work

theorem run_get (f : Session → Work α) (s : Session) :
    (get >>= f : Work α).run.run s = (f s).run.run s := rfl

theorem run_set (after : Session) (f : PUnit → Work α) (s : Session) :
    (set after >>= f : Work α).run.run s = (f ⟨⟩).run.run after := rfl

theorem run_orStop (stop : ε → Stop) (result : Except ε β) (f : β → Work α) (s : Session) :
    (orStop stop result >>= f).run.run s =
      match result with
      | .ok b => (f b).run.run s
      | .error e => (.error (stop e), s) := by
  cases result <;> rfl

theorem say_store (notices : List Message.Notice) (s : Session) :
    ((say notices).run.run s).2.store = s.store := by
  unfold say
  rw [run_get]
  dsimp only
  rw [run_set]
  cases (Message.wordAll s.voice s.catalogs notices).error <;> rfl

theorem reportOn_store (c : Configuration) (files : List Merge.TypeFile) (s : Session) :
    ((reportOn c files).run.run s).2.store = s.store := by
  unfold reportOn
  simp only [ExceptT.run_bind, StateT.run_bind]
  have hsay := say_store
    (Merge.Undocumented.collect c.policy ((Merge.inOrder files).map (·.type))).notices s
  revert hsay
  generalize (say _).run.run s = said
  obtain ⟨outcome, after⟩ := said
  intro hsay
  cases outcome <;> exact hsay

end Work

namespace Merge

-- ---------------------------------------------------------------------------
-- Reports
-- ---------------------------------------------------------------------------

/-- Every list of a report is part of the same list of another, in its order. -/
structure Undocumented.Within (a b : Undocumented) : Prop where
  summaries : a.summaries.Sublist b.summaries
  remarks : a.remarks.Sublist b.remarks
  returns : a.returns.Sublist b.returns
  values : a.values.Sublist b.values
  params : a.params.Sublist b.params
  typeparams : a.typeparams.Sublist b.typeparams
  exceptions : a.exceptions.Sublist b.exceptions

namespace Undocumented

theorem Within.refl (a : Undocumented) : a.Within a := by
  constructor <;> exact List.Sublist.refl _

variable {a a' b b' : Undocumented}

theorem Within.append (h : a.Within b) (h' : a'.Within b') :
    (a.append a').Within (b.append b') where
  summaries := h.summaries.append h'.summaries
  remarks := h.remarks.append h'.remarks
  returns := h.returns.append h'.returns
  values := h.values.append h'.values
  params := h.params.append h'.params
  typeparams := h.typeparams.append h'.typeparams
  exceptions := h.exceptions.append h'.exceptions

theorem Within.total_le (h : a.Within b) : a.total ≤ b.total := by
  have hsummaries := h.summaries.length_le
  have hremarks := h.remarks.length_le
  have hreturns := h.returns.length_le
  have hvalues := h.values.length_le
  have hparams := h.params.length_le
  have htypeparams := h.typeparams.length_le
  have hexceptions := h.exceptions.length_le
  simp only [total]
  omega

end Undocumented

-- ---------------------------------------------------------------------------
-- An entry
-- ---------------------------------------------------------------------------

/-- What has a property at the end stood in the same place at the beginning, so the rows with the
property are a part of those at the beginning. -/
theorem filter_sublist_of_places {p : β → Bool} {before after : List β}
    (h : ∀ (place : Nat) (x : β), after[place]? = some x → p x = true → before[place]? = some x) :
    (after.filter p).Sublist (before.filter p) := by
  induction after generalizing before with
  | nil => exact List.nil_sublist _
  | cons x after ih =>
    have hrest : (after.filter p).Sublist (before.tail.filter p) := ih fun place y hy hp => by
      rw [List.getElem?_tail]
      exact h (place + 1) y hy hp
    have htail : (before.tail.filter p).Sublist (before.filter p) :=
      (List.tail_sublist before).filter p
    cases hx : p x with
    | false =>
      rw [List.filter_cons_of_neg (by simp [hx])]
      exact hrest.trans htail
    | true =>
      obtain ⟨y, rest, rfl⟩ : ∃ y rest, before = y :: rest :=
        List.exists_cons_of_ne_nil fun hnil => by simpa [hnil] using h 0 x rfl hx
      obtain rfl : y = x := by simpa using h 0 x rfl hx
      rw [List.filter_cons_of_pos hx, List.filter_cons_of_pos hx]
      exact hrest.cons_cons y

theorem TextTaken.of_undocumented (h : TextTaken offered before after) (hafter : after = some text)
    (hempty : isUndocumented text = true) : before = some text := by
  refine Decidable.byContradiction fun hne => ?_
  obtain ⟨_, -, -, hdoc⟩ := h text hafter hne
  simp [hempty] at hdoc

theorem ifEmpty_sublist (docId : String) (h : TextTaken offered before after) :
    (Undocumented.ifEmpty docId after).Sublist (Undocumented.ifEmpty docId before) := by
  cases hafter : after with
  | none => exact List.nil_sublist _
  | some text =>
    cases hempty : isUndocumented text with
    | false => simp [Undocumented.ifEmpty, hempty]
    | true => rw [h.of_undocumented hafter hempty]

theorem lacksText_sublist (docId : String) (h : TextTaken offered before after)
    (habsent : after = none ↔ before = none) :
    (if lacksText after then [docId] else []).Sublist
      (if lacksText before then [docId] else []) := by
  cases hafter : after with
  | none => rw [habsent.mp hafter]
  | some text =>
    cases hempty : isUndocumented text with
    | false => simp [lacksText, hempty]
    | true => rw [h.of_undocumented hafter hempty]

theorem emptyNames_sublist (docId : String) {offered : String → String → Prop}
    {before after : NamedTexts}
    (hnames : after.names = before.names)
    (h : ∀ name, TextTaken (offered name) (before.lookup name) (after.lookup name)) :
    (Undocumented.emptyNames docId after.toList).Sublist
      (Undocumented.emptyNames docId before.toList) := by
  refine (filter_sublist_of_places fun place pair hpair hempty => ?_).map _
  obtain ⟨name, text⟩ := pair
  have hknown : before.lookup name = some text :=
    (h name).of_undocumented (NamedTexts.mem_toList_iff.mp (List.mem_of_getElem? hpair)) hempty
  -- The pair stands at the place of its name, which is the same in both lists.
  have hname : before.names[place]? = some name := by
    rw [← hnames, NamedTexts.names, List.getElem?_map, hpair]
    rfl
  rw [NamedTexts.names, List.getElem?_map, Option.map_eq_some_iff] at hname
  obtain ⟨⟨_, other⟩, hother, rfl⟩ := hname
  have hlookup := NamedTexts.mem_toList_iff.mp (List.mem_of_getElem? hother)
  rw [hother, ← Option.some.inj (hknown.symm.trans hlookup)]

theorem emptyExceptions_sublist (docId : String) {before after source : List ExceptionDoc}
    (h : ∀ (place : Nat) (e : ExceptionDoc), after[place]? = some e →
      before[place]? = some e ∨ IsTakenFrom source e) :
    (Undocumented.emptyNames docId (after.map fun x => (x.cref, x.text))).Sublist
      (Undocumented.emptyNames docId (before.map fun x => (x.cref, x.text))) := by
  simp only [Undocumented.emptyNames, List.filter_map, List.map_map]
  refine (filter_sublist_of_places fun place e he hempty => ?_).map _
  refine (h place e he).resolve_right fun ⟨x, _, hdoc, htext, _⟩ => ?_
  have hempty : isUndocumented e.text = true := hempty
  rw [htext, isUndocumented_trimmed, hdoc] at hempty
  exact Bool.noConfusion hempty

theorem DocsTaken.within (h : DocsTaken offers source before.docs after.docs)
    (hkept : EntryKept policy before after) :
    (Undocumented.ofEntry after).Within (Undocumented.ofEntry before) := by
  have hdocId : after.docId = before.docId := by rw [Entry.docId, hkept.node, Entry.docId]
  unfold Undocumented.ofEntry
  rw [hdocId]
  exact ⟨lacksText_sublist _ (h.scalar .summary) (hkept.docs.absent .summary),
    ifEmpty_sublist _ (h.scalar .remarks), ifEmpty_sublist _ (h.scalar .returns),
    ifEmpty_sublist _ (h.scalar .value),
    emptyNames_sublist _ (hkept.docs.names .param) (h.named .param),
    emptyNames_sublist _ (hkept.docs.names .typeparam) (h.named .typeparam),
    emptyExceptions_sublist _ h.exceptions⟩

-- ---------------------------------------------------------------------------
-- A type
-- ---------------------------------------------------------------------------

def FillsGaps (before after : Entry) : Prop :=
  (Undocumented.ofEntry after).Within (Undocumented.ofEntry before)

/-- A type with the same node, in which gaps have been filled entry by entry. -/
structure TypeFillsGaps (before after : ApiType) : Prop where
  node : after.entry.node = before.entry.node
  entries : List.Forall₂ FillsGaps (before.entry :: before.members) (after.entry :: after.members)

theorem FillsGaps.refl (e : Entry) : FillsGaps e e := Undocumented.Within.refl _

theorem TypeFillsGaps.refl (t : ApiType) : TypeFillsGaps t t :=
  ⟨rfl, List.forall₂_same.mpr fun e _ => .refl e⟩

theorem EntryPorted.fillsGaps (h : EntryPorted policy offers source before after) :
    FillsGaps before after :=
  h.taken.within h.kept

theorem mergeType_fillsGaps (policy : Policy) (interfaces : InterfaceRemarks) (index : SourceIndex)
    (type : ApiType) : TypeFillsGaps type (mergeType policy interfaces index type).type := by
  cases hsource : index.findType? type.key with
  | none =>
    rw [mergeType_of_unmatched policy interfaces index type hsource]
    exact .refl type
  | some source =>
    obtain ⟨⟨written, hentry⟩, hmembers⟩ := mergeType_entries policy interfaces index type hsource
    have hown := mergeTypeEntry_ported policy type.entry source
    refine ⟨hentry ▸ hown.kept.node, .cons ?_ (hmembers.imp fun m m' hm => ?_)⟩
    · rw [hentry]
      exact (hown.taken.markIf written).within ⟨hown.kept.node, hown.kept.docs.markIf written⟩
    · rcases hm with rfl | ⟨s, -, rfl⟩
      · exact .refl m'
      · exact (mergeMember_ported policy interfaces type.docId m s).fillsGaps

-- ---------------------------------------------------------------------------
-- A run
-- ---------------------------------------------------------------------------

def reportedEntries (policy : Policy) (types : List ApiType) : List Entry :=
  (types.filter fun t => policy.includesType t.entry.node).flatMap fun t => t.entry :: t.members

theorem foldl_within {before after : List Entry} (h : List.Forall₂ FillsGaps before after)
    {a b : Undocumented} (hstart : a.Within b) :
    (after.foldl (fun report e => report.append (.ofEntry e)) a).Within
      (before.foldl (fun report e => report.append (.ofEntry e)) b) := by
  induction h generalizing a b with
  | nil => exact hstart
  | cons hhead _ ih => exact ih (hstart.append hhead)

theorem reportedEntries_fillGaps (policy : Policy) {before after : List ApiType}
    (h : List.Forall₂ TypeFillsGaps before after) :
    List.Forall₂ FillsGaps (reportedEntries policy before) (reportedEntries policy after) := by
  induction h with
  | nil => exact .nil
  | @cons t t' before after hhead _ ih =>
    simp only [reportedEntries, List.filter_cons, hhead.node]
    split
    · exact List.rel_append hhead.entries ih
    · exact ih

/-- Types in which gaps have been filled are reported with no line that was not there before. -/
theorem collect_within (policy : Policy) {before after : List ApiType}
    (h : List.Forall₂ TypeFillsGaps before after) :
    (Undocumented.collect policy after).Within (Undocumented.collect policy before) :=
  foldl_within (reportedEntries_fillGaps policy h) (.refl {})

/-- What is reported after a run is part of what would have been reported before it, whatever the
policy of the run and that of the report, and making a report leaves all files as they are. -/
theorem run_leaves_no_gaps (setting : Setting α) (root : Files.Path) (store : Files.Store)
    (documents : List (Document α)) (policy : Policy) :
    let before := Undocumented.collect policy ((inOrder documents).map (·.type))
    let after := Undocumented.collect policy
      ((run setting root store documents).documents.map (·.type))
    after.Within before ∧ after.total ≤ before.total ∧
      ∀ (c : Configuration) (files : List TypeFile) (s : Session),
        ((Work.reportOn c files).run.run s).2.store = s.store := by
  have htypes : List.Forall₂ TypeFillsGaps ((inOrder documents).map (·.type))
      ((run setting root store documents).documents.map (·.type)) := by
    rw [List.forall₂_map_left_iff, List.forall₂_map_right_iff]
    refine (run_documents setting root store documents).imp fun d d' hd => ?_
    rcases hd with rfl | ⟨-, rfl⟩
    · exact .refl d'.type
    · exact mergeType_fillsGaps setting.policy setting.interfaces setting.index d.type
  have hwithin := collect_within policy htypes
  exact ⟨hwithin, hwithin.total_le, Work.reportOn_store⟩

end Merge

end DocMerge

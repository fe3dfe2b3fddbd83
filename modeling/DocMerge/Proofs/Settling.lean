import DocMerge.Proofs.Composing
import DocMerge.Proofs.Idempotence
import DocMerge.Proofs.Preservation
import DocMerge.Proofs.Reporting

/-!
# When interface remarks settle

What a member receives from the interface members that it implements has been taken down before a
run. A member without remarks is taken down with those of its source, although the run also gives it
the notes and the blocks that it receives as an implementation. `remarks_settle_iff`: a second run
leaves all remarks alone exactly if no member that the first one leaves without remarks implements a
member that is taken down without remarks and receives some.
-/

namespace DocMerge.Merge

open DocId (Key)

section
variable {α : Type}

-- ---------------------------------------------------------------------------
-- Remarks after a run
-- ---------------------------------------------------------------------------

section
variable (setting : Setting α) (d : Document α) (m : Entry)

def reaches : Bool := isIncluded setting d && (setting.index.findType? d.type.key).isSome

def offeredRemarks? : Option String :=
  if reaches setting d then
    match matchMember setting.policy setting.index d.type.key m with
    | .matched source =>
      (composeRemarks setting.policy setting.interfaces d.type.docId m.node source.docs).2.toOption
    | _ => none
  else none

def Fills : Prop :=
  m.docs.remarks.any isUndocumented = true ∧
    ∃ text, offeredRemarks? setting d m = some text ∧ isUndocumented text = false

/-- A run comes to a member that is open for remarks, and has none for it. -/
def StaysEmpty : Prop :=
  m.docs.remarks.any isUndocumented = true ∧
    ∃ text, offeredRemarks? setting d m = some text ∧ isUndocumented text = true

def documentAfter : Document α := if isIncluded setting d then mergedDocument setting d else d

def memberAfter : Entry :=
  if reaches setting d then
    (mergePaired setting.policy setting.interfaces d.type.docId
      (m, matchMember setting.policy setting.index d.type.key m)).entry
  else m

def Merging : Prop := isIncluded setting d = true → (mergeOf setting d).fault = none

variable {setting d m}

theorem documentAfter_node : (documentAfter setting d).type.entry.node = d.type.entry.node := by
  unfold documentAfter
  split
  · exact (mergeType_kept setting.policy setting.interfaces setting.index d.type).entry.node
  · rfl

theorem documentAfter_members (h : Merging setting d) :
    (documentAfter setting d).type.members = d.type.members.map (memberAfter setting d) := by
  unfold documentAfter memberAfter reaches
  split
  · rename_i hincluded
    have hok := h hincluded
    unfold mergeOf at hok
    cases hsource : setting.index.findType? d.type.key with
    | none =>
      simp [mergedDocument, mergeOf, mergeType_of_unmatched _ _ _ _ hsource]
    | some source =>
      obtain ⟨hown, hmembers⟩ := mergeType_fault_eq_none _ _ _ _ hsource hok
      obtain ⟨written, htype⟩ := mergeType_type_of_ok _ _ _ _ hsource hown hmembers
      simp [mergedDocument, mergeOf, htype, hincluded]
  · rename_i hexcluded
    simp [hexcluded]

variable (hcopies : CopiesRemarks setting.policy)
  (hpolicy : setting.interfaces.policy = setting.policy)

theorem memberOffer_of_copies {policy : Policy} (hcopies : CopiesRemarks policy)
    (interfaces : InterfaceRemarks) (ownerId : String) (node : ApiNode) (source : DocFields) :
    memberOffer policy interfaces ownerId node source =
      (composeRemarks policy interfaces ownerId node source).2.map fun text =>
        .ofSource source (some text) (incomingValue node source) := by
  simp only [memberOffer, memberRemarks, hcopies.members, offerOf, if_true]
  cases (composeRemarks policy interfaces ownerId node source).2 <;> rfl

theorem mergeMember_fault_eq_none_iff {policy : Policy} {interfaces : InterfaceRemarks}
    (hcopies : CopiesRemarks policy) {source : Entry} :
    (mergeMember policy interfaces ownerId m source).fault = none ↔
      ∃ text, (composeRemarks policy interfaces ownerId m.node source.docs).2 = .ok text := by
  have hoffer := memberOffer_of_copies hcopies interfaces ownerId m.node source.docs
  cases hremarks : (composeRemarks policy interfaces ownerId m.node source.docs).2 with
  | error fault =>
    rw [hremarks] at hoffer
    simp [(mergeMember_of_error hoffer).fault]
  | ok text =>
    rw [hremarks] at hoffer
    simp [(mergeMember_of_ok hoffer).fault]

theorem memberAfter_node : (memberAfter setting d m).node = m.node := by
  unfold memberAfter
  split
  · cases hfound : matchMember setting.policy setting.index d.type.key m with
    | matched source => exact (mergeMember_ported _ _ _ m source).kept.node
    | skipped | malformed | unmatched => rfl
  · rfl

include hcopies

theorem memberAfter_remarks (h : Merging setting d) (hm : m ∈ d.type.members) :
    (memberAfter setting d m).docs.remarks =
      settled setting.policy .remarks m.docs.remarks (offeredRemarks? setting d m) := by
  unfold memberAfter offeredRemarks?
  split
  · rename_i hreaches
    obtain ⟨hincluded, hsome⟩ := Bool.and_eq_true_iff.mp hreaches
    obtain ⟨source, hsource⟩ := Option.isSome_iff_exists.mp hsome
    have hfaults := (mergeType_fault_eq_none _ _ _ _ hsource (h hincluded)).2
    have hpaired := hfaults _ (List.mem_map_of_mem hm)
    cases hfound : matchMember setting.policy setting.index d.type.key m with
    | matched source =>
      rw [hfound, mergePaired_matched, mergeMember_fault_eq_none_iff hcopies] at hpaired
      obtain ⟨text, htext⟩ := hpaired
      have hoffer := memberOffer_of_copies hcopies setting.interfaces d.type.docId
        m.node source.docs
      rw [htext] at hoffer
      simp only [htext, Except.toOption]
      exact (mergeMember_of_ok hoffer).fields.scalar .remarks
    | skipped | malformed | unmatched => simp [mergePaired, MemberMatch.source?]
  · simp

theorem taken?_remarks_isSome_iff :
    (taken? setting.policy .remarks m.docs.remarks (offeredRemarks? setting d m)).isSome ↔
      Fills setting d m := by
  rw [Option.isSome_iff_exists]
  simp only [taken?_eq_some_iff, hcopies.overwritten, Fills, List.not_mem_nil, false_and, or_false]
  constructor
  · rintro ⟨_, known, text, hknown, htext, rfl, hdoc, hopen⟩
    exact ⟨by simp [hknown, hopen], text, htext, by simpa using hdoc⟩
  · rintro ⟨hopen, text, htext, hdoc⟩
    obtain ⟨known, hknown⟩ : ∃ known, m.docs.remarks = some known := by
      cases hremarks : m.docs.remarks <;> simp_all
    exact ⟨_, known, text, hknown, htext, rfl, by simpa using hdoc, by simpa [hknown] using hopen⟩

theorem memberAfter_remarks_of_fills (h : Merging setting d) (hm : m ∈ d.type.members)
    (hfills : Fills setting d m) :
    ∃ text, (memberAfter setting d m).docs.remarks = some text ∧ isUndocumented text = false := by
  obtain ⟨text, htext⟩ :=
    Option.isSome_iff_exists.mp ((taken?_remarks_isSome_iff hcopies).mpr hfills)
  obtain ⟨-, -, -, -, -, hdoc, -⟩ := taken?_eq_some_iff.mp htext
  exact ⟨text, by rw [memberAfter_remarks hcopies h hm, settled, htext, Option.some_or], hdoc⟩

theorem memberAfter_remarks_eq_iff (h : Merging setting d) (hm : m ∈ d.type.members) :
    (memberAfter setting d m).docs.remarks = m.docs.remarks ↔ ¬ Fills setting d m := by
  rw [memberAfter_remarks hcopies h hm, ← taken?_remarks_isSome_iff hcopies,
    ← settled_ne_iff, not_not]

end

-- ---------------------------------------------------------------------------
-- Remarks as they are taken down again
-- ---------------------------------------------------------------------------

theorem mem_of_holder? {documents : List (Document α)} (h : holder? documents docId = some (d, m)) :
    d ∈ documents ∧ m ∈ d.type.members := by
  have hmem := List.mem_of_find?_eq_some h
  rw [List.mem_reverse, List.mem_flatMap] at hmem
  obtain ⟨d', hd', hmem⟩ := hmem
  obtain ⟨m', hm', heq⟩ := List.mem_map.mp hmem
  obtain ⟨rfl, rfl⟩ := Prod.mk.injEq _ _ _ _ ▸ heq
  exact ⟨hd', hm'⟩

section
variable {setting : Setting α} {documents : List (Document α)}
  (hmerging : ∀ d ∈ documents, Merging setting d)

/-- An interface member whose remarks come too late: it is taken down without any, and then receives
some. -/
def ArrivesLate (setting : Setting α) (documents : List (Document α)) (docId : String) : Prop :=
  ∃ d m, holder? documents docId = some (d, m) ∧
    setting.interfaces.settledRemarks m = .ok none ∧ Fills setting d m

include hmerging

theorem holder?_after (docId : String) :
    holder? (documents.map (documentAfter setting)) docId =
      (holder? documents docId).map fun m =>
        (documentAfter setting m.1, memberAfter setting m.1 m.2) := by
  have hmembers : ((documents.map (documentAfter setting)).flatMap fun d =>
      d.type.members.map (d, ·)) =
      (documents.flatMap fun d => d.type.members.map (d, ·)).map
        fun m => (documentAfter setting m.1, memberAfter setting m.1 m.2) := by
    rw [List.flatMap_map, List.map_flatMap]
    refine List.flatMap_congr fun d hd => ?_
    simp [documentAfter_members (hmerging d hd)]
  rw [holder?, hmembers, ← List.map_reverse, List.find?_map]
  refine congrArg _ (congrFun (congrArg _ ?_) _)
  funext m
  simp only [Function.comp_apply, Entry.key, memberAfter_node]

variable (hcopies : CopiesRemarks setting.policy)
include hcopies

theorem settledRemarks_after_isOk (hd : d ∈ documents) (hm : m ∈ d.type.members)
    (hok : ∃ remarks, setting.interfaces.settledRemarks m = .ok remarks) :
    ∃ remarks, setting.interfaces.settledRemarks (memberAfter setting d m) = .ok remarks := by
  by_cases hfills : Fills setting d m
  · obtain ⟨text, htext, hdoc⟩ := memberAfter_remarks_of_fills hcopies (hmerging d hd) hm hfills
    exact ⟨_, InterfaceRemarks.settledRemarks_of_documented htext hdoc⟩
  · rwa [InterfaceRemarks.settledRemarks_congr rfl (congrArg ApiNode.docId memberAfter_node)
      ((memberAfter_remarks_eq_iff hcopies (hmerging d hd) hm).mpr hfills)]

variable (htaken : InterfaceRemarks.ofTypes setting.policy (some setting.index)
  (documents.map (·.type)) = .ok setting.interfaces)
include htaken

/-- After a run without a fault, remarks can be taken down again. -/
theorem ofTypes_after :
    ∃ s, InterfaceRemarks.ofTypes setting.policy (some setting.index)
      ((documents.map (documentAfter setting)).map (·.type)) = .ok s := by
  refine ⟨_, InterfaceRemarks.ofTypes_eq_ok_iff.mpr ⟨fun d' hd' m' hm' hkey => ?_, rfl⟩⟩
  obtain ⟨hok, hinterfaces⟩ := InterfaceRemarks.ofTypes_eq_ok_iff.mp htaken
  obtain ⟨d, hd, rfl⟩ := List.mem_map.mp hd'
  rw [documentAfter_members (hmerging d hd)] at hm'
  obtain ⟨m, hm, rfl⟩ := List.mem_map.mp hm'
  have hsettled := settledRemarks_after_isOk hmerging hcopies hd hm
  rw [hinterfaces] at hsettled
  refine hsettled (hok d hd m hm ?_)
  rwa [Entry.key, memberAfter_node] at hkey

variable {s : InterfaceRemarks}
  (hagain : InterfaceRemarks.ofTypes setting.policy (some setting.index)
    ((documents.map (documentAfter setting)).map (·.type)) = .ok s)
include hagain

theorem lookup_after_of_not_fills
    (hnot : ∀ d m, holder? documents docId = some (d, m) → ¬ Fills setting d m) :
    s.lookup docId = setting.interfaces.lookup docId := by
  have hindex : s.index = setting.interfaces.index := by
    rw [(InterfaceRemarks.ofTypes_eq_ok_iff.mp hagain).2,
      (InterfaceRemarks.ofTypes_eq_ok_iff.mp htaken).2]
  have hbefore := InterfaceRemarks.lookup_of_ofTypes htaken docId
  have hafter := InterfaceRemarks.lookup_of_ofTypes hagain docId
  rw [holder?_after hmerging] at hafter
  cases hholder : holder? documents docId with
  | none =>
    rw [hholder] at hbefore hafter
    rw [hbefore, hafter]
    simp only [InterfaceRemarks.findSource?, hindex]
    rfl
  | some found =>
    obtain ⟨d, m⟩ := found
    obtain ⟨hd, hm⟩ := mem_of_holder? hholder
    rw [hholder] at hbefore hafter
    dsimp only [Option.map_some] at hbefore hafter
    rw [hbefore, hafter,
      InterfaceRemarks.settledRemarks_congr hindex (congrArg ApiNode.docId memberAfter_node)
      ((memberAfter_remarks_eq_iff hcopies (hmerging d hd) hm).mpr (hnot d m hholder))]

omit htaken in
theorem provides_after_of_fills (hholder : holder? documents docId = some (d, m))
    (hfills : Fills setting d m) :
    s.Provides docId := by
  have hafter := InterfaceRemarks.lookup_of_ofTypes hagain docId
  obtain ⟨hd, hm⟩ := mem_of_holder? hholder
  obtain ⟨text, htext, hdoc⟩ := memberAfter_remarks_of_fills hcopies (hmerging d hd) hm hfills
  rw [holder?_after hmerging, hholder] at hafter
  dsimp only [Option.map_some] at hafter
  rw [InterfaceRemarks.settledRemarks_of_documented htext hdoc] at hafter
  refine ⟨_, hafter, fun hempty => ?_⟩
  simp [isUndocumented, hempty] at hdoc

omit hmerging hcopies hagain in
/-- An interface member that can be looked up and has no remarks to copy is taken down without
any. -/
theorem settledRemarks_eq_none (hok : ∃ found, setting.interfaces.lookup docId = .ok found)
    (hnone : ¬ setting.interfaces.Provides docId)
    (hholder : holder? documents docId = some (d, m)) :
    setting.interfaces.settledRemarks m = .ok none := by
  have hbefore := InterfaceRemarks.lookup_of_ofTypes htaken docId
  rw [hholder] at hbefore
  dsimp only at hbefore
  cases hsettled : setting.interfaces.settledRemarks m with
  | error fault => simp [hbefore, hsettled, Except.map] at hok
  | ok remarks =>
    cases remarks with
    | none => rfl
    | some known =>
      rw [hsettled] at hbefore
      exact absurd ⟨known, hbefore, InterfaceRemarks.settledRemarks_ne_empty hsettled⟩ hnone

/-- What can be looked up after a run could be looked up before, and what is new there arrives
late. -/
theorem lookup_after (hok : ∃ found, setting.interfaces.lookup docId = .ok found) :
    (∃ found, s.lookup docId = .ok found) ∧
      (¬ setting.interfaces.Provides docId →
        (s.Provides docId ↔ ArrivesLate setting documents docId)) := by
  by_cases hfills : ∃ d m, holder? documents docId = some (d, m) ∧ Fills setting d m
  · obtain ⟨d, m, hholder, hfills⟩ := hfills
    have hprovides := provides_after_of_fills hmerging hcopies hagain hholder hfills
    refine ⟨?_, fun hnone => iff_of_true hprovides ?_⟩
    · obtain ⟨text, hlookup, -⟩ := hprovides
      exact ⟨_, hlookup⟩
    · exact ⟨d, m, hholder, settledRemarks_eq_none htaken hok hnone hholder, hfills⟩
  · have hsame : s.lookup docId = setting.interfaces.lookup docId :=
      lookup_after_of_not_fills hmerging hcopies htaken hagain fun d m hholder h =>
        hfills ⟨d, m, hholder, h⟩
    refine ⟨hsame ▸ hok, fun hnone => iff_of_false ?_ ?_⟩
    · rwa [InterfaceRemarks.Provides, hsame]
    · rintro ⟨d, m, hholder, -, h⟩
      exact hfills ⟨d, m, hholder, h⟩

/-- Remarks that could be composed can be composed again. They count now and did not before if an
interface member has remarks that arrive late. -/
theorem composeRemarks_after {source : DocFields}
    (hok : (composeRemarks setting.policy setting.interfaces ownerId node source).2 = .ok text) :
    ∃ text', (composeRemarks setting.policy s ownerId node source).2 = .ok text' ∧
      (isUndocumented text = true → (isUndocumented text' = false ↔
        ∃ docId ∈ node.interfaceMembers, ArrivesLate setting documents docId)) := by
  have hpolicy : setting.interfaces.policy = setting.policy := by
    rw [(InterfaceRemarks.ofTypes_eq_ok_iff.mp htaken).2]
  have hpolicy' : s.policy = setting.policy := by
    rw [(InterfaceRemarks.ofTypes_eq_ok_iff.mp hagain).2]
  obtain ⟨hall, own, hown, hcounts⟩ := composeRemarks_of_ok hcopies hpolicy hok
  have hlookup := fun docId hdocId =>
    lookup_after hmerging hcopies htaken hagain (hall docId hdocId)
  obtain ⟨text', htext'⟩ := (composeRemarks_isOk_iff hcopies hpolicy').mpr
    ⟨⟨own, hown⟩, fun docId hdocId => (hlookup docId hdocId).1⟩
  obtain ⟨-, own', hown', hcounts'⟩ := composeRemarks_of_ok hcopies hpolicy' htext'
  obtain rfl : own = own' := by simpa [hown] using hown'
  refine ⟨text', htext', fun hempty => ?_⟩
  obtain ⟨hownEmpty, hnotes, hnone⟩ := hcounts.mp hempty
  rw [← Bool.not_eq_true, hcounts']
  simp only [hownEmpty, hnotes, true_and, not_forall, not_not, exists_prop]
  exact exists_congr fun docId => and_congr_right fun hdocId =>
    (hlookup docId hdocId).2 (hnone docId hdocId)

end

-- ---------------------------------------------------------------------------
-- A second run
-- ---------------------------------------------------------------------------

theorem mergeType_fault_eq_none_iff {policy : Policy} (hcopies : CopiesRemarks policy)
    {interfaces : InterfaceRemarks} {index : SourceIndex} {type : ApiType} :
    (mergeType policy interfaces index type).fault = none ↔
      ∀ source, index.findType? type.key = some source →
        (∃ offer, typeOffer policy source.docs = .ok offer) ∧
        ∀ m ∈ type.members, ∀ paired, matchMember policy index type.key m = .matched paired →
          ∃ text, (composeRemarks policy interfaces type.docId m.node paired.docs).2 =
          .ok text := by
  constructor
  · intro hok source hsource
    obtain ⟨hown, hmembers⟩ := mergeType_fault_eq_none policy interfaces index type hsource hok
    refine ⟨?_, fun m hm paired hpaired => ?_⟩
    · cases hoffer : typeOffer policy source.docs with
      | ok offer => exact ⟨offer, rfl⟩
      | error fault => simp [(mergeTypeEntry_of_error hoffer).fault] at hown
    · have hfault := hmembers _ (List.mem_map_of_mem hm)
      rwa [hpaired, mergePaired_matched, mergeMember_fault_eq_none_iff hcopies] at hfault
  · intro hok
    cases hsource : index.findType? type.key with
    | none => rw [mergeType_of_unmatched policy interfaces index type hsource]
    | some source =>
      obtain ⟨⟨offer, hoffer⟩, hmembers⟩ := hok source hsource
      rw [mergeType_of_ok policy interfaces index type hsource (mergeTypeEntry_of_ok hoffer).fault]
      · rfl
      · intro m hm
        obtain ⟨member, hmember, rfl⟩ := List.mem_map.mp hm
        cases hpaired : matchMember policy index type.key member with
        | matched paired =>
          rw [mergePaired_matched, mergeMember_fault_eq_none_iff hcopies]
          exact hmembers member hmember paired hpaired
        | skipped | malformed | unmatched => rfl

section
variable {setting : Setting α} {documents : List (Document α)}
  (hmerging : ∀ d ∈ documents, Merging setting d) (hcopies : CopiesRemarks setting.policy)
  (htaken : InterfaceRemarks.ofTypes setting.policy (some setting.index)
    (documents.map (·.type)) = .ok setting.interfaces)
  {s : InterfaceRemarks}
  (hagain : InterfaceRemarks.ofTypes setting.policy (some setting.index)
    ((documents.map (documentAfter setting)).map (·.type)) = .ok s)
include hmerging hcopies htaken hagain

theorem merging_again (hd : d ∈ documents) :
    Merging { setting with interfaces := s } (documentAfter setting d) := by
  intro hincluded
  rw [isIncluded, documentAfter_node] at hincluded
  have hok := hmerging d hd hincluded
  rw [mergeOf, mergeType_fault_eq_none_iff hcopies] at hok ⊢
  intro source hsource
  have hkey : (documentAfter setting d).type.key = d.type.key :=
    congrArg ApiNode.key documentAfter_node
  have hdocId : (documentAfter setting d).type.docId = d.type.docId :=
    congrArg ApiNode.docId documentAfter_node
  rw [hkey] at hsource ⊢
  rw [hdocId]
  obtain ⟨hoffer, hmembers⟩ := hok source hsource
  refine ⟨hoffer, fun m' hm' paired hpaired => ?_⟩
  rw [documentAfter_members (hmerging d hd)] at hm'
  obtain ⟨m, hm, rfl⟩ := List.mem_map.mp hm'
  obtain ⟨text, htext⟩ := hmembers m hm paired (matchMember_congr memberAfter_node ▸ hpaired)
  obtain ⟨text', htext', -⟩ := composeRemarks_after hmerging hcopies htaken hagain htext
  exact ⟨text', by rwa [memberAfter_node]⟩

omit hmerging hcopies htaken hagain in
theorem offeredRemarks?_after :
    offeredRemarks? { setting with interfaces := s } (documentAfter setting d)
      (memberAfter setting d m) =
      offeredRemarks? { setting with interfaces := s } d m := by
  have hkey : (documentAfter setting d).type.key = d.type.key :=
    congrArg ApiNode.key documentAfter_node
  have hdocId : (documentAfter setting d).type.docId = d.type.docId :=
    congrArg ApiNode.docId documentAfter_node
  simp only [offeredRemarks?, reaches, isIncluded, documentAfter_node, hkey,
    hdocId, memberAfter_node,
    matchMember_congr memberAfter_node]
  rfl

theorem offeredRemarks?_again (hd : d ∈ documents) (hm : m ∈ d.type.members) :
    (offeredRemarks? setting d m = none ∧
      offeredRemarks? { setting with interfaces := s } d m = none) ∨
    ∃ text text', offeredRemarks? setting d m = some text ∧
      offeredRemarks? { setting with interfaces := s } d m = some text' ∧
      (isUndocumented text = true → (isUndocumented text' = false ↔
        ∃ docId ∈ m.node.interfaceMembers, ArrivesLate setting documents docId)) := by
  have hsame : reaches { setting with interfaces := s } d = reaches setting d := rfl
  simp only [offeredRemarks?, hsame]
  split
  · rename_i hreaches
    obtain ⟨hincluded, hsome⟩ := Bool.and_eq_true_iff.mp hreaches
    obtain ⟨source, hsource⟩ := Option.isSome_iff_exists.mp hsome
    have hok := hmerging d hd hincluded
    rw [mergeOf, mergeType_fault_eq_none_iff hcopies] at hok
    cases hfound : matchMember setting.policy setting.index d.type.key m with
    | matched paired =>
      obtain ⟨text, htext⟩ := (hok source hsource).2 m hm paired hfound
      obtain ⟨text', htext', hcounts⟩ := composeRemarks_after hmerging hcopies htaken hagain htext
      exact .inr
        ⟨text, text', by simp [htext, Except.toOption], by simp [htext', Except.toOption], hcounts⟩
    | skipped | malformed | unmatched => exact .inl ⟨rfl, rfl⟩
  · exact .inl ⟨rfl, rfl⟩

/-- A second run gives remarks to the members that the first one has left without any and whose
interface members have some only now. -/
theorem fills_again_iff (hd : d ∈ documents) (hm : m ∈ d.type.members) :
    Fills { setting with interfaces := s } (documentAfter setting d) (memberAfter setting d m) ↔
      StaysEmpty setting d m ∧ ∃ docId ∈ m.node.interfaceMembers,
      ArrivesLate setting documents docId := by
  rw [Fills, offeredRemarks?_after]
  by_cases hfills : Fills setting d m
  · -- A member that has received remarks has remarks that count.
    obtain ⟨text, htext, hdoc⟩ := memberAfter_remarks_of_fills hcopies (hmerging d hd) hm hfills
    obtain ⟨-, offered, hoffered, hcounts⟩ := hfills
    simp [htext, hdoc, StaysEmpty, hoffered, hcounts]
  · rw [(memberAfter_remarks_eq_iff hcopies (hmerging d hd) hm).mpr hfills]
    rcases offeredRemarks?_again hmerging hcopies htaken hagain hd hm with
      ⟨hnone, hnone'⟩ | ⟨text, text', htext, htext', hcounts⟩
    · simp [StaysEmpty, hnone, hnone']
    · simp only [Fills, StaysEmpty, htext, htext', Option.some.injEq, exists_eq_left'] at hfills ⊢
      rw [and_assoc]
      refine and_congr_right fun hopen => ?_
      have hempty : isUndocumented text = true := by simpa [hopen] using hfills
      rw [hcounts hempty, and_iff_right hempty]

end

section
variable (setting : Setting α) (root root' : Files.Path) (store store' : Files.Store)
  (documents : List (Document α))

def allRemarks (documents : List (Document α)) : List (List (Option String)) :=
  documents.map fun d => d.type.members.map (·.docs.remarks)

theorem documents_of_merging (hmerging : ∀ d ∈ inOrder documents, Merging setting d) :
    (run setting root store documents).documents =
    (inOrder documents).map (documentAfter setting) := by
  rw [run_documents_eq, (Merges.ofDocuments_completes setting documents hmerging).documents]
  rfl

theorem allRemarks_after_iff {documents : List (Document α)}
    (hcopies : CopiesRemarks setting.policy)
    (hmerging : ∀ d ∈ documents, Merging setting d) :
    allRemarks (documents.map (documentAfter setting)) = allRemarks documents ↔
      ∀ d ∈ documents, ∀ m ∈ d.type.members, ¬ Fills setting d m := by
  rw [allRemarks, allRemarks, List.map_map, List.map_inj_left]
  refine forall₂_congr fun d hd => ?_
  simp only [Function.comp_apply, documentAfter_members (hmerging d hd), List.map_map,
    List.map_inj_left]
  exact forall₂_congr fun m hm => memberAfter_remarks_eq_iff hcopies (hmerging d hd) hm

variable (hcopies : CopiesRemarks setting.policy)
  (htaken : InterfaceRemarks.ofTypes setting.policy (some setting.index)
    ((inOrder documents).map (·.type)) = .ok setting.interfaces)
include hcopies htaken

theorem allRemarks_again_iff (hmerging : ∀ d ∈ inOrder documents, Merging setting d) :
    let first := run setting root store documents
    ∃ interfaces,
      InterfaceRemarks.ofTypes setting.policy (some setting.index) (first.documents.map (·.type)) =
        .ok interfaces ∧
      let second := { setting with interfaces }
      (∀ d ∈ inOrder first.documents, Merging second d) ∧
      (allRemarks (run second root' store' first.documents).documents = allRemarks first.documents ↔
        ∀ d ∈ inOrder documents, ∀ m ∈ d.type.members, StaysEmpty setting d m →
          ∀ docId ∈ m.node.interfaceMembers, ¬ ArrivesLate setting (inOrder documents) docId) := by
  intro first
  have hdocuments : first.documents = (inOrder documents).map (documentAfter setting) :=
    documents_of_merging setting root store documents hmerging
  have hordered : inOrder first.documents = first.documents := by
    rw [hdocuments]
    exact inOrder_map documents _ fun d => congrArg ApiNode.docId documentAfter_node
  obtain ⟨interfaces, hagain⟩ := ofTypes_after hmerging hcopies htaken
  refine ⟨interfaces, by rw [hdocuments]; exact hagain, ?_⟩
  intro second
  have hmergingAgain : ∀ d' ∈ inOrder first.documents, Merging second d' := by
    rw [hordered, hdocuments]
    intro d' hd'
    obtain ⟨d, hd, rfl⟩ := List.mem_map.mp hd'
    exact merging_again hmerging hcopies htaken hagain hd
  refine ⟨hmergingAgain, ?_⟩
  rw [documents_of_merging second root' store' first.documents hmergingAgain, hordered,
    allRemarks_after_iff second hcopies (hordered ▸ hmergingAgain), hdocuments]
  simp only [List.forall_mem_map]
  refine forall₂_congr fun d hd => ?_
  rw [documentAfter_members (hmerging d hd)]
  simp only [List.forall_mem_map]
  refine forall₂_congr fun m hm => ?_
  rw [fills_again_iff hmerging hcopies htaken hagain hd hm]
  simp only [not_and, not_exists]

/-- After a run, remarks can be taken down again and merged again without a fault. The second run
leaves all remarks alone exactly if no member that the first one has left empty implements an
interface member whose remarks arrive late. -/
theorem remarks_settle_iff (hfirst : (run setting root store documents).result = .ok result) :
    let first := run setting root store documents
    ∃ interfaces,
      InterfaceRemarks.ofTypes setting.policy (some setting.index) (first.documents.map (·.type)) =
        .ok interfaces ∧
      let second := { setting with interfaces }
      (Merges.ofDocuments second first.documents).fault = none ∧
      (allRemarks (run second root' store' first.documents).documents = allRemarks first.documents ↔
        ∀ d ∈ documents, ∀ m ∈ d.type.members, StaysEmpty setting d m →
          ∀ docId ∈ m.node.interfaceMembers, ¬ ArrivesLate setting (inOrder documents) docId) := by
  have hfault := (run_result_ok setting hfirst).1
  rw [Merges.ofDocuments_eq] at hfault
  have hmerging : ∀ d ∈ inOrder documents, Merging setting d :=
    ((Merges.foldl_fault setting _ _ _).mp hfault).2
  obtain ⟨interfaces, hagain, hmergingAgain, hiff⟩ :=
    allRemarks_again_iff setting root root' store store' documents hcopies htaken hmerging
  refine ⟨interfaces, hagain, ?_, hiff.trans ?_⟩
  · rw [Merges.ofDocuments_eq]
    exact (Merges.foldl_fault _ _ _ _).mpr ⟨rfl, hmergingAgain⟩
  · exact forall_congr' fun d => by rw [inOrder, List.mem_mergeSort]

end

theorem Small.copiesRemarks : CopiesRemarks (Small.setting false).policy := ⟨rfl, rfl, rfl, rfl⟩

theorem remarks_settle_small :
    ∃ interfaces result,
      let setting := { Small.setting false with interfaces }
      let documents := [Small.stack, Small.queue]
      CopiesRemarks setting.policy ∧
      InterfaceRemarks.ofTypes setting.policy (some setting.index)
        ((inOrder documents).map (·.type)) = .ok setting.interfaces ∧
      (run setting ⟨true, []⟩ {} documents).result = .ok result ∧
      let first := run setting ⟨true, []⟩ {} documents
      ∃ interfaces,
        InterfaceRemarks.ofTypes setting.policy (some setting.index)
          (first.documents.map (·.type)) =
          .ok interfaces ∧
        let second := { setting with interfaces }
        (Merges.ofDocuments second first.documents).fault = none ∧
        (allRemarks (run second ⟨true, []⟩ {} first.documents).documents =
          allRemarks first.documents ↔
          ∀ d ∈ documents, ∀ m ∈ d.type.members, StaysEmpty setting d m →
            ∀ docId ∈ m.node.interfaceMembers,
            ¬ ArrivesLate setting (inOrder documents) docId) := by
  have htaken := InterfaceRemarks.ofTypes_ok (Small.setting false).policy Small.index_plain
    ((inOrder [Small.stack, Small.queue]).map (·.type))
  generalize hinterfaces : InterfaceRemarks.mk _ _ _ = interfaces at htaken
  have hindex : interfaces.index = some Small.index := by rw [← hinterfaces]
  obtain ⟨result, hresult⟩ := run_returns { Small.setting false with interfaces }
    Small.index_plain (.inr (InterfaceRemarks.answers_of_plain hindex Small.index_plain))
    (fun d => ⟨d.body, rfl⟩) ⟨true, []⟩ {} [Small.stack, Small.queue]
  exact ⟨interfaces, result, Small.copiesRemarks, htaken, hresult,
    remarks_settle_iff { Small.setting false with interfaces } _ _ _ _ _ Small.copiesRemarks htaken
      hresult⟩

-- ---------------------------------------------------------------------------
-- A chain of interface members
-- ---------------------------------------------------------------------------

namespace Small

def chainIndex : SourceIndex where
  types := [{ node := node .type "T:IQueue" [] }, { node := node .type "T:Queue" [] }]
  members := [
    (Key.ofDocId "T:ITaker", {
      node := node .member "M:ITaker.Take" []
      docs := { remarks := some "Never waits." } }),
    (Key.ofDocId "T:IQueue", { node := node .member "M:IQueue.Take" [] }),
    (Key.ofDocId "T:Queue", { node := node .member "M:Queue.Take" [] })]

def second : Document String := document "IQueue" ["M:ITaker.Take"]

def third : Document String := document "Queue" ["M:IQueue.Take"]

def chainInterfaces : InterfaceRemarks where
  policy := (setting false).policy
  index := some chainIndex
  known := [(Key.ofDocId "M:Queue.Take", none), (Key.ofDocId "M:IQueue.Take", none)]

def chainSetting : Setting String :=
  { setting false with interfaces := chainInterfaces, index := chainIndex }

theorem chainIndex_plain : ∀ e ∈ chainIndex.entries, IsPlain e := by
  simp [SourceIndex.entries, chainIndex, IsPlain]

theorem chain_ordered : inOrder [second, third] = [second, third] :=
  List.mergeSort_of_pairwise (by decide)

theorem chain_taken : InterfaceRemarks.ofTypes chainSetting.policy (some chainSetting.index)
    ((inOrder [second, third]).map (·.type)) = .ok chainSetting.interfaces := by
  rw [chain_ordered]
  refine (InterfaceRemarks.ofTypes_ok _ chainIndex_plain _).trans (congrArg Except.ok ?_)
  have hknown : InterfaceRemarks.takenDown
      { policy := chainSetting.policy, index := some chainIndex }
      ([second.type, third.type].flatMap (·.members)) = chainInterfaces.known := by decide +kernel
  exact congrArg (InterfaceRemarks.mk chainSetting.policy (some chainIndex)) hknown

end Small

/-- Along a chain of interface members, remarks come one step further with each run. -/
theorem remarks_along_chain :
    let documents := [Small.second, Small.third]
    CopiesRemarks Small.chainSetting.policy ∧
    InterfaceRemarks.ofTypes Small.chainSetting.policy (some Small.chainSetting.index)
      ((inOrder documents).map (·.type)) = .ok Small.chainSetting.interfaces ∧
    let first := run Small.chainSetting ⟨true, []⟩ {} documents
    (∃ result, first.result = .ok result) ∧
    ∃ interfaces,
      InterfaceRemarks.ofTypes Small.chainSetting.policy (some Small.chainSetting.index)
        (first.documents.map (·.type)) = .ok interfaces ∧
      allRemarks (run { Small.chainSetting with interfaces }
        ⟨true, []⟩ {} first.documents).documents ≠
        allRemarks first.documents := by
  intro documents
  have hanswers := InterfaceRemarks.answers_of_plain
    (r := Small.chainInterfaces) rfl Small.chainIndex_plain
  have hmerging : ∀ d ∈ inOrder documents, Merging Small.chainSetting d := fun d _ _ =>
    mergeType_ok Small.chainIndex_plain (.inr hanswers) d.type
  refine ⟨Small.copiesRemarks, Small.chain_taken, ?_, ?_⟩
  · exact run_returns _ Small.chainIndex_plain (.inr hanswers) (fun d => ⟨d.body, rfl⟩) _ _ _
  · obtain ⟨interfaces, hagain, -, hiff⟩ :=
      allRemarks_again_iff Small.chainSetting ⟨true, []⟩ ⟨true, []⟩
      {} {} documents Small.copiesRemarks Small.chain_taken hmerging
    refine ⟨interfaces, hagain, fun hsame => ?_⟩
    rw [Small.chain_ordered] at hiff
    have hempty : StaysEmpty Small.chainSetting Small.third
        (Small.third.type.members.head (by decide)) :=
      ⟨by decide +kernel, "", by decide +kernel, by decide +kernel⟩
    have hfills : Fills Small.chainSetting Small.second
        (Small.second.type.members.head (by decide)) :=
      ⟨by decide +kernel, "Remarks copied from <xref:ITaker.Take>:\n\nNever waits.",
        by decide +kernel, by decide +kernel⟩
    exact hiff.mp hsame Small.third (by simp) _ (List.head_mem _) hempty "M:IQueue.Take" (by decide)
      ⟨Small.second, _, by rfl, by rfl, hfills⟩

end

end DocMerge.Merge

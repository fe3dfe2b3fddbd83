import DocMerge.Proofs.Runs

/-!
# A run takes nothing away

`run_preserves`: whatever a run does to a corpus, no element comes or goes, no text that counts is
lost, and a text that differs afterwards is the trimmed text of the paired source. It holds of runs
that end in a fault too.
-/

namespace DocMerge.Merge

-- ---------------------------------------------------------------------------
-- What is kept
-- ---------------------------------------------------------------------------

/-- A text that counts stays, and stays what it is unless its field is one that is overwritten. -/
def TextKept (policy : Policy) (field : DocField) (before after : Option String) : Prop :=
  ∀ text, before = some text → isUndocumented text = false →
    ∃ text', after = some text' ∧ isUndocumented text' = false ∧
      (field ∉ policy.overwritten → text' = text)

structure DocsKept (policy : Policy) (before after : DocFields) : Prop where
  present : after.present = before.present
  absent : ∀ f, after.scalar f = none ↔ before.scalar f = none
  names : ∀ f, (after.named f).names = (before.named f).names
  scalar : ∀ f, TextKept policy f.toField (before.scalar f) (after.scalar f)
  named : ∀ f name,
    TextKept policy f.toField ((before.named f).lookup name) ((after.named f).lookup name)
  exceptions : ExceptionsKept policy before.exceptions after.exceptions

structure EntryKept (policy : Policy) (before after : Entry) : Prop where
  node : after.node = before.node
  docs : DocsKept policy before.docs after.docs

structure TypeKept (policy : Policy) (before after : ApiType) : Prop where
  entry : EntryKept policy before.entry after.entry
  members : List.Forall₂ (EntryKept policy) before.members after.members

theorem TextKept.refl (text : Option String) : TextKept policy field text text :=
  fun known hknown hdoc => ⟨known, hknown, hdoc, fun _ => rfl⟩

theorem DocsKept.refl (docs : DocFields) : DocsKept policy docs docs where
  present := rfl
  absent _ := Iff.rfl
  names _ := rfl
  scalar _ := .refl _
  named _ _ := .refl _
  exceptions := .refl _

theorem EntryKept.refl (e : Entry) : EntryKept policy e e := ⟨rfl, .refl e.docs⟩

theorem TypeKept.refl (t : ApiType) : TypeKept policy t t :=
  ⟨.refl t.entry, List.forall₂_same.mpr fun m _ => .refl m⟩

theorem textKept_settled (policy : Policy) (field : DocField) (current incoming : Option String) :
    TextKept policy field current (settled policy field current incoming) := by
  intro text hcurrent hdoc
  cases htaken : taken? policy field current incoming with
  | none => exact ⟨text, by rw [settled, htaken, Option.none_or, hcurrent], hdoc, fun _ => rfl⟩
  | some new =>
    obtain ⟨known, _, hknown, -, -, hnew, hwhy⟩ := taken?_eq_some_iff.mp htaken
    obtain rfl : known = text := by simpa [hcurrent] using hknown.symm
    refine ⟨new, by simp [settled, htaken], hnew, fun hkeep => ?_⟩
    rcases hwhy with hempty | ⟨hover, -⟩
    · simp [hdoc] at hempty
    · exact absurd hover hkeep

theorem Receives.kept (h : Receives policy offer before after)
    (hpresent : after.present = before.present)
    (hexceptions : ExceptionsKept policy before.exceptions after.exceptions) :
    DocsKept policy before after where
  present := hpresent
  absent f := by rw [h.scalar f, settled_eq_none_iff]
  names := h.names
  scalar f := h.scalar f ▸ textKept_settled policy f.toField _ _
  named f name := h.lookup f name ▸ textKept_settled policy f.toField _ _
  exceptions := hexceptions

-- ---------------------------------------------------------------------------
-- What is taken
-- ---------------------------------------------------------------------------

def TypeOffers (policy : Policy) (source : DocFields) : ScalarField → String → Prop
  | .summary, text => source.summary = some text
  | .remarks, text => policy.typeRemarks = true ∧ ownRemarks source = .ok text
  | .returns, text => source.returns = some text
  | .value, _ => False

def MemberOffers (policy : Policy) (interfaces : InterfaceRemarks) (ownerId : String)
    (node : ApiNode) (source : DocFields) : ScalarField → String → Prop
  | .summary, text => source.summary = some text
  | .remarks, text => policy.memberRemarks = true ∧
    (composeRemarks policy interfaces ownerId node source).2 = .ok text
  | .returns, text => source.returns = some text
  | .value, text => source.value = some text ∨
    lacksText source.value = true ∧ node.memberType = "Property" ∧ source.returns = some text

/-- A text that differs is a text on offer, trimmed, and it counts. -/
def TextTaken (offered : String → Prop) (before after : Option String) : Prop :=
  ∀ text, after = some text → before ≠ some text →
    ∃ incoming, offered incoming ∧ text = trimmed incoming ∧ isUndocumented text = false

structure DocsTaken (offers : ScalarField → String → Prop) (source before after : DocFields) :
    Prop where
  scalar : ∀ f, TextTaken (offers f) (before.scalar f) (after.scalar f)
  named : ∀ f name, TextTaken (fun text => (source.named f).lookup name = some text)
    ((before.named f).lookup name) ((after.named f).lookup name)
  exceptions : ∀ (place : Nat) (e : ExceptionDoc), after.exceptions[place]? = some e →
    before.exceptions[place]? = some e ∨ IsTakenFrom source.exceptions e

/-- A member is as it was, or it is paired and has taken its new texts from its source. -/
def MemberTaken (setting : Setting α) (type : ApiType) (before after : Entry) : Prop :=
  after = before ∨
    ∃ source, matchMember setting.policy setting.index type.key before = .matched source ∧
      DocsTaken (MemberOffers setting.policy setting.interfaces type.docId before.node source.docs)
        source.docs before.docs after.docs

/-- A type is as it was, or it is included and paired and has taken its new texts from its source,
member by member. -/
def TypeTaken (setting : Setting α) (before after : ApiType) : Prop :=
  after = before ∨
    setting.policy.includesType before.entry.node = true ∧
      ∃ source, setting.index.findType? before.key = some source ∧
        DocsTaken (TypeOffers setting.policy source.docs) source.docs before.entry.docs
          after.entry.docs ∧
        List.Forall₂ (MemberTaken setting before) before.members after.members

theorem textTaken_settled (hoffer : ∀ text, incoming = some text → offered text) :
    TextTaken offered current (settled policy field current incoming) := by
  intro text htext hne
  cases htaken : taken? policy field current incoming with
  | none => exact absurd (by simpa [settled, htaken] using htext) hne
  | some new =>
    obtain rfl : new = text := by simpa [settled, htaken] using htext
    obtain ⟨_, source, -, hsource, hnew, hdoc, -⟩ := taken?_eq_some_iff.mp htaken
    exact ⟨source, hoffer source hsource, hnew, hdoc⟩

theorem Receives.taken (h : Receives policy offer before after)
    (hscalar : ∀ f text, offer.scalar f = some text → offers f text)
    (hnamed : ∀ f name text, (offer.named f).lookup name = some text →
      (source.named f).lookup name = some text)
    (hexceptions : ∀ (place : Nat) (e : ExceptionDoc), after.exceptions[place]? = some e →
      before.exceptions[place]? = some e ∨ IsTakenFrom source.exceptions e) :
    DocsTaken offers source before after where
  scalar f := h.scalar f ▸ textTaken_settled (hscalar f)
  named f name := h.lookup f name ▸ textTaken_settled (hnamed f name)
  exceptions := hexceptions

theorem exceptionsAfter_kept (policy : Policy) (docs source : DocFields) :
    ExceptionsKept policy docs.exceptions (exceptionsAfter policy docs source) := by
  unfold exceptionsAfter
  split
  · exact mergeExceptionList_kept policy docs.exceptions source.exceptions
  · exact .refl docs.exceptions

theorem exceptionsAfter_taken (policy : Policy) (docs source : DocFields) (place : Nat)
    (e : ExceptionDoc) (h : (exceptionsAfter policy docs source)[place]? = some e) :
    docs.exceptions[place]? = some e ∨ IsTakenFrom source.exceptions e := by
  unfold exceptionsAfter at h
  split at h
  · exact mergeExceptionList_taken policy docs.exceptions source.exceptions h
  · exact .inl h

-- ---------------------------------------------------------------------------
-- An entry
-- ---------------------------------------------------------------------------

structure EntryPorted (policy : Policy) (offers : ScalarField → String → Prop)
    (source before after : Entry) : Prop where
  kept : EntryKept policy before after
  taken : DocsTaken offers source.docs before.docs after.docs

theorem Absorbs.ported (h : Absorbs policy e source offer merge)
    (hscalar : ∀ f text, offer.scalar f = some text → offers f text)
    (hnamed : offer.named = source.docs.named) :
    EntryPorted policy offers source e merge.entry where
  kept := ⟨h.node,
    h.fields.kept h.present (h.exceptions ▸ exceptionsAfter_kept policy e.docs source.docs)⟩
  taken := h.fields.taken hscalar (fun f name text htext => by rwa [hnamed] at htext)
    (h.exceptions ▸ exceptionsAfter_taken policy e.docs source.docs)

theorem AbsorbsSummary.ported (h : AbsorbsSummary policy e source cause merge)
    (hsummary : ∀ text, source.docs.summary = some text → offers .summary text) :
    EntryPorted policy offers source e merge.entry where
  kept := ⟨h.node, h.fields.kept h.present (by rw [h.exceptions]; exact .refl e.docs.exceptions)⟩
  taken := by
    refine h.fields.taken (fun f text htext => ?_) (fun f name text htext => ?_)
      (fun place x hx => .inl (h.exceptions ▸ hx))
    · cases f with
      | summary => exact hsummary text htext
      | remarks | returns | value => simp [summaryOffer] at htext
    · simp [summaryOffer] at htext

theorem mergeTypeEntry_ported (policy : Policy) (type source : Entry) :
    EntryPorted policy (TypeOffers policy source.docs) source type
      (mergeTypeEntry policy type source).entry := by
  cases h : typeOffer policy source.docs with
  | error fault => exact (mergeTypeEntry_of_error h).ported fun text htext => htext
  | ok offer =>
    obtain ⟨remarks, hremarks, rfl⟩ := offerOf_eq_ok h
    refine (mergeTypeEntry_of_ok h).ported (fun f text htext => ?_) rfl
    cases f with
    | summary | returns => exact htext
    | value => simp [Offer.ofSource] at htext
    | remarks =>
      obtain rfl : remarks = some text := htext
      split at hremarks
      · rename_i hon
        cases hown : ownRemarks source.docs with
        | error fault => simp [hown, Except.map] at hremarks
        | ok own =>
          simp only [hown, Except.map, Except.ok.injEq, Option.some.injEq] at hremarks
          exact ⟨hon, hremarks ▸ hown⟩
      · simp at hremarks

theorem incomingValue_offered (h : incomingValue node source = some text) :
    source.value = some text ∨
      lacksText source.value = true ∧ node.memberType = "Property" ∧
      source.returns = some text := by
  unfold incomingValue at h
  split at h
  · rename_i hproperty
    simp only [Bool.and_eq_true, beq_iff_eq] at hproperty
    exact .inr ⟨hproperty.1, hproperty.2, h⟩
  · exact .inl h

theorem mergeMember_ported (policy : Policy) (interfaces : InterfaceRemarks) (ownerId : String)
    (member source : Entry) :
    EntryPorted policy
      (MemberOffers policy interfaces ownerId member.node source.docs) source member
      (mergeMember policy interfaces ownerId member source).entry := by
  cases h : memberOffer policy interfaces ownerId member.node source.docs with
  | error fault => exact (mergeMember_of_error h).ported fun text htext => htext
  | ok offer =>
    obtain ⟨remarks, hremarks, rfl⟩ := offerOf_eq_ok h
    refine (mergeMember_of_ok h).ported (fun f text htext => ?_) rfl
    cases f with
    | summary | returns => exact htext
    | value => exact incomingValue_offered htext
    | remarks =>
      obtain rfl : remarks = some text := htext
      unfold memberRemarks at hremarks
      split at hremarks
      · rename_i hon
        dsimp only at hremarks
        cases hcompose : (composeRemarks policy interfaces ownerId member.node source.docs).2 with
        | error fault => simp [hcompose, Except.map] at hremarks
        | ok composed =>
          simp only [hcompose, Except.map, Except.ok.injEq, Option.some.injEq] at hremarks
          exact ⟨hon, hremarks ▸ hcompose⟩
      · simp at hremarks

-- ---------------------------------------------------------------------------
-- A run
-- ---------------------------------------------------------------------------

theorem DocsKept.markIf (h : DocsKept policy before after) (written : Bool) :
    DocsKept policy before (after.markIf written) where
  present := h.present
  absent f := by rw [DocFields.scalar_markIf]; exact h.absent f
  names f := by rw [DocFields.named_markIf]; exact h.names f
  scalar f := by rw [DocFields.scalar_markIf]; exact h.scalar f
  named f name := by rw [DocFields.named_markIf]; exact h.named f name
  exceptions := h.exceptions

theorem DocsTaken.markIf (h : DocsTaken offers source before after) (written : Bool) :
    DocsTaken offers source before (after.markIf written) where
  scalar f := by rw [DocFields.scalar_markIf]; exact h.scalar f
  named f name := by rw [DocFields.named_markIf]; exact h.named f name
  exceptions := h.exceptions

theorem mergeType_kept (policy : Policy) (interfaces : InterfaceRemarks) (index : SourceIndex)
    (type : ApiType) : TypeKept policy type (mergeType policy interfaces index type).type := by
  cases hsource : index.findType? type.key with
  | none =>
    rw [mergeType_of_unmatched policy interfaces index type hsource]
    exact .refl type
  | some source =>
    obtain ⟨⟨written, hentry⟩, hmembers⟩ := mergeType_entries policy interfaces index type hsource
    have hported := (mergeTypeEntry_ported policy type.entry source).kept
    refine ⟨hentry ▸ ⟨hported.node, hported.docs.markIf written⟩, hmembers.imp fun m m' hm => ?_⟩
    rcases hm with rfl | ⟨s, -, rfl⟩
    · exact .refl m'
    · exact (mergeMember_ported policy interfaces type.docId m s).kept

theorem mergedDocument_taken (setting : Setting α) (d : Document α)
    (hincluded : setting.policy.includesType d.type.entry.node = true) :
    TypeTaken setting d.type (mergedDocument setting d).type := by
  unfold mergedDocument mergeOf
  cases hsource : setting.index.findType? d.type.key with
  | none =>
    rw [mergeType_of_unmatched _ _ _ _ hsource]
    exact .inl rfl
  | some source =>
    obtain ⟨⟨written, hentry⟩, hmembers⟩ := mergeType_entries setting.policy setting.interfaces
      setting.index d.type hsource
    have hported := (mergeTypeEntry_ported setting.policy d.type.entry source).taken
    refine .inr ⟨hincluded, source, hsource, hentry ▸ hported.markIf written,
      hmembers.imp fun m m' hm => ?_⟩
    rcases hm with hsame | ⟨s, hmatch, rfl⟩
    · exact .inl hsame
    · exact .inr ⟨s, hmatch,
        (mergeMember_ported setting.policy setting.interfaces d.type.docId m s).taken⟩

/-- A run keeps the structure of every document and every text that counts, and what differs
afterwards has been taken from the paired source. -/
theorem run_preserves (setting : Setting α) (root : Files.Path) (store : Files.Store)
    (documents : List (Document α)) :
    (inOrder documents).Perm documents ∧
    List.Forall₂ (fun d d' => d'.path = d.path ∧ d'.body = d.body ∧
        TypeKept setting.policy d.type d'.type ∧ TypeTaken setting d.type d'.type)
      (inOrder documents) (run setting root store documents).documents := by
  refine ⟨List.mergeSort_perm _ _, ?_⟩
  refine (run_documents setting root store documents).imp fun d d' hd => ?_
  rcases hd with rfl | ⟨hincluded, rfl⟩
  · exact ⟨rfl, rfl, .refl d'.type, .inl rfl⟩
  · exact ⟨rfl, rfl, mergeType_kept _ _ _ d.type, mergedDocument_taken setting d hincluded⟩

end DocMerge.Merge

import DocMerge.Merge.Run
import DocMerge.Proofs.Exceptions
import DocMerge.Proofs.Fields

/-!
# What the merge of an entry comes to

If the remarks of its source can be told, an entry receives an offer and the exceptions of the
source, and what is reported of it are their labels. If not, it receives a summary at most.
-/

namespace DocMerge.Merge

-- ---------------------------------------------------------------------------
-- The exceptions of an entry
-- ---------------------------------------------------------------------------

section
variable (policy : Policy) (docs source : DocFields)

@[simp] theorem mergeExceptions_scalar (f : ScalarField) :
    (mergeExceptions policy docs source).1.scalar f = docs.scalar f := by
  unfold mergeExceptions
  split <;> cases f <;> rfl

@[simp] theorem mergeExceptions_named (f : NamedField) :
    (mergeExceptions policy docs source).1.named f = docs.named f := by
  unfold mergeExceptions
  split <;> cases f <;> rfl

@[simp] theorem mergeExceptions_present :
    (mergeExceptions policy docs source).1.present = docs.present := by
  unfold mergeExceptions
  split <;> rfl

@[simp] theorem mergeExceptions_changed :
    (mergeExceptions policy docs source).1.changed =
      (docs.changed || !(mergeExceptions policy docs source).2.isEmpty) := by
  unfold mergeExceptions
  split
  · rfl
  · simp

def exceptionsAfter : List ExceptionDoc :=
  if docs.present then (mergeExceptionList policy docs.exceptions source.exceptions).1
  else docs.exceptions

def exceptionLabels : List Label :=
  if docs.present then (mergeExceptionList policy docs.exceptions source.exceptions).2 else []

@[simp] theorem mergeExceptions_exceptions :
    (mergeExceptions policy docs source).1.exceptions = exceptionsAfter policy docs source := by
  unfold mergeExceptions exceptionsAfter
  split <;> rfl

@[simp] theorem mergeExceptions_labels :
    (mergeExceptions policy docs source).2 = exceptionLabels policy docs source := by
  unfold mergeExceptions exceptionLabels
  split <;> rfl

end

-- ---------------------------------------------------------------------------
-- The merge of an entry
-- ---------------------------------------------------------------------------

def offerOf (source : DocFields) (remarks : Except Fault (Option String)) (value : Option String) :
    Except Fault Offer :=
  remarks.map fun remarks => .ofSource source remarks value

theorem offerOf_eq_ok (h : offerOf source remarks value = .ok offer) :
    ∃ text, remarks = .ok text ∧ offer = .ofSource source text value := by
  cases remarks with
  | error fault => simp [offerOf, Except.map] at h
  | ok text =>
    simp only [offerOf, Except.map, Except.ok.injEq] at h
    exact ⟨text, rfl, h.symm⟩

def typeOffer (policy : Policy) (source : DocFields) : Except Fault Offer :=
  offerOf source (if policy.typeRemarks then (ownRemarks source).map some else .ok none) none

def memberOffer (policy : Policy) (interfaces : InterfaceRemarks)
    (ownerId : String) (node : ApiNode)
    (source : DocFields) : Except Fault Offer :=
  offerOf source (memberRemarks policy interfaces ownerId node source).2 (incomingValue node source)

def summaryOffer (source : DocFields) : Offer where
  scalar
    | .summary => source.summary
    | _ => none
  named _ := ∅

theorem mergeSource_of_ok (h : offerOf source remarks value = .ok offer) (m : Merged) :
    m.mergeSource policy source remarks value = m.mergeOffer policy offer := by
  cases remarks with
  | error fault => simp [offerOf, Except.map] at h
  | ok remarks =>
    simp only [offerOf, Except.map, Except.ok.injEq] at h
    subst h
    rfl

theorem mergeSource_of_error (h : offerOf source remarks value = .error fault) (m : Merged) :
    m.mergeSource policy source remarks value =
      { m.mergeScalar policy .summary source.summary with fault := some fault } := by
  cases remarks with
  | ok remarks => simp [offerOf, Except.map] at h
  | error other =>
    simp only [offerOf, Except.map, Except.error.injEq] at h
    subst h
    rfl

/-- What an entry is after the merge of an offer and of the exceptions of its source, and what is
reported of it. -/
structure Absorbs (policy : Policy) (e source : Entry) (offer : Offer) (merge : EntryMerge) :
    Prop where
  node : merge.entry.node = e.node
  fields : Receives policy offer e.docs merge.entry.docs
  exceptions : merge.entry.docs.exceptions = exceptionsAfter policy e.docs source.docs
  present : merge.entry.docs.present = e.docs.present
  changed : merge.entry.docs.changed = (e.docs.changed || !merge.updated.isEmpty)
  updated : merge.updated = (takenLabels policy offer e.docs ++
    exceptionLabels policy e.docs source.docs).map (⟨e.docId, ·⟩)
  orphans : merge.orphans = (orphanLabels offer e.docs).map (⟨e.docId, ·⟩)
  fault : merge.fault = none

theorem exceptionsAfter_congr (policy : Policy) (source : DocFields)
    (hpresent : a.present = b.present)
    (hexceptions : a.exceptions = b.exceptions) :
    exceptionsAfter policy a source = exceptionsAfter policy b source ∧
      exceptionLabels policy a source = exceptionLabels policy b source := by
  simp only [exceptionsAfter, exceptionLabels, hpresent, hexceptions, and_self]

theorem finish_of_ok (e source : Entry) (notices : List Message.Notice)
    (h : offerOf source.docs remarks value = .ok offer) :
    Absorbs policy e source offer (EntryMerge.finish policy e source
      (Merged.mergeSource policy source.docs remarks value { docs := e.docs, notices })) := by
  rw [mergeSource_of_ok h]
  have hadds := mergeOffer_adds policy offer { docs := e.docs, notices }
  have hfields := mergeOffer_receives policy offer { docs := e.docs, notices }
  revert hadds hfields
  generalize Merged.mergeOffer policy offer { docs := e.docs, notices } = m
  intro hadds hfields
  obtain ⟨hafter, hlabels⟩ :=
    exceptionsAfter_congr policy source.docs hadds.present hadds.exceptions
  rw [EntryMerge.finish, hadds.fault]
  simp only [Merged.mergeExceptions]
  refine ⟨rfl, ⟨?_, ?_, ?_⟩, ?_, ?_, ?_, ?_, ?_, rfl⟩
  · simpa using hfields.scalar
  · simpa using hfields.names
  · simpa using hfields.lookup
  · simpa using hafter
  · simpa using hadds.present
  · simp only [mergeExceptions_changed, mergeExceptions_labels, hadds.changed,
      hadds.updated, hlabels,
      List.nil_append, List.isEmpty_map, Bool.or_assoc]
    cases takenLabels policy offer e.docs <;> simp
  · simp [hadds.updated, hlabels]
  · simp [hadds.orphans]

/-- An entry whose source has remarks that cannot be told receives no more than a summary. -/
structure AbsorbsSummary (policy : Policy) (e source : Entry) (fault : Fault) (merge : EntryMerge) :
    Prop where
  node : merge.entry.node = e.node
  fields : Receives policy (summaryOffer source.docs) e.docs merge.entry.docs
  exceptions : merge.entry.docs.exceptions = e.docs.exceptions
  present : merge.entry.docs.present = e.docs.present
  fault : merge.fault = some fault

theorem finish_of_error (e source : Entry) (notices : List Message.Notice)
    (h : offerOf source.docs remarks value = .error fault) :
    AbsorbsSummary policy e source fault (EntryMerge.finish policy e source
      (Merged.mergeSource policy source.docs remarks value { docs := e.docs, notices })) := by
  rw [mergeSource_of_error h, EntryMerge.finish]
  have hadds : Merged.Adds { docs := e.docs, notices }
      (Merged.mergeScalar policy .summary source.docs.summary { docs := e.docs, notices }) _ _ :=
    Merged.mergeScalar_adds _ .summary
  refine ⟨rfl, ⟨fun f => ?_, fun f => ?_, fun f name => ?_⟩, hadds.exceptions, hadds.present, rfl⟩
  · dsimp only
    rw [Merged.mergeScalar_scalar]
    cases f <;> simp [summaryOffer]
  · dsimp only
    rw [Merged.mergeScalar_named]
  · dsimp only
    rw [Merged.mergeScalar_named]
    simp [summaryOffer]

theorem mergeTypeEntry_of_ok (h : typeOffer policy source.docs = .ok offer) :
    Absorbs policy type source offer (mergeTypeEntry policy type source) :=
  finish_of_ok type source [] h

theorem mergeTypeEntry_of_error (h : typeOffer policy source.docs = .error fault) :
    AbsorbsSummary policy type source fault (mergeTypeEntry policy type source) :=
  finish_of_error type source [] h

theorem mergeMember_of_ok
    (h : memberOffer policy interfaces ownerId member.node source.docs = .ok offer) :
    Absorbs policy member source offer (mergeMember policy interfaces ownerId member source) :=
  finish_of_ok member source _ h

theorem mergeMember_of_error
    (h : memberOffer policy interfaces ownerId member.node source.docs = .error fault) :
    AbsorbsSummary policy member source fault
      (mergeMember policy interfaces ownerId member source) :=
  finish_of_error member source _ h

end DocMerge.Merge

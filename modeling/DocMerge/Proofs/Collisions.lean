import DocMerge.Proofs.Entries
import DocMerge.Proofs.Words

/-!
# Near-duplicates

As long as documented exceptions keep their texts, a merge of exceptions adds no near-duplicates and
loses nothing. A text that it writes is less similar than the threshold to every text of its type
that was there before it, be it from the start or written a step earlier. And every exception of the
source that has a type and a text finds a text in the end that is as similar as the threshold asks
for.
-/

namespace DocMerge.Merge

open DocId (Key)

-- ---------------------------------------------------------------------------
-- One step
-- ---------------------------------------------------------------------------

theorem sameType_trans (h : sameType a b = true) (h' : sameType b c = true) :
    sameType a c = true := by
  rw [sameType, Key.agrees_iff] at *
  exact ⟨h.1, h.2.trans h'.2⟩

theorem similarity_lt_of_not_duplicate (hdup : ¬ IsDuplicate policy existing (tidied x))
    (hmem : e ∈ existing)
    (hrival : IsRival x e) : similarity e.text (trimmed x.text) < policy.collisionThreshold :=
  Rat.not_le.mp fun hscore => hdup ⟨e, hmem, hrival, hscore⟩

/-- A place that is written to gets a text that is not too similar to any of its type. -/
theorem ExceptionMerge.apart {existing after : List ExceptionDoc} {place : Nat}
    (h : ExceptionMerge policy existing x after labels) (hkeep : policy.replaceExceptions = false)
    (hplace : after[place]? = some e) (hwritten : after[place]? ≠ existing[place]?)
    (hmem : known ∈ existing) (hknown : isUndocumented known.text = false)
    (htype : sameType known e = true) :
    similarity known.text e.text < policy.collisionThreshold := by
  cases h with
  | empty | duplicate | refused => exact absurd rfl hwritten
  | rewritten _ _ _ _ hallowed => simp [hkeep] at hallowed
  | filled there empty _ hdup hthere hsame =>
    obtain rfl : there = place := by
      by_contra hne
      exact hwritten (List.getElem?_set_ne hne)
    have hlt := (List.getElem?_eq_some_iff.mp hthere).1
    obtain rfl : { empty with text := trimmed x.text } = e := by simpa [hlt] using hplace
    exact similarity_lt_of_not_duplicate hdup hmem ⟨sameType_trans htype hsame, hknown⟩
  | appended _ hdup =>
    obtain rfl : place = existing.length := by
      by_contra hne
      rcases Nat.lt_or_gt_of_ne hne with hlt | hgt
      · exact hwritten (List.getElem?_append_left hlt)
      · rw [List.getElem?_eq_none (by simp; omega)] at hplace
        cases hplace
    obtain rfl : tidied x = e := by simpa using hplace
    exact similarity_lt_of_not_duplicate hdup hmem ⟨htype, hknown⟩

-- ---------------------------------------------------------------------------
-- The course of a merge
-- ---------------------------------------------------------------------------

theorem mergeExceptionList_append (policy : Policy) (existing first second : List ExceptionDoc) :
    (mergeExceptionList policy existing (first ++ second)).1 =
      (mergeExceptionList policy (mergeExceptionList policy existing first).1 second).1 := by
  induction first generalizing existing with
  | nil => rfl
  | cons x first ih => simp only [List.cons_append, mergeExceptionList_cons, ih]

section
variable (policy : Policy) (docs source : DocFields)

def exceptionsAfterFirst (n : Nat) : List ExceptionDoc :=
  exceptionsAfter policy docs { source with exceptions := source.exceptions.take n }

theorem exceptionsAfterFirst_succ (n : Nat) :
    exceptionsAfterFirst policy docs source (n + 1) = exceptionsAfterFirst policy docs source n ∨
      ∃ x labels, ExceptionMerge policy (exceptionsAfterFirst policy docs source n) x
        (exceptionsAfterFirst policy docs source (n + 1)) labels := by
  unfold exceptionsAfterFirst exceptionsAfter
  cases docs.present with
  | false => exact .inl rfl
  | true =>
    dsimp only
    rcases Nat.lt_or_ge n source.exceptions.length with hlt | hge
    · have hstep := mergeException_cases policy
        (mergeExceptionList policy docs.exceptions (source.exceptions.take n)).1
          source.exceptions[n]
      rw [List.take_succ_eq_append_getElem hlt, if_pos rfl, if_pos rfl, mergeExceptionList_append,
        mergeExceptionList_cons, mergeExceptionList]
      exact .inr ⟨source.exceptions[n], _, hstep⟩
    · rw [List.take_of_length_le hge, List.take_of_length_le (Nat.le_succ_of_le hge)]
      exact .inl rfl

theorem exceptionsAfterFirst_kept (n : Nat) :
    ExceptionsKept policy (exceptionsAfterFirst policy docs source n)
      (exceptionsAfter policy docs source) := by
  unfold exceptionsAfterFirst exceptionsAfter
  cases docs.present with
  | false => exact .refl _
  | true =>
    have hsplit := mergeExceptionList_append policy docs.exceptions (source.exceptions.take n)
      (source.exceptions.drop n)
    rw [List.take_append_drop] at hsplit
    rw [if_pos rfl, if_pos rfl, hsplit]
    exact mergeExceptionList_kept policy _ _

theorem documented_in_the_end {policy : Policy} {docs source : DocFields} {n place : Nat}
    {e last : ExceptionDoc}
    (hkeep : policy.replaceExceptions = false)
    (hplace : (exceptionsAfterFirst policy docs source n)[place]? = some e)
    (hdoc : isUndocumented e.text = false)
    (hlast : (exceptionsAfter policy docs source)[place]? = some last) : last = e := by
  obtain ⟨e', he', -, hsame⟩ :=
    (exceptionsAfterFirst_kept policy docs source n).documented place e hplace hdoc
  rw [he', hsame hkeep] at hlast
  exact (Option.some.inj hlast).symm

end

-- ---------------------------------------------------------------------------
-- The whole merge
-- ---------------------------------------------------------------------------

/-- Of two exceptions of one type that are documented after a merge, the one that was written when
the other was there is less similar to it than the threshold. -/
theorem written_apart {policy : Policy} {docs source : DocFields} {n place there : Nat}
    {known written : ExceptionDoc}
    (hkeep : policy.replaceExceptions = false)
    (hthere : (mergeExceptions policy docs source).1.exceptions[there]? = some known)
    (hplace : (mergeExceptions policy docs source).1.exceptions[place]? = some written)
    (hknown : isUndocumented known.text = false) (htype : sameType known written = true)
    (hbefore : (exceptionsAfterFirst policy docs source n)[there]?.map (·.text) = some known.text)
    (hwritten : (exceptionsAfterFirst policy docs source (n + 1))[place]? ≠
      (exceptionsAfterFirst policy docs source n)[place]?) :
    similarity known.text written.text < policy.collisionThreshold := by
  rw [mergeExceptions_exceptions] at hthere hplace
  rcases exceptionsAfterFirst_succ policy docs source n with hsame | ⟨x, labels, hstep⟩
  · exact absurd (congrArg (·[place]?) hsame) hwritten
  -- What is documented at some step is the same in the end: the exception that was there, and the
  -- one that the step has written.
  obtain ⟨e, he, htext⟩ := Option.map_eq_some_iff.mp hbefore
  obtain rfl := documented_in_the_end hkeep he (by rw [htext, hknown]) hthere
  obtain ⟨places, hwrites⟩ := hstep.writes hkeep
  obtain ⟨e', he', hdoc⟩ := hwrites.documented place (hwrites.mem_iff.mpr hwritten)
  obtain rfl := documented_in_the_end hkeep he' hdoc hplace
  exact hstep.apart hkeep he' hwritten (List.mem_of_getElem? he) hknown htype

def told : DocFields := { exceptions := [⟨"T:Empty", "To be added."⟩, ⟨"T:Full", "No room."⟩] }

def toldTwice :
    DocFields := { exceptions := [⟨"T:Empty", "Nothing is left."⟩, ⟨"T:Empty", "Gone!"⟩] }

theorem written_apart_told :
    let after := (mergeExceptions {} told toldTwice).1.exceptions
    after[0]? = some ⟨"T:Empty", "Nothing is left."⟩ ∧ after[2]? = some ⟨"T:Empty", "Gone!"⟩ ∧
      similarity "Nothing is left." "Gone!" < ({} : Policy).collisionThreshold := by
  have hfirst : (mergeExceptions {} told toldTwice).1.exceptions[0]? =
      some ⟨"T:Empty", "Nothing is left."⟩ := by
    decide +kernel
  have hlast : (mergeExceptions {} told toldTwice).1.exceptions[2]? =
      some ⟨"T:Empty", "Gone!"⟩ := by decide +kernel
  have hbefore : (exceptionsAfterFirst {} told toldTwice 1)[0]?.map (·.text) =
      some "Nothing is left." := by
    decide +kernel
  have hwritten : (exceptionsAfterFirst {} told toldTwice 2)[2]? ≠
      (exceptionsAfterFirst {} told toldTwice 1)[2]? := by
    decide +kernel
  have hknown : isUndocumented "Nothing is left." = false := by decide +kernel
  have htype : sameType ⟨"T:Empty", "Nothing is left."⟩ ⟨"T:Empty", "Gone!"⟩ =
      true := by decide +kernel
  have happart := written_apart rfl hfirst hlast hknown htype hbefore hwritten
  exact ⟨hfirst, hlast, happart⟩

/-- After a merge that may add exceptions, every exception of the source that has a type and a text
has one in the entry of the same type, with a text that is as similar as the threshold asks for. -/
theorem mergeExceptions_covers {policy : Policy} {docs : DocFields} (source : DocFields)
    (hkeep : policy.replaceExceptions = false) (hadd : policy.addExceptions = true)
    (hthreshold : policy.collisionThreshold ≤ 100) (hpresent : docs.present = true) :
    ∀ x ∈ source.exceptions, isUndocumented x.text = false → (Key.ofDocId x.cref).isValid = true →
      ∃ e ∈ (mergeExceptions policy docs source).1.exceptions, sameType e x = true ∧
        isUndocumented e.text = false ∧ policy.collisionThreshold ≤ similarity e.text x.text := by
  intro x hx hdoc hkey
  rw [mergeExceptions_exceptions, exceptionsAfter, if_pos hpresent]
  rcases mergeExceptionList_settled hkeep hthreshold docs.exceptions x hx fun _ => hkey with
    hempty | ⟨e, hmem, ⟨htype, hdocumented⟩, hscore⟩ | ⟨hrefused, -⟩
  · simp [hdoc] at hempty
  · rw [tidied, similarity_trimmed] at hscore
    exact ⟨e, hmem, htype, hdocumented, hscore⟩
  · simp [hadd] at hrefused

theorem mergeExceptions_covers_told :
    ({} : Policy).replaceExceptions = false ∧ ({} : Policy).addExceptions = true ∧
      ({} : Policy).collisionThreshold ≤ 100 ∧ told.present = true ∧
      (⟨"T:Empty", "Gone!"⟩ : ExceptionDoc) ∈ toldTwice.exceptions ∧
      isUndocumented "Gone!" = false ∧
      (Key.ofDocId "T:Empty").isValid = true ∧
      ∃ e ∈ (mergeExceptions {} told toldTwice).1.exceptions,
      sameType e ⟨"T:Empty", "Gone!"⟩ = true ∧
        isUndocumented e.text = false ∧ ({} : Policy).collisionThreshold ≤
        similarity e.text "Gone!" := by
  have hmem : (⟨"T:Empty", "Gone!"⟩ : ExceptionDoc) ∈ toldTwice.exceptions := by decide
  have hdoc : isUndocumented "Gone!" = false := by decide +kernel
  have hkey : (Key.ofDocId "T:Empty").isValid = true := by decide +kernel
  exact ⟨rfl, rfl, by decide, rfl, hmem, hdoc, hkey,
    mergeExceptions_covers toldTwice rfl rfl (by decide) rfl _ hmem hdoc hkey⟩

end DocMerge.Merge

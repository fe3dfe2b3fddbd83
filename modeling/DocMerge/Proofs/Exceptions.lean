import DocMerge.Merge.Exceptions
import DocMerge.Proofs.SelfSimilarity
import Mathlib.Data.List.Forall2
import Mathlib.Data.List.Nodup

/-!
# What the merge of exceptions does

`mergeException_cases` says once what one exception of a source can do to the list of an entry, and
why. Everything else is read off it: what a merge keeps, where its texts come from, and which places
of the list it writes to.
-/

namespace DocMerge.Merge

open DocId (Key)

-- ---------------------------------------------------------------------------
-- The most similar exception
-- ---------------------------------------------------------------------------

def IsRival (incoming e : ExceptionDoc) : Prop :=
  sameType e incoming = true ∧ isUndocumented e.text = false

def IsDuplicate (policy : Policy) (existing : List ExceptionDoc) (incoming : ExceptionDoc) : Prop :=
  ∃ e ∈ existing, IsRival incoming e ∧ policy.collisionThreshold ≤ similarity e.text incoming.text

def BestMatch.Reaches (best : BestMatch) (bound : Score) : Prop :=
  ∃ place score, best = some (place, score) ∧ bound ≤ score

theorem BestMatch.reaches_offer {best : BestMatch} :
    (best.offer place score).Reaches bound ↔ best.Reaches bound ∨ bound ≤ score := by
  unfold Reaches
  cases best with
  | none => simp [offer]
  | some known =>
    obtain ⟨old, known⟩ := known
    simp only [offer]
    split
    · rename_i hbetter
      have hless : known ≤ score := Rat.le_of_lt hbetter
      have := fun h : bound ≤ known => Rat.le_trans h hless
      simpa using this
    · rename_i hworse
      have hless : score ≤ known := Rat.not_lt.mp hworse
      have := fun h : bound ≤ score => Rat.le_trans h hless
      simpa using this

theorem mostSimilar_reaches (incoming : ExceptionDoc) (existing : List ExceptionDoc) :
    (mostSimilar incoming place best existing).Reaches bound ↔
      best.Reaches bound ∨
        ∃ e ∈ existing, IsRival incoming e ∧ bound ≤ similarity e.text incoming.text := by
  induction existing generalizing place best with
  | nil => simp [mostSimilar]
  | cons e rest ih =>
    rw [mostSimilar, ih]
    simp only [List.mem_cons, exists_eq_or_imp, IsRival]
    split
    · rename_i hrival
      simp only [Bool.and_eq_true, Bool.not_eq_true'] at hrival
      rw [BestMatch.reaches_offer, or_assoc]
      simp [hrival]
    · rename_i hother
      simp only [Bool.and_eq_true, Bool.not_eq_true'] at hother
      simp [hother]

theorem mostSimilar_place (h : mostSimilar incoming first best existing = some (place, score)) :
    best = some (place, score) ∨
      ∃ e, first ≤ place ∧ existing[place - first]? = some e ∧ IsRival incoming e := by
  induction existing generalizing first best with
  | nil => exact .inl h
  | cons e rest ih =>
    rw [mostSimilar] at h
    rcases ih h with hbest | ⟨e', hfirst, hplace, hrival⟩
    · split at hbest
      · rename_i hrival
        simp only [Bool.and_eq_true, Bool.not_eq_true'] at hrival
        have hhere : best = some (place, score) ∨ first = place := by
          cases best with
          | none => simp_all [BestMatch.offer]
          | some known =>
            simp only [BestMatch.offer] at hbest
            split at hbest
            · simp_all
            · exact .inl hbest
        rcases hhere with hbest | rfl
        · exact .inl hbest
        · exact .inr ⟨e, Nat.le_refl _, by simp, hrival⟩
      · exact .inl hbest
    · have hshift : place - first = place - (first + 1) + 1 := by omega
      exact .inr ⟨e', by omega, by rw [hshift, List.getElem?_cons_succ, hplace], hrival⟩

theorem isCollision_iff :
    isCollision policy (mostSimilar incoming 0 none existing) = true ↔
      IsDuplicate policy existing incoming := by
  have hreaches : isCollision policy (mostSimilar incoming 0 none existing) = true ↔
      (mostSimilar incoming 0 none existing).Reaches policy.collisionThreshold := by
    unfold isCollision BestMatch.Reaches
    cases mostSimilar incoming 0 none existing <;> simp [Prod.ext_iff, and_assoc]
  rw [hreaches, mostSimilar_reaches]
  simp [IsDuplicate, BestMatch.Reaches]

-- ---------------------------------------------------------------------------
-- One exception
-- ---------------------------------------------------------------------------

def tidied (x : ExceptionDoc) : ExceptionDoc := { x with text := trimmed x.text }

inductive ExceptionMerge (policy : Policy) (existing : List ExceptionDoc) (x : ExceptionDoc) :
    List ExceptionDoc → List Label → Prop
  | empty (hempty : isUndocumented x.text = true) : ExceptionMerge policy existing x existing []
  | duplicate (hdoc : isUndocumented x.text = false)
    (hdup : IsDuplicate policy existing (tidied x)) :
    ExceptionMerge policy existing x existing []
  | rewritten (place : Nat) (e : ExceptionDoc) (hdoc : isUndocumented x.text = false)
    (hdup : IsDuplicate policy existing (tidied x)) (hallowed : policy.replaceExceptions = true)
    (hplace : existing[place]? = some e) (hrival : IsRival x e) (hne : e.text ≠ trimmed x.text) :
    ExceptionMerge policy existing x (existing.set place { e with text := trimmed x.text })
      [.exception x.cref]
  | filled (place : Nat) (e : ExceptionDoc) (hdoc : isUndocumented x.text = false)
    (hdup : ¬ IsDuplicate policy existing (tidied x)) (hplace : existing[place]? = some e)
    (htype : sameType e x = true) (hempty : isUndocumented e.text = true) :
    ExceptionMerge policy existing x (existing.set place { e with text := trimmed x.text })
      [.exception x.cref]
  | appended (hdoc : isUndocumented x.text = false)
    (hdup : ¬ IsDuplicate policy existing (tidied x))
    (hfull : ∀ e ∈ existing, sameType e x = true → isUndocumented e.text = false)
    (hallowed : policy.addExceptions = true) :
    ExceptionMerge policy existing x (existing ++ [tidied x]) [.exception x.cref]
  | refused (hdoc : isUndocumented x.text = false) (hdup : ¬ IsDuplicate policy existing (tidied x))
    (hfull : ∀ e ∈ existing, sameType e x = true → isUndocumented e.text = false)
    (hallowed : policy.addExceptions = false) : ExceptionMerge policy existing x existing []

theorem modify_text (existing : List ExceptionDoc) (h : existing[place]? = some e) (text : String) :
    existing.modify place (fun e => { e with text }) = existing.set place { e with text } := by
  rw [List.modify_eq_set_getElem?, h]
  rfl

theorem decideException_of_duplicate (hdoc : isUndocumented x.text = false)
    (hdup : IsDuplicate policy existing (tidied x)) :
    ExceptionMerge policy existing x
      ((decideException policy existing (tidied x)).apply existing (tidied x))
      (if decideException policy existing (tidied x) = .leave then []
        else [.exception x.cref]) := by
  generalize hstep : decideException policy existing (tidied x) = step
  unfold decideException at hstep
  dsimp only at hstep
  rw [if_pos (isCollision_iff.mpr hdup)] at hstep
  split at hstep
  · rename_i place score hbest
    obtain hnone | ⟨e, -, hplace, hrival⟩ := mostSimilar_place hbest
    · simp at hnone
    have hplace : existing[place]? = some e := by simpa using hplace
    rw [hplace] at hstep
    split at hstep <;> subst hstep
    · rename_i hrewrite
      simp only [Option.map_some, Bool.and_eq_true, bne_iff_ne, ne_eq,
        Option.some.injEq] at hrewrite
      rw [ExceptionStep.apply, modify_text existing hplace]
      exact .rewritten place e hdoc hdup hrewrite.1 hplace hrival hrewrite.2
    · exact .duplicate hdoc hdup
  · subst hstep
    exact .duplicate hdoc hdup

theorem decideException_of_new (hdoc : isUndocumented x.text = false)
    (hdup : ¬ IsDuplicate policy existing (tidied x)) :
    ExceptionMerge policy existing x
      ((decideException policy existing (tidied x)).apply existing (tidied x))
      (if decideException policy existing (tidied x) = .leave then []
        else [.exception x.cref]) := by
  generalize hstep : decideException policy existing (tidied x) = step
  unfold decideException at hstep
  dsimp only at hstep
  rw [if_neg (fun h => hdup (isCollision_iff.mp h))] at hstep
  split at hstep
  · rename_i place hfound
    obtain ⟨hlt, hhere, -⟩ := List.findIdx?_eq_some_iff_getElem.mp hfound
    simp only [Bool.and_eq_true] at hhere
    have hplace := List.getElem?_eq_getElem hlt
    subst hstep
    rw [ExceptionStep.apply, modify_text existing hplace]
    exact .filled place _ hdoc hdup hplace hhere.1 hhere.2
  · rename_i hnone
    have hfull : ∀ e ∈ existing, sameType e x = true → isUndocumented e.text = false := by
      intro e he htype
      have := List.findIdx?_eq_none_iff.mp hnone e he
      simpa [show sameType e (tidied x) = true from htype] using this
    split at hstep <;> subst hstep
    · rename_i hadd
      exact .appended hdoc hdup hfull hadd
    · rename_i hadd
      exact .refused hdoc hdup hfull (by simpa using hadd)

theorem mergeException_cases (policy : Policy) (existing : List ExceptionDoc) (x : ExceptionDoc) :
    ExceptionMerge policy existing x (mergeException policy existing x).1
      (mergeException policy existing x).2 := by
  unfold mergeException
  split
  · rename_i hempty
    exact .empty hempty
  · rename_i hdoc
    have hdoc : isUndocumented x.text = false := by simpa using hdoc
    by_cases hdup : IsDuplicate policy existing (tidied x)
    · exact decideException_of_duplicate hdoc hdup
    · exact decideException_of_new hdoc hdup

-- ---------------------------------------------------------------------------
-- The exceptions of a source
-- ---------------------------------------------------------------------------

theorem mergeExceptionList_cons (policy : Policy) (existing : List ExceptionDoc) (x : ExceptionDoc)
    (rest : List ExceptionDoc) :
    mergeExceptionList policy existing (x :: rest) =
      ((mergeExceptionList policy (mergeException policy existing x).1 rest).1,
        (mergeException policy existing x).2 ++
          (mergeExceptionList policy (mergeException policy existing x).1 rest).2) := rfl

/-- What holds of the merge of each exception, and of two merges in a row, holds of all of them. -/
theorem mergeExceptionList_induction (policy : Policy) (existing source : List ExceptionDoc)
    (P : List ExceptionDoc → List ExceptionDoc → List Label → Prop)
    (hnone : ∀ existing, P existing existing [])
    (hone : ∀ x ∈ source, ∀ existing after labels,
      ExceptionMerge policy existing x after labels → P existing after labels)
    (hboth : ∀ a b c first second, P a b first → P b c second → P a c (first ++ second)) :
    P existing (mergeExceptionList policy existing source).1
      (mergeExceptionList policy existing source).2 := by
  induction source generalizing existing with
  | nil => exact hnone existing
  | cons x rest ih =>
    have hhead := hone x List.mem_cons_self existing _ _ (mergeException_cases policy existing x)
    have hrest := ih (mergeException policy existing x).1
      fun y hy => hone y (List.mem_cons_of_mem x hy)
    rw [mergeExceptionList_cons]
    exact hboth _ _ _ _ _ hhead hrest

/-- Exceptions stay in their places with their types, and a documented one stays as it is unless the
policy allows a new text for it. -/
structure ExceptionsKept (policy : Policy) (before after : List ExceptionDoc) : Prop where
  crefs : before.map (·.cref) <+: after.map (·.cref)
  documented : ∀ (place : Nat) (e : ExceptionDoc), before[place]? = some e →
    isUndocumented e.text = false → ∃ e', after[place]? = some e' ∧ isUndocumented e'.text = false ∧
      (policy.replaceExceptions = false → e' = e)

theorem ExceptionsKept.refl (existing : List ExceptionDoc) :
    ExceptionsKept policy existing existing where
  crefs := List.prefix_refl _
  documented := fun _ _ hplace hdoc => ⟨_, hplace, hdoc, fun _ => rfl⟩

theorem ExceptionsKept.trans (h : ExceptionsKept policy a b) (h' : ExceptionsKept policy b c) :
    ExceptionsKept policy a c where
  crefs := h.crefs.trans h'.crefs
  documented := by
    intro place e hplace hdoc
    obtain ⟨e', hplace', hdoc', hsame⟩ := h.documented place e hplace hdoc
    obtain ⟨e'', hplace'', hdoc'', hsame'⟩ := h'.documented place e' hplace' hdoc'
    exact ⟨e'', hplace'', hdoc'', fun hoff => (hsame' hoff).trans (hsame hoff)⟩

theorem ExceptionsKept.set {existing : List ExceptionDoc} (hplace : existing[place]? = some e)
    (hdoc : isUndocumented text = false)
    (hallowed : isUndocumented e.text = false → policy.replaceExceptions = true) :
    ExceptionsKept policy existing (existing.set place { e with text }) where
  crefs := by
    obtain ⟨hlt, rfl⟩ := List.getElem?_eq_some_iff.mp hplace
    have hsame : (existing.set place { existing[place] with text }).map (·.cref) =
        existing.map (·.cref) := by
      refine List.ext_getElem (by simp) fun i _ _ => ?_
      by_cases h : place = i <;> simp [h]
    exact hsame ▸ List.prefix_refl _
  documented := by
    intro other known hother hknown
    by_cases h : other = place
    · subst h
      obtain rfl : known = e := by simpa [hplace] using hother.symm
      have hlt : other < existing.length := (List.getElem?_eq_some_iff.mp hplace).1
      refine ⟨{ known with text }, by simp [hlt], hdoc, fun hoff => ?_⟩
      simp [hallowed hknown] at hoff
    · exact ⟨known, by rw [List.getElem?_set_ne (Ne.symm h), hother], hknown, fun _ => rfl⟩

theorem ExceptionMerge.kept (h : ExceptionMerge policy existing x after labels) :
    ExceptionsKept policy existing after := by
  cases h with
  | empty | duplicate | refused => exact .refl existing
  | rewritten place e hdoc _ hallowed hplace =>
    exact .set hplace (by simpa using hdoc) fun _ => hallowed
  | filled place e hdoc _ hplace _ hempty =>
    exact .set hplace (by simpa using hdoc) fun hfull => by simp [hempty] at hfull
  | appended =>
    refine ⟨by simp, fun place e hplace hdoc => ⟨e, ?_, hdoc, fun _ => rfl⟩⟩
    rw [List.getElem?_append_left (List.getElem?_eq_some_iff.mp hplace).1, hplace]

theorem mergeExceptionList_kept (policy : Policy) (existing source : List ExceptionDoc) :
    ExceptionsKept policy existing (mergeExceptionList policy existing source).1 :=
  mergeExceptionList_induction policy existing source
    (fun before after _ => ExceptionsKept policy before after)
    .refl (fun _ _ _ _ _ h => h.kept) (fun _ _ _ _ _ h h' => h.trans h')

def IsTakenFrom (source : List ExceptionDoc) (e : ExceptionDoc) : Prop :=
  ∃ x ∈ source, isUndocumented x.text = false ∧ e.text = trimmed x.text ∧
    (e.cref = x.cref ∨ sameType e x = true)

theorem taken_of_set {existing : List ExceptionDoc} {there place : Nat} {e : ExceptionDoc}
    (hthere : existing[there]? = some known) (hdoc : isUndocumented x.text = false)
    (htype : sameType known x = true)
    (hplace : (existing.set there { known with text := trimmed x.text })[place]? = some e) :
    existing[place]? = some e ∨ IsTakenFrom [x] e := by
  by_cases h : there = place
  · subst h
    have hlt := (List.getElem?_eq_some_iff.mp hthere).1
    obtain rfl : { known with text := trimmed x.text } = e := by simpa [hlt] using hplace
    exact .inr ⟨x, by simp, hdoc, rfl, .inr htype⟩
  · exact .inl (by rwa [List.getElem?_set_ne h] at hplace)

theorem ExceptionMerge.taken {existing after : List ExceptionDoc} {place : Nat}
    (h : ExceptionMerge policy existing x after labels) (hplace : after[place]? = some e) :
    existing[place]? = some e ∨ IsTakenFrom [x] e := by
  cases h with
  | empty | duplicate | refused => exact .inl hplace
  | rewritten there known hdoc _ _ hthere hrival => exact taken_of_set hthere hdoc hrival.1 hplace
  | filled there known hdoc _ hthere htype => exact taken_of_set hthere hdoc htype hplace
  | appended hdoc =>
    rcases Nat.lt_or_ge place existing.length with hlt | hge
    · exact .inl (by rwa [List.getElem?_append_left hlt] at hplace)
    · rw [List.getElem?_append_right hge, List.getElem?_singleton] at hplace
      split at hplace
      · obtain rfl : tidied x = e := by simpa using hplace
        exact .inr ⟨x, by simp, hdoc, rfl, .inl rfl⟩
      · simp at hplace

theorem mergeExceptionList_taken (policy : Policy) (existing source : List ExceptionDoc)
    {place : Nat} (hplace : (mergeExceptionList policy existing source).1[place]? = some e) :
    existing[place]? = some e ∨ IsTakenFrom source e := by
  refine mergeExceptionList_induction policy existing source
    (fun before after _ => ∀ {e : ExceptionDoc}, after[place]? = some e →
      before[place]? = some e ∨ IsTakenFrom source e)
    (fun _ _ h => .inl h) ?_ ?_ hplace
  · intro x hx before after labels h e hplace
    rcases h.taken hplace with hbefore | ⟨y, hy, hfrom⟩
    · exact .inl hbefore
    · obtain rfl := List.mem_singleton.mp hy
      exact .inr ⟨y, hx, hfrom⟩
  · intro a b c _ _ h h' e hplace
    rcases h' hplace with hmid | hfrom
    · exact h hmid
    · exact .inr hfrom

-- ---------------------------------------------------------------------------
-- The places that are written to
-- ---------------------------------------------------------------------------

def IsDocumentedAt (existing : List ExceptionDoc) (place : Nat) : Prop :=
  ∃ e, existing[place]? = some e ∧ isUndocumented e.text = false

def IsLabelAt (existing : List ExceptionDoc) (place : Nat) (label : Label) : Prop :=
  ∃ e x, existing[place]? = some e ∧ label = .exception x.cref ∧
    (e.cref = x.cref ∨ sameType e x = true)

/-- Exceptions were written to the given places, each of which held no documented exception before,
and each has a label. All other places are as they were. -/
structure Writes (before after : List ExceptionDoc) (places : List Nat) (labels : List Label) :
    Prop where
  distinct : places.Nodup
  empty : ∀ p ∈ places, ¬ IsDocumentedAt before p
  documented : ∀ p ∈ places, IsDocumentedAt after p
  others : ∀ p ∉ places, after[p]? = before[p]?
  labelled : List.Forall₂ (IsLabelAt after) places labels

theorem IsDocumentedAt.congr {a b : List ExceptionDoc} (h : a[place]? = b[place]?) :
    IsDocumentedAt a place ↔ IsDocumentedAt b place := by
  rw [IsDocumentedAt, IsDocumentedAt, h]

theorem Writes.refl (existing : List ExceptionDoc) : Writes existing existing [] [] where
  distinct := List.nodup_nil
  empty := by simp
  documented := by simp
  others := by simp
  labelled := .nil

theorem Writes.trans (h : Writes before between ps ls) (h' : Writes between after qs ms) :
    Writes before after (ps ++ qs) (ls ++ ms) := by
  -- A place that has been written to is documented, so it is not written to again.
  have hdisjoint : ∀ p ∈ ps, p ∉ qs := fun p hp hq => h'.empty p hq (h.documented p hp)
  refine ⟨?_, ?_, ?_, ?_, ?_⟩
  · exact List.nodup_append.mpr ⟨h.distinct, h'.distinct,
      fun p hp q hq heq => hdisjoint p hp (heq ▸ hq)⟩
  · intro p hp
    rcases List.mem_append.mp hp with hp | hq
    · exact h.empty p hp
    · have hother : p ∉ ps := fun hp => hdisjoint p hp hq
      rw [← IsDocumentedAt.congr (h.others p hother)]
      exact h'.empty p hq
  · intro p hp
    rcases List.mem_append.mp hp with hp | hq
    · rw [IsDocumentedAt.congr (h'.others p (hdisjoint p hp))]
      exact h.documented p hp
    · exact h'.documented p hq
  · intro p hp
    simp only [List.mem_append, not_or] at hp
    rw [h'.others p hp.2, h.others p hp.1]
  · refine List.rel_append ?_ h'.labelled
    have hsame : ∀ p ∈ ps, after[p]? = between[p]? := fun p hp => h'.others p (hdisjoint p hp)
    refine (List.forall₂_iff_zip.mp h.labelled).elim fun hlen hall => ?_
    refine List.forall₂_iff_zip.mpr ⟨hlen, fun {p l} hpl => ?_⟩
    obtain ⟨e, x, hplace, hrest⟩ := hall hpl
    exact ⟨e, x, by rw [hsame p (List.of_mem_zip hpl).1, hplace], hrest⟩

/-- With no new texts for documented exceptions, a merge writes to at most one place. -/
theorem ExceptionMerge.writes (h : ExceptionMerge policy existing x after labels)
    (hoff : policy.replaceExceptions = false) : ∃ places, Writes existing after places labels := by
  cases h with
  | empty | duplicate | refused => exact ⟨[], .refl existing⟩
  | rewritten place e _ _ hallowed => simp [hoff] at hallowed
  | filled place e hdoc _ hplace htype hempty =>
    have hlt := (List.getElem?_eq_some_iff.mp hplace).1
    have hnew : (existing.set place { e with text := trimmed x.text })[place]? =
        some { e with text := trimmed x.text } := by simp [hlt]
    refine ⟨[place], by simp, ?_, ?_, ?_, .cons ⟨_, x, hnew, rfl, .inr htype⟩ .nil⟩
    · intro p hp
      obtain rfl := List.mem_singleton.mp hp
      rintro ⟨known, hknown, hfull⟩
      obtain rfl : known = e := by simpa [hplace] using hknown.symm
      simp [hempty] at hfull
    · intro p hp
      obtain rfl := List.mem_singleton.mp hp
      exact ⟨_, hnew, by simpa using hdoc⟩
    · intro p hp
      rw [List.getElem?_set_ne (fun heq => hp (by simp [heq]))]
  | appended hdoc =>
    have hnew : (existing ++ [tidied x])[existing.length]? = some (tidied x) := by simp
    refine ⟨[existing.length], by simp, ?_, ?_, ?_, .cons ⟨_, x, hnew, rfl, .inl rfl⟩ .nil⟩
    · intro p hp
      obtain rfl := List.mem_singleton.mp hp
      simp [IsDocumentedAt]
    · intro p hp
      obtain rfl := List.mem_singleton.mp hp
      exact ⟨_, hnew, by simpa [tidied] using hdoc⟩
    · intro p hp
      have hne : p ≠ existing.length := fun heq => hp (by simp [heq])
      rcases Nat.lt_or_ge p existing.length with hlt | hge
      · rw [List.getElem?_append_left hlt]
      · rw [List.getElem?_eq_none (by simp; omega), List.getElem?_eq_none hge]

theorem mergeExceptionList_writes (policy : Policy) (existing source : List ExceptionDoc)
    (hoff : policy.replaceExceptions = false) :
    ∃ places, Writes existing (mergeExceptionList policy existing source).1 places
      (mergeExceptionList policy existing source).2 :=
  mergeExceptionList_induction policy existing source
    (fun before after labels => ∃ places, Writes before after places labels)
    (fun es => ⟨[], .refl es⟩) (fun _ _ _ _ _ h => h.writes hoff)
    (fun _ _ _ _ _ ⟨_, h⟩ ⟨_, h'⟩ => ⟨_, h.trans h'⟩)

theorem Writes.mem_iff (h : Writes before after places labels) :
    p ∈ places ↔ after[p]? ≠ before[p]? := by
  constructor
  · intro hp hsame
    exact h.empty p hp ((IsDocumentedAt.congr hsame).mp (h.documented p hp))
  · intro hne
    exact Decidable.byContradiction fun hp => hne (h.others p hp)

-- ---------------------------------------------------------------------------
-- Merging again
-- ---------------------------------------------------------------------------

/-- An exception for which a list has no use, as long as documented exceptions keep their texts. -/
def IsSettled (policy : Policy) (existing : List ExceptionDoc) (x : ExceptionDoc) : Prop :=
  isUndocumented x.text = true ∨ IsDuplicate policy existing (tidied x) ∨
    (policy.addExceptions = false ∧
      ∀ e ∈ existing, sameType e x = true → isUndocumented e.text = false)

theorem ExceptionMerge.nothing (h : ExceptionMerge policy existing x after labels)
    (hsettled : IsSettled policy existing x) (hoff : policy.replaceExceptions = false) :
    after = existing ∧ labels = [] := by
  cases h with
  | empty | duplicate | refused => exact ⟨rfl, rfl⟩
  | rewritten _ _ _ _ hallowed => simp [hoff] at hallowed
  | filled place e hdoc hdup hplace htype hempty =>
    rcases hsettled with hblank | hdup' | ⟨-, hfull⟩
    · simp [hdoc] at hblank
    · exact absurd hdup' hdup
    · simp [hfull e (List.mem_of_getElem? hplace) htype] at hempty
  | appended hdoc hdup _ hadd =>
    rcases hsettled with hblank | hdup' | ⟨hoff, -⟩
    · simp [hdoc] at hblank
    · exact absurd hdup' hdup
    · simp [hadd] at hoff

theorem isDuplicate_of_mem (hmem : e ∈ existing) (htype : sameType e x = true)
    (htext : e.text = trimmed x.text) (hdoc : isUndocumented x.text = false)
    (hthreshold : policy.collisionThreshold ≤ 100) : IsDuplicate policy existing (tidied x) := by
  refine ⟨e, hmem, ⟨htype, ?_⟩, ?_⟩
  · rw [htext, isUndocumented_trimmed, hdoc]
  · rw [show (tidied x).text = e.text from htext.symm, similarity_self]
    exact_mod_cast hthreshold

theorem ExceptionMerge.settled (h : ExceptionMerge policy existing x after labels)
    (hkey : isUndocumented x.text = false → (Key.ofDocId x.cref).isValid = true)
    (hthreshold : policy.collisionThreshold ≤ 100) : IsSettled policy after x := by
  have hwritten : ∀ {place : Nat} {e : ExceptionDoc}, existing[place]? = some e →
      { e with text := trimmed x.text } ∈
        existing.set place { e with text := trimmed x.text } := fun {place} {e} hplace =>
    List.mem_set (List.getElem?_eq_some_iff.mp hplace).1 _
  cases h with
  | empty hempty => exact .inl hempty
  | duplicate _ hdup => exact .inr (.inl hdup)
  | rewritten _ e hdoc _ _ hplace hrival =>
    exact .inr (.inl (isDuplicate_of_mem (hwritten hplace) hrival.1 rfl hdoc hthreshold))
  | filled _ e hdoc _ hplace htype =>
    exact .inr (.inl (isDuplicate_of_mem (hwritten hplace) htype rfl hdoc hthreshold))
  | appended hdoc =>
    have htype : sameType (tidied x) x = true := by
      rw [sameType, tidied, Key.agrees_self, hkey hdoc]
    exact .inr (.inl (isDuplicate_of_mem (by simp) htype rfl hdoc hthreshold))
  | refused _ _ hfull hadd => exact .inr (.inr ⟨hadd, hfull⟩)

/-- What is settled stays so: documented exceptions stay, and no empty ones are added. -/
theorem IsSettled.later (hsettled : IsSettled policy existing y)
    (h : ExceptionMerge policy existing x after labels) (hoff : policy.replaceExceptions = false) :
    IsSettled policy after y := by
  rcases hsettled with hempty | ⟨e, hmem, hrival, hscore⟩ | ⟨hadd, hfull⟩
  · exact .inl hempty
  · obtain ⟨place, hplace⟩ := List.mem_iff_getElem?.mp hmem
    obtain ⟨e', hplace', -, hsame⟩ := h.kept.documented place e hplace hrival.2
    obtain rfl := hsame hoff
    exact .inr (.inl ⟨e', List.mem_of_getElem? hplace', hrival, hscore⟩)
  · refine .inr (.inr ⟨hadd, fun e hmem htype => ?_⟩)
    obtain ⟨place, hplace⟩ := List.mem_iff_getElem?.mp hmem
    rcases h.taken hplace with hbefore | ⟨z, _, hdoc, htext, _⟩
    · exact hfull e (List.mem_of_getElem? hbefore) htype
    · rw [htext, isUndocumented_trimmed, hdoc]

theorem mergeExceptionList_settled_later (hsettled : IsSettled policy existing y)
    (hoff : policy.replaceExceptions = false) (source : List ExceptionDoc) :
    IsSettled policy (mergeExceptionList policy existing source).1 y :=
  mergeExceptionList_induction policy _ source
    (fun before after _ => IsSettled policy before y → IsSettled policy after y)
    (fun _ h => h) (fun _ _ _ _ _ h hs => hs.later h hoff) (fun _ _ _ _ _ h h' hs => h' (h hs))
    hsettled

theorem mergeExceptionList_settled (hoff : policy.replaceExceptions = false)
    (hthreshold : policy.collisionThreshold ≤ 100) (existing : List ExceptionDoc) :
    ∀ x ∈ source, (isUndocumented x.text = false → (Key.ofDocId x.cref).isValid = true) →
      IsSettled policy (mergeExceptionList policy existing source).1 x := by
  induction source generalizing existing with
  | nil => simp
  | cons y rest ih =>
    rw [mergeExceptionList_cons]
    intro x hx hkey
    rcases List.mem_cons.mp hx with rfl | hx
    · exact mergeExceptionList_settled_later
        ((mergeException_cases policy existing x).settled hkey hthreshold) hoff rest
    · exact ih _ x hx hkey

theorem mergeExceptionList_nothing (hoff : policy.replaceExceptions = false)
    (hsettled : ∀ x ∈ source, IsSettled policy existing x) :
    mergeExceptionList policy existing source = (existing, []) := by
  induction source with
  | nil => rfl
  | cons x rest ih =>
    obtain ⟨hafter, hlabels⟩ := (mergeException_cases policy existing x).nothing
      (hsettled x List.mem_cons_self) hoff
    simp only [mergeExceptionList_cons, hafter, hlabels,
      ih fun y hy => hsettled y (List.mem_cons_of_mem x hy), List.nil_append]

theorem mergeExceptionList_again
    (hkeys : ∀ x ∈ source, isUndocumented x.text = false → (Key.ofDocId x.cref).isValid = true)
    (hoff : policy.replaceExceptions = false) (hthreshold : policy.collisionThreshold ≤ 100)
    (existing : List ExceptionDoc) :
    mergeExceptionList policy (mergeExceptionList policy existing source).1 source =
      ((mergeExceptionList policy existing source).1, []) :=
  mergeExceptionList_nothing hoff fun x hx =>
    mergeExceptionList_settled hoff hthreshold existing x hx (hkeys x hx)

end DocMerge.Merge

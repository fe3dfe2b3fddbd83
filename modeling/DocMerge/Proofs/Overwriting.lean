import DocMerge.Proofs.Blocks
import DocMerge.Proofs.Thresholds

/-!
# New texts for documented exceptions

A policy may allow an exception of a source to give its text to the documented one that is closest
to it. Nothing else is looked at: neither whether that text has come from the same source a step
earlier, nor whether the new text is close to another one.

So a second merge of one source need not leave the result of the first alone. `overwriting_settles`
tells exactly when it does, and that it does wherever different texts of a source are less similar
than the threshold. And a text may come to stand beside a near-duplicate: `overwritten_beside_iff`
tells exactly when.
-/

namespace DocMerge.Merge

open DocId (Key)

-- ---------------------------------------------------------------------------
-- The closest exception
-- ---------------------------------------------------------------------------

structure IsClosest (incoming : ExceptionDoc) (existing : List ExceptionDoc) (place : Nat)
    (e : ExceptionDoc) :
    Prop where
  there : existing[place]? = some e
  rival : IsRival incoming e
  most : ∀ other ∈ existing, IsRival incoming other →
    similarity other.text incoming.text ≤ similarity e.text incoming.text
  first : ∀ earlier < place, ∀ other, existing[earlier]? = some other → IsRival incoming other →
    similarity other.text incoming.text < similarity e.text incoming.text

theorem IsClosest.unique (h : IsClosest incoming existing place e)
    (h' : IsClosest incoming existing place' e') :
    e = e' := by
  rcases Nat.lt_trichotomy place place' with hlt | rfl | hgt
  · exact absurd (h.most e' (List.mem_of_getElem? h'.there) h'.rival)
      (Rat.not_le.mpr (h'.first place hlt e h.there h.rival))
  · exact Option.some.inj (h.there.symm.trans h'.there)
  · exact absurd (h'.most e (List.mem_of_getElem? h.there) h.rival)
      (Rat.not_le.mpr (h.first place' hgt e' h'.there h'.rival))

theorem IsClosest.append (h : IsClosest incoming known place e)
    (hle : IsRival incoming next → similarity next.text incoming.text ≤
      similarity e.text incoming.text) :
    IsClosest incoming (known ++ [next]) place e where
  there := by
    rw [List.getElem?_append_left (List.getElem?_eq_some_iff.mp h.there).1, h.there]
  rival := h.rival
  most := by
    intro other hmem hrival
    rcases List.mem_append.mp hmem with hmem | hmem
    · exact h.most other hmem hrival
    · obtain rfl := List.mem_singleton.mp hmem
      exact hle hrival
  first := by
    intro earlier hlt other hother
    have hlength := (List.getElem?_eq_some_iff.mp h.there).1
    rw [List.getElem?_append_left (Nat.lt_trans hlt hlength)] at hother
    exact h.first earlier hlt other hother

theorem isClosest_concat {known : List ExceptionDoc} (hrival : IsRival incoming next)
    (hless : ∀ other ∈ known, IsRival incoming other →
      similarity other.text incoming.text < similarity next.text incoming.text) :
    IsClosest incoming (known ++ [next]) known.length next where
  there := by simp
  rival := hrival
  most := by
    intro other hmem hother
    rcases List.mem_append.mp hmem with hmem | hmem
    · exact Rat.le_of_lt (hless other hmem hother)
    · obtain rfl := List.mem_singleton.mp hmem
      exact Rat.le_refl
  first := by
    intro earlier hlt other hplace
    rw [List.getElem?_append_left hlt] at hplace
    exact hless other (List.mem_of_getElem? hplace)

def BestMatch.IsOf (incoming : ExceptionDoc) (known : List ExceptionDoc) : BestMatch → Prop
  | none => ∀ e ∈ known, ¬ IsRival incoming e
  | some (place, score) =>
    ∃ e, IsClosest incoming known place e ∧ score = similarity e.text incoming.text

theorem BestMatch.isOf_some :
    BestMatch.IsOf incoming known (some (place, score)) ↔
      ∃ e, IsClosest incoming known place e ∧ score = similarity e.text incoming.text :=
  Iff.rfl

theorem BestMatch.IsOf.skip {best : BestMatch} (h : best.IsOf incoming known)
    (hnot : ¬ IsRival incoming next) :
    best.IsOf incoming (known ++ [next]) := by
  cases best with
  | none => simpa [IsOf, or_imp, forall_and, hnot] using h
  | some found =>
    obtain ⟨e, hclosest, hscore⟩ := isOf_some.mp h
    exact isOf_some.mpr ⟨e, hclosest.append fun hrival => absurd hrival hnot, hscore⟩

theorem BestMatch.IsOf.offer {best : BestMatch} (h : best.IsOf incoming known)
    (hrival : IsRival incoming next)
    (hscore : score = similarity next.text incoming.text) :
    (best.offer known.length score).IsOf incoming (known ++ [next]) := by
  cases best with
  | none =>
    refine isOf_some.mpr ⟨next, isClosest_concat hrival fun other hmem hother => ?_, hscore⟩
    exact absurd hother (h other hmem)
  | some found =>
    obtain ⟨place, highest⟩ := found
    obtain ⟨e, hclosest, hhighest⟩ := isOf_some.mp h
    simp only [BestMatch.offer]
    split
    · rename_i hcloser
      refine isOf_some.mpr ⟨next, isClosest_concat hrival fun other hmem hother => ?_, hscore⟩
      have hle := hclosest.most other hmem hother
      rw [← hhighest] at hle
      rw [← hscore]
      exact lt_of_le_of_lt hle hcloser
    · rename_i hnot
      refine isOf_some.mpr ⟨e, hclosest.append fun _ => ?_, hhighest⟩
      rw [← hscore, ← hhighest]
      exact Rat.not_lt.mp hnot

theorem mostSimilar_isOf {best : BestMatch} (h : best.IsOf incoming known)
    (rest : List ExceptionDoc) :
    (mostSimilar incoming known.length best rest).IsOf incoming (known ++ rest) := by
  induction rest generalizing known best with
  | nil => simpa [mostSimilar] using h
  | cons next rest ih =>
    have hstep : BestMatch.IsOf incoming (known ++ [next])
        (if sameType next incoming && !isUndocumented next.text then
          best.offer known.length (similarity next.text incoming.text) else best) := by
      split
      · rename_i hrival
        simp only [Bool.and_eq_true, Bool.not_eq_true'] at hrival
        exact h.offer hrival rfl
      · rename_i hnot
        refine h.skip fun hrival => hnot ?_
        simp [hrival.1, hrival.2]
    have hnext := ih hstep
    rw [List.length_append, List.append_assoc] at hnext
    exact hnext

theorem isClosest_of_mostSimilar (h : mostSimilar incoming 0 none existing = some (place, score)) :
    ∃ e, IsClosest incoming existing place e ∧ score = similarity e.text incoming.text := by
  have hnone : BestMatch.IsOf incoming [] none := by simp [BestMatch.IsOf]
  have hof := mostSimilar_isOf hnone existing
  rwa [List.nil_append, List.length_nil, h] at hof

-- ---------------------------------------------------------------------------
-- One step
-- ---------------------------------------------------------------------------

/-- The text of an exception has been written to one place of a list: over the text of the closest
exception, if that is close enough, into a gap, or behind the list. -/
structure WritesTo (policy : Policy) (existing after : List ExceptionDoc)
    (z : ExceptionDoc) (place : Nat) :
    Prop where
  documented : isUndocumented z.text = false
  written : ∃ w, after[place]? = some w ∧ w.text = trimmed z.text ∧
    Key.ofDocId w.cref = Key.ofDocId z.cref
  others : ∀ other, other ≠ place → after[other]? = existing[other]?
  overwritten : ∀ e, existing[place]? = some e → isUndocumented e.text = false →
    policy.replaceExceptions = true ∧ IsClosest (tidied z) existing place e ∧
      policy.collisionThreshold ≤ similarity e.text z.text ∧ e.text ≠ trimmed z.text
  gap : (∀ e, existing[place]? = some e → isUndocumented e.text = true) →
    ¬ IsDuplicate policy existing (tidied z)
  types : ∀ e, existing[place]? = some e → sameType e z = true
  behind : existing[place]? = none → policy.addExceptions = true

theorem writesTo_set {existing : List ExceptionDoc} (hdoc : isUndocumented z.text = false)
    (hplace : existing[place]? = some e) (htype : sameType e z = true)
    (hover : isUndocumented e.text = false → policy.replaceExceptions = true ∧
      IsClosest (tidied z) existing place e ∧ policy.collisionThreshold ≤ similarity e.text z.text ∧
      e.text ≠ trimmed z.text)
    (hgap : isUndocumented e.text = true → ¬ IsDuplicate policy existing (tidied z)) :
    WritesTo policy existing (existing.set place { e with text := trimmed z.text }) z place := by
  have hlt := (List.getElem?_eq_some_iff.mp hplace).1
  refine ⟨hdoc, ⟨_, List.getElem?_set_self hlt, rfl, key_eq_of_sameType htype⟩, fun other hne =>
    ?_, ?_, ?_, ?_, ?_⟩
  · exact List.getElem?_set_ne (Ne.symm hne)
  · rintro e' he'
    obtain rfl := Option.some.inj (hplace.symm.trans he')
    exact hover
  · exact fun hempty => hgap (hempty e hplace)
  · rintro e' he'
    obtain rfl := Option.some.inj (hplace.symm.trans he')
    exact htype
  · exact fun hnone => by simp [hplace] at hnone

/-- What is close enough to a documented exception is given to the closest one, if the policy allows
it and the texts differ. -/
theorem mergeException_of_duplicate (hdoc : isUndocumented z.text = false)
    (hdup : IsDuplicate policy existing (tidied z)) :
    ∃ place e, IsClosest (tidied z) existing place e ∧
    policy.collisionThreshold ≤ similarity e.text z.text ∧
      mergeException policy existing z =
        if policy.replaceExceptions = true ∧ e.text ≠ trimmed z.text then
          (existing.set place { e with text := trimmed z.text }, [.exception z.cref])
        else (existing, []) := by
  have hcollision := isCollision_iff.mpr hdup
  cases hbest : mostSimilar (tidied z) 0 none existing with
  | none => simp [hbest, isCollision] at hcollision
  | some found =>
    obtain ⟨place, score⟩ := found
    obtain ⟨e, hclosest, hscore⟩ := isClosest_of_mostSimilar hbest
    have hreaches : policy.collisionThreshold ≤ score := by
      simpa [hbest, isCollision] using hcollision
    rw [hscore, tidied, similarity_trimmed] at hreaches
    refine ⟨place, e, hclosest, hreaches, ?_⟩
    have hstep : decideException policy existing (tidied z) =
        if policy.replaceExceptions = true ∧ e.text ≠ trimmed z.text
          then .replace place else .leave := by
      rw [decideException, if_pos hcollision, hbest]
      simp [hclosest.there, tidied]
    have hmerge : mergeException policy existing z =
        ((decideException policy existing (tidied z)).apply existing (tidied z),
          if decideException policy existing (tidied z) = .leave then []
            else [.exception z.cref]) := by
      rw [mergeException, if_neg (by simp [hdoc])]
      rfl
    rw [hmerge, hstep]
    split
    · rw [ExceptionStep.apply, modify_text existing hclosest.there]
      rfl
    · rfl

/-- The merge of an exception changes nothing, or writes to one place. -/
theorem mergeException_writesTo (policy : Policy) (existing : List ExceptionDoc)
    (z : ExceptionDoc) :
    mergeException policy existing z = (existing, []) ∨
      (mergeException policy existing z).2 ≠ [] ∧
        ∃ place, WritesTo policy existing (mergeException policy existing z).1 z place := by
  by_cases hdup : isUndocumented z.text = false ∧ IsDuplicate policy existing (tidied z)
  · obtain ⟨hdoc, hdup⟩ := hdup
    obtain ⟨place, e, hclosest, hscore, hmerge⟩ := mergeException_of_duplicate hdoc hdup
    rw [hmerge]
    split
    · rename_i hover
      refine .inr ⟨List.cons_ne_nil _ _, place, writesTo_set hdoc hclosest.there hclosest.rival.1
        (fun _ => ⟨hover.1, hclosest, hscore, hover.2⟩) fun hempty => ?_⟩
      simp [hclosest.rival.2] at hempty
    · exact .inl rfl
  · generalize hafter : mergeException policy existing z = merged
    obtain ⟨after, labels⟩ := merged
    have hcases : ExceptionMerge policy existing z after labels := by
      have := mergeException_cases policy existing z
      rwa [hafter] at this
    cases hcases with
    | empty | duplicate | refused => exact .inl rfl
    | rewritten place e hdoc hdup' => exact absurd ⟨hdoc, hdup'⟩ hdup
    | filled place e hdoc hnew hplace htype hempty =>
      exact .inr ⟨List.cons_ne_nil _ _, place, writesTo_set hdoc hplace htype
        (fun hfull => by simp [hempty] at hfull) fun _ => hnew⟩
    | appended hdoc hnew hfull hadd =>
      have hnone : ∀ {e}, existing[existing.length]? = some e → False := by simp
      refine .inr ⟨List.cons_ne_nil _ _, existing.length, hdoc, ⟨tidied z, by simp, rfl, rfl⟩, ?_,
        fun e he => (hnone he).elim, fun _ => hnew, fun e he => (hnone he).elim, fun _ => hadd⟩
      intro other hne
      rcases Nat.lt_or_gt_of_ne hne with hlt | hgt
      · exact List.getElem?_append_left hlt
      · rw [List.getElem?_eq_none (by simp; omega), List.getElem?_eq_none (by omega)]

-- ---------------------------------------------------------------------------
-- At rest
-- ---------------------------------------------------------------------------

/-- The text of an exception stands in a list, and no text of its type before it is as similar as
can be. -/
def Stands (existing : List ExceptionDoc) (x : ExceptionDoc) : Prop :=
  ∃ (place : Nat) (e : ExceptionDoc), existing[place]? = some e ∧ sameType e x = true ∧
  e.text = trimmed x.text ∧
    ∀ earlier < place, ∀ other, existing[earlier]? = some other → IsRival x other →
      similarity other.text x.text < 100

structure IsRefused (policy : Policy) (existing : List ExceptionDoc) (x : ExceptionDoc) : Prop where
  refused : policy.addExceptions = false
  new : ¬ IsDuplicate policy existing (tidied x)
  full : ∀ e ∈ existing, sameType e x = true → isUndocumented e.text = false

def AtRest (policy : Policy) (existing : List ExceptionDoc) (x : ExceptionDoc) : Prop :=
  isUndocumented x.text = true ∨ Stands existing x ∨ IsRefused policy existing x

section
variable {policy : Policy} {existing : List ExceptionDoc} {x : ExceptionDoc}

theorem Stands.isClosest (h : Stands existing x) (hdoc : isUndocumented x.text = false) :
    ∃ place e, IsClosest (tidied x) existing place e ∧ e.text = trimmed x.text := by
  obtain ⟨place, e, hplace, htype, htext, hfirst⟩ := h
  have hscore : similarity e.text (tidied x).text = 100 := by rw [tidied, htext, similarity_self]
  have htrimmed : ∀ other, similarity other (tidied x).text = similarity other x.text :=
    fun other => similarity_trimmed other x.text
  refine ⟨place, e, ⟨hplace, ⟨htype, by rw [htext, isUndocumented_trimmed, hdoc]⟩,
    fun other _ _ => ?_,
    fun earlier hlt other hother hrival => ?_⟩, htext⟩
  · rw [hscore]
    exact similarity_le _ _
  · rw [hscore, htrimmed]
    exact hfirst earlier hlt other hother hrival

theorem IsClosest.stands (h : IsClosest (tidied x) existing place e)
    (htext : e.text = trimmed x.text) :
    Stands existing x := by
  refine ⟨place, e, h.there, h.rival.1, htext, fun earlier hlt other hother hrival => ?_⟩
  have hless := h.first earlier hlt other hother hrival
  rwa [tidied, htext, similarity_self, similarity_trimmed] at hless

theorem mergeException_eq_self_iff (hreplace : policy.replaceExceptions = true)
    (hthreshold : policy.collisionThreshold ≤ 100) :
    mergeException policy existing x = (existing, []) ↔ AtRest policy existing x := by
  cases hdoc : isUndocumented x.text with
  | true => simp [mergeException, AtRest, hdoc]
  | false =>
    have hrest : AtRest policy existing x ↔ Stands existing x ∨ IsRefused policy existing x := by
      simp [AtRest, hdoc]
    rw [hrest]
    by_cases hdup : IsDuplicate policy existing (tidied x)
    · obtain ⟨place, e, hclosest, -, hmerge⟩ := mergeException_of_duplicate hdoc hdup
      have hstands : Stands existing x ↔ e.text = trimmed x.text := by
        refine ⟨fun h => ?_, hclosest.stands⟩
        obtain ⟨place', e', hclosest', htext⟩ := h.isClosest hdoc
        rw [hclosest.unique hclosest', htext]
      have hrefused : ¬ IsRefused policy existing x := fun h => h.new hdup
      rw [hmerge, or_iff_left hrefused, hstands]
      by_cases htext : e.text = trimmed x.text <;> simp [hreplace, htext]
    · have hstands : ¬ Stands existing x := by
        rintro ⟨place, e, hplace, htype, htext, -⟩
        exact hdup (isDuplicate_of_mem (List.mem_of_getElem? hplace) htype htext hdoc hthreshold)
      have hcases := mergeException_cases policy existing x
      rw [or_iff_right hstands]
      generalize mergeException policy existing x = merged at hcases ⊢
      obtain ⟨after, labels⟩ := merged
      cases hcases with
      | empty hempty => simp [hdoc] at hempty
      | duplicate _ hdup' | rewritten _ _ _ hdup' => exact absurd hdup' hdup
      | filled place e _ _ hplace htype hempty =>
        refine iff_of_false (by simp) fun hrefused => ?_
        simp [hrefused.full e (List.mem_of_getElem? hplace) htype] at hempty
      | appended _ _ _ hadd =>
        exact iff_of_false (by simp) fun hrefused => by simp [hrefused.refused] at hadd
      | refused _ hnew hfull hrefused => exact iff_of_true rfl ⟨hrefused, hnew, hfull⟩

theorem mergeExceptionList_eq_self_iff (hreplace : policy.replaceExceptions = true)
    (hthreshold : policy.collisionThreshold ≤ 100) (source : List ExceptionDoc) :
    mergeExceptionList policy existing source = (existing, []) ↔
    ∀ x ∈ source, AtRest policy existing x := by
  induction source with
  | nil => simp [mergeExceptionList]
  | cons x rest ih =>
    rw [List.forall_mem_cons, ← mergeException_eq_self_iff hreplace hthreshold, ← ih,
      mergeExceptionList_cons]
    rcases mergeException_writesTo policy existing x with hsame | ⟨hlabels, -⟩
    · simp [hsame, Prod.ext_iff]
    · have hne : mergeException policy existing x ≠ (existing, []) :=
        fun h => hlabels (congrArg Prod.snd h)
      simp [hne, hlabels]

def IsApart (policy : Policy) (x y : ExceptionDoc) : Prop :=
  sameType x y = true → trimmed x.text ≠ trimmed y.text →
  similarity x.text y.text < policy.collisionThreshold

/-- An exception that has been merged is at rest. -/
theorem WritesTo.atRest (h : WritesTo policy existing after x place)
    (hthreshold : policy.collisionThreshold ≤ 100)
    (hkey : (Key.ofDocId x.cref).isValid = true) : AtRest policy after x := by
  obtain ⟨w, hplace, htext, hcref⟩ := h.written
  have htype : sameType w x = true := Key.agrees_iff.mpr ⟨hcref ▸ hkey, hcref⟩
  have hthreshold : (policy.collisionThreshold : Score) ≤ 100 := by exact_mod_cast hthreshold
  refine .inr (.inl ⟨place, w, hplace, htype, htext, fun earlier hlt other hother hrival => ?_⟩)
  rw [h.others earlier (Nat.ne_of_lt hlt)] at hother
  by_cases hover : ∃ e, existing[place]? = some e ∧ isUndocumented e.text = false
  · -- What it was written over was closer than all that stand before.
    obtain ⟨e, he, hdoc⟩ := hover
    obtain ⟨-, hclosest, -, -⟩ := h.overwritten e he hdoc
    have hless := hclosest.first earlier hlt other hother hrival
    rw [tidied, similarity_trimmed, similarity_trimmed] at hless
    exact lt_of_lt_of_le hless (similarity_le _ _)
  · have hnew := h.gap fun e he => by
      cases hdoc : isUndocumented e.text with
      | true => rfl
      | false => exact absurd ⟨e, he, hdoc⟩ hover
    have hless := similarity_lt_of_not_duplicate hnew (List.mem_of_getElem? hother) hrival
    rw [similarity_trimmed] at hless
    exact lt_of_lt_of_le hless hthreshold

/-- What stands in a list still stands there when an exception that is apart from it has been
written. -/
theorem Stands.later (hstands : Stands existing x) (h : WritesTo policy existing after z place)
    (hthreshold : policy.collisionThreshold ≤ 100) (hdoc : isUndocumented x.text = false)
    (hfirst : IsApart policy x z) (hsecond : IsApart policy z x) : Stands after x := by
  obtain ⟨there, e, hthere, htype, htext, hbefore⟩ := hstands
  obtain ⟨w, hplace, hw, hcref⟩ := h.written
  have hthreshold : (policy.collisionThreshold : Score) ≤ 100 := by exact_mod_cast hthreshold
  have hkept : ∀ earlier, earlier ≠ place → earlier < there →
      ∀ other, after[earlier]? = some other →
      IsRival x other → similarity other.text x.text < 100 := fun earlier hne hlt other hother =>
    hbefore earlier hlt other (h.others earlier hne ▸ hother)
  have hne : there ≠ place := by
    rintro rfl
    obtain ⟨-, hclosest, hscore, hdiffers⟩ :=
      h.overwritten e hthere (by rw [htext, isUndocumented_trimmed, hdoc])
    have hsame : sameType x z = true := sameType_trans (sameType_comm e x ▸ htype) hclosest.rival.1
    rw [htext, trimmed_similarity] at hscore
    exact absurd hscore (Rat.not_le.mpr (hfirst hsame (htext ▸ hdiffers)))
  have hwx : sameType w x = sameType z x := sameType_congr hcref x
  by_cases hearly : place < there ∧ sameType z x = true ∧ trimmed z.text = trimmed x.text
  · -- The same text has been written before it.
    obtain ⟨hlt, hsame, hequal⟩ := hearly
    exact ⟨place, w, hplace, hwx ▸ hsame, hw.trans hequal, fun earlier hearlier =>
      hkept earlier (Nat.ne_of_lt hearlier) (Nat.lt_trans hearlier hlt)⟩
  · refine ⟨there,
      e, by
      rw [h.others there hne, hthere], htype, htext, fun earlier hlt other hother hrival => ?_⟩
    by_cases heq : earlier = place
    · subst heq
      obtain rfl := Option.some.inj (hplace.symm.trans hother)
      have hsame : sameType z x = true := hwx ▸ hrival.1
      have hless := hsecond hsame fun hequal => hearly ⟨hlt, hsame, hequal⟩
      rw [hw, trimmed_similarity]
      exact lt_of_lt_of_le hless hthreshold
    · exact hkept earlier heq hlt other hother hrival

/-- What has been refused is still refused when an exception that is apart from it has been
written. -/
theorem IsRefused.later (hrefused : IsRefused policy existing x)
    (h : WritesTo policy existing after z place)
    (hsecond : IsApart policy z x) : IsRefused policy after x := by
  obtain ⟨w, hplace, hw, hcref⟩ := h.written
  have hwx : sameType w x = sameType z x := sameType_congr hcref x
  refine ⟨hrefused.refused, ?_, fun e hmem htype => ?_⟩
  · rintro ⟨e, hmem, hrival, hscore⟩
    obtain ⟨there, hthere⟩ := List.mem_iff_getElem?.mp hmem
    by_cases heq : there = place
    · subst heq
      obtain rfl := Option.some.inj (hplace.symm.trans hthere)
      have hsame : sameType z x = true := hwx ▸ hrival.1
      have hequal : trimmed z.text = trimmed x.text := by
        by_contra hdiffers
        rw [hw, similarity_tidied] at hscore
        exact absurd hscore (Rat.not_le.mpr (hsecond hsame hdiffers))
      -- The text is that of `x`, which is close to nothing there, and there is no gap for it.
      cases hold : existing[there]? with
      | none => exact absurd (h.behind hold) (by simp [hrefused.refused])
      | some old =>
        have holdType : sameType old x = true := sameType_trans (h.types old hold) hsame
        have holdDoc := hrefused.full old (List.mem_of_getElem? hold) holdType
        obtain ⟨-, -, hold', -⟩ := h.overwritten old hold holdDoc
        refine hrefused.new ⟨old, List.mem_of_getElem? hold, ⟨holdType, holdDoc⟩, ?_⟩
        rwa [tidied, ← hequal, similarity_trimmed]
    · rw [h.others there heq] at hthere
      exact hrefused.new ⟨e, List.mem_of_getElem? hthere, hrival, hscore⟩
  · obtain ⟨there, hthere⟩ := List.mem_iff_getElem?.mp hmem
    by_cases heq : there = place
    · subst heq
      obtain rfl := Option.some.inj (hplace.symm.trans hthere)
      rw [hw, isUndocumented_trimmed, h.documented]
    · rw [h.others there heq] at hthere
      exact hrefused.full e (List.mem_of_getElem? hthere) htype

theorem AtRest.later (hrest : AtRest policy existing x)
    (hthreshold : policy.collisionThreshold ≤ 100)
    (hfirst : IsApart policy x z) (hsecond : IsApart policy z x) :
    AtRest policy (mergeException policy existing z).1 x := by
  rcases mergeException_writesTo policy existing z with hsame | ⟨-, place, hwrites⟩
  · rwa [hsame]
  · cases hdoc : isUndocumented x.text with
    | true => exact .inl hdoc
    | false =>
      rcases hrest with hempty | hstands | hrefused
      · simp [hdoc] at hempty
      · exact .inr (.inl (hstands.later hwrites hthreshold hdoc hfirst hsecond))
      · exact .inr (.inr (hrefused.later hwrites hsecond))

/-- After a merge every exception of the source is at rest, if those of one type are apart. -/
theorem mergeExceptionList_atRest (hreplace : policy.replaceExceptions = true)
    (hthreshold : policy.collisionThreshold ≤ 100) {source : List ExceptionDoc}
    (hkeys : ∀ x ∈ source, (Key.ofDocId x.cref).isValid = true)
    (hapart : ∀ x ∈ source, ∀ y ∈ source, IsApart policy x y) (merged : List ExceptionDoc)
    (hmerged : ∀ x ∈ merged, x ∈ source ∧ AtRest policy existing x) (rest : List ExceptionDoc)
    (hrest : ∀ x ∈ rest, x ∈ source) :
    ∀ x ∈ merged ++ rest, AtRest policy (mergeExceptionList policy existing rest).1 x := by
  induction rest generalizing existing merged with
  | nil =>
    intro x hx
    rw [List.append_nil] at hx
    exact (hmerged x hx).2
  | cons z rest ih =>
    rw [List.forall_mem_cons] at hrest
    have hz : AtRest policy (mergeException policy existing z).1 z := by
      rcases mergeException_writesTo policy existing z with hsame | ⟨-, place, hwrites⟩
      · rw [hsame]
        exact (mergeException_eq_self_iff hreplace hthreshold).mp hsame
      · exact hwrites.atRest hthreshold (hkeys z hrest.1)
    rw [mergeExceptionList_cons, ← List.singleton_append, ← List.append_assoc]
    refine ih (merged ++ [z]) (fun x hx => ?_) hrest.2
    rcases List.mem_append.mp hx with hx | hx
    · obtain ⟨hsource, hold⟩ := hmerged x hx
      exact ⟨hsource, hold.later hthreshold (hapart x hsource z hrest.1)
        (hapart z hrest.1 x hsource)⟩
    · obtain rfl := List.mem_singleton.mp hx
      exact ⟨hrest.1, hz⟩

end

-- ---------------------------------------------------------------------------
-- A second merge
-- ---------------------------------------------------------------------------

theorem mergeExceptions_eq_self_iff (policy : Policy) (docs source : DocFields) :
    mergeExceptions policy docs source = (docs, []) ↔
      (docs.present = true →
        mergeExceptionList policy docs.exceptions source.exceptions = (docs.exceptions, [])) := by
  unfold mergeExceptions
  by_cases hpresent : docs.present = true
  · rw [if_pos hpresent, forall_prop_of_true hpresent]
    generalize mergeExceptionList policy docs.exceptions source.exceptions = merged
    obtain ⟨after, labels⟩ := merged
    constructor
    · intro h
      obtain ⟨hdocs, hlabels⟩ := Prod.mk.injEq _ _ _ _ ▸ h
      exact Prod.ext (congrArg DocFields.exceptions hdocs) hlabels
    · intro h
      obtain ⟨rfl, rfl⟩ := Prod.mk.injEq _ _ _ _ ▸ h
      exact Prod.ext (DocFields.markIf_false docs) rfl
  · simp [hpresent]

/-- A second merge of exceptions that gives documented ones new texts does nothing exactly if every
exception of the source is at rest after the first one, and so it is if different texts of one type
in the source are less similar than the threshold. -/
theorem overwriting_settles {policy : Policy} (docs source : DocFields)
    (hreplace : policy.replaceExceptions = true)
    (hthreshold : policy.collisionThreshold ≤ 100)
    (hkeys : ∀ x ∈ source.exceptions, (Key.ofDocId x.cref).isValid = true) :
    (mergeExceptions policy (mergeExceptions policy docs source).1 source =
        ((mergeExceptions policy docs source).1, []) ↔
      (docs.present = true → ∀ x ∈ source.exceptions,
        AtRest policy (mergeExceptions policy docs source).1.exceptions x)) ∧
    ((∀ x ∈ source.exceptions, ∀ y ∈ source.exceptions, IsApart policy x y) →
      mergeExceptions policy (mergeExceptions policy docs source).1 source =
        ((mergeExceptions policy docs source).1, [])) := by
  have hiff : mergeExceptions policy (mergeExceptions policy docs source).1 source =
      ((mergeExceptions policy docs source).1, []) ↔
      (docs.present = true → ∀ x ∈ source.exceptions,
        AtRest policy (mergeExceptions policy docs source).1.exceptions x) := by
    rw [mergeExceptions_eq_self_iff, mergeExceptions_present,
      mergeExceptionList_eq_self_iff hreplace hthreshold]
  refine ⟨hiff, fun hapart => hiff.mpr fun hdocs => ?_⟩
  rw [mergeExceptions_exceptions, exceptionsAfter, if_pos hdocs]
  exact mergeExceptionList_atRest hreplace hthreshold hkeys hapart []
    (by simp) source.exceptions fun _ hx => hx

def overwriting (threshold : Int) : Policy :=
  { replaceExceptions := true, collisionThreshold := threshold }

theorem overwriting_settles_refusals :
    (∀ x ∈ refusals, (Key.ofDocId x.cref).isValid = true) ∧
      (∀ x ∈ refusals, ∀ y ∈ refusals, IsApart (overwriting 60) x y) ∧
      mergeExceptions (overwriting 60)
        (mergeExceptions (overwriting 60) refusing { exceptions := refusals }).1
          { exceptions := refusals } =
        ((mergeExceptions (overwriting 60) refusing { exceptions := refusals }).1, []) := by
  have hkeys : ∀ x ∈ refusals, (Key.ofDocId x.cref).isValid = true := by decide +kernel
  have hapart : ∀ x ∈ refusals, ∀ y ∈ refusals, IsApart (overwriting 60) x y := by
    unfold IsApart
    decide +kernel
  exact ⟨hkeys, hapart,
    (overwriting_settles refusing { exceptions := refusals } rfl (by decide) hkeys).2 hapart⟩

/-- Each of the three texts is written over the one before it, and the last one is not close to the
first: a second merge adds that again. -/
theorem overwriting_unsettled :
    let after := (mergeExceptions (overwriting 50) {} { exceptions := refusalsInTurn }).1
    after.exceptions = [⟨"T:Refused", "Closed."⟩] ∧
      (mergeExceptions (overwriting 50) after { exceptions := refusalsInTurn }).1.exceptions =
        [⟨"T:Refused", "Closed."⟩, ⟨"T:Refused", "Empty."⟩] ∧
      (mergeExceptions (overwriting 50) after { exceptions := refusalsInTurn }).2.length = 3 := by
  decide +kernel

-- ---------------------------------------------------------------------------
-- Near-duplicates beside a new text
-- ---------------------------------------------------------------------------

/-- After `n` exceptions of the source, one place holds the text that it has in the end, and the
next exception gives another place of that type the text that it has in the end. -/
structure WritesBeside (policy : Policy) (docs source : DocFields) (n there place : Nat)
    (known written : ExceptionDoc) : Prop where
  knownLast : (mergeExceptions policy docs source).1.exceptions[there]? = some known
  writtenLast : (mergeExceptions policy docs source).1.exceptions[place]? = some written
  documented : isUndocumented known.text = false
  type : sameType known written = true
  before : (exceptionsAfterFirst policy docs source n)[there]?.map (·.text) = some known.text
  wrote : (exceptionsAfterFirst policy docs source (n + 1))[place]? ≠
    (exceptionsAfterFirst policy docs source n)[place]?
  lasts : (exceptionsAfterFirst policy docs source (n + 1))[place]?.map (·.text) = some written.text

/-- An exception is close enough to the documented ones in two places, and closest to that in the
first. -/
structure PassesOver (policy : Policy) (existing : List ExceptionDoc) (x : ExceptionDoc)
    (place there : Nat) :
    Prop where
  closest : ∃ e, IsClosest (tidied x) existing place e ∧
    policy.collisionThreshold ≤ similarity e.text x.text
  other : ∃ e, existing[there]? = some e ∧ IsRival x e ∧
    policy.collisionThreshold ≤ similarity e.text x.text

section
variable {policy : Policy} {docs source : DocFields} {n there place : Nat}
  {known written : ExceptionDoc}

theorem exceptionsAfterFirst_of_ne
    (h : exceptionsAfterFirst policy docs source
      (n + 1) ≠ exceptionsAfterFirst policy docs source n) :
    ∃ x, source.exceptions[n]? = some x ∧ exceptionsAfterFirst policy docs source (n + 1) =
      (mergeException policy (exceptionsAfterFirst policy docs source n) x).1 := by
  unfold exceptionsAfterFirst exceptionsAfter at h ⊢
  cases hpresent : docs.present with
  | false => simp [hpresent] at h
  | true =>
    rw [if_pos rfl, if_pos rfl]
    rcases Nat.lt_or_ge n source.exceptions.length with hlt | hge
    · refine ⟨source.exceptions[n], List.getElem?_eq_getElem hlt, ?_⟩
      dsimp only
      rw [List.take_succ_eq_append_getElem hlt, mergeExceptionList_append, mergeExceptionList_cons,
        mergeExceptionList]
    · rw [List.take_of_length_le hge, List.take_of_length_le (Nat.le_succ_of_le hge)] at h
      exact absurd rfl h

theorem ExceptionsKept.cref_eq {before after : List ExceptionDoc}
    (h : ExceptionsKept policy before after)
    (hbefore : before[place]? = some e) (hafter : after[place]? = some e') : e'.cref = e.cref := by
  obtain ⟨more, hmore⟩ := h.crefs
  have hsame := congrArg (·[place]?) hmore
  have hlt := (List.getElem?_eq_some_iff.mp hbefore).1
  simp only [List.getElem?_append_left
    (show place < (before.map (·.cref)).length by simpa using hlt),
    List.getElem?_map, hbefore, hafter, Option.map_some, Option.some.injEq] at hsame
  exact hsame.symm

/-- The step that writes a text beside another one, told by the exception of the source whose text
it is. -/
theorem WritesBeside.step (h : WritesBeside policy docs source n there place known written) :
    ∃ x k, source.exceptions[n]? = some x ∧
    (exceptionsAfterFirst policy docs source n)[there]? = some k ∧
      IsRival x k ∧ k.text = known.text ∧ written.text = trimmed x.text ∧
      WritesTo policy (exceptionsAfterFirst policy docs source n)
        (exceptionsAfterFirst policy docs source (n + 1)) x place := by
  obtain ⟨x, hx, hstep⟩ := exceptionsAfterFirst_of_ne fun hsame =>
    h.wrote (congrArg (·[place]?) hsame)
  obtain ⟨k, hk, hktext⟩ := Option.map_eq_some_iff.mp h.before
  rcases mergeException_writesTo policy (exceptionsAfterFirst policy docs source n) x with
    hsame | ⟨-, place', hwrites⟩
  · exact absurd (by rw [hstep, hsame]) h.wrote
  rw [← hstep] at hwrites
  obtain rfl : place = place' := by
    by_contra hne
    exact h.wrote (hwrites.others place hne)
  obtain ⟨w, hw, hwtext, hwkey⟩ := hwrites.written
  have hlasts := h.lasts
  rw [hw, Option.map_some, Option.some.injEq] at hlasts
  have hknown := h.knownLast
  have hwritten := h.writtenLast
  rw [mergeExceptions_exceptions] at hknown hwritten
  have hkcref := (exceptionsAfterFirst_kept policy docs source n).cref_eq hk hknown
  have hwcref := (exceptionsAfterFirst_kept policy docs source (n + 1)).cref_eq hw hwritten
  have htype : sameType k x = true := by
    have := h.type
    rwa [sameType, hkcref, hwcref, hwkey] at this
  exact ⟨x, k, hx, hk, ⟨htype, by rw [hktext, h.documented]⟩, hktext,
    hlasts.symm.trans hwtext, hwrites⟩

/-- A text that is written beside another one is as similar to it as the threshold, or more, exactly
if the exception that it is taken from was so similar to both texts there that it was written over
the closer one. -/
theorem overwritten_beside_iff (h : WritesBeside policy docs source n there place known written) :
    policy.collisionThreshold ≤ similarity known.text written.text ↔
      ∃ x, source.exceptions[n]? = some x ∧
        PassesOver policy (exceptionsAfterFirst policy docs source n) x place there := by
  obtain ⟨x, k, hx, hk, hrival, hktext, hwritten, hwrites⟩ := h.step
  have hsame : similarity known.text written.text = similarity k.text x.text := by
    rw [hwritten, similarity_trimmed, hktext]
  rw [hsame]
  constructor
  · intro hscore
    have hother : ∃ e, (exceptionsAfterFirst policy docs source n)[there]? = some e ∧ IsRival x e ∧
        policy.collisionThreshold ≤ similarity e.text x.text := ⟨k, hk, hrival, hscore⟩
    have hdup : IsDuplicate policy (exceptionsAfterFirst policy docs source n) (tidied x) :=
      ⟨k, List.mem_of_getElem? hk, hrival, by rwa [tidied, similarity_trimmed]⟩
    -- A duplicate is not written into a gap.
    obtain ⟨e, he, hdoc⟩ : ∃ e, (exceptionsAfterFirst policy docs source n)[place]? = some e ∧
        isUndocumented e.text = false := by
      by_contra hnone
      refine hwrites.gap (fun e he => ?_) hdup
      rw [← Bool.not_eq_false]
      exact fun hdoc => hnone ⟨e, he, hdoc⟩
    obtain ⟨-, hclosest, hclose, -⟩ := hwrites.overwritten e he hdoc
    exact ⟨x, hx, ⟨e, hclosest, hclose⟩, hother⟩
  · rintro ⟨x', hx', -, e, he, -, hscore⟩
    obtain rfl := Option.some.inj (hx.symm.trans hx')
    obtain rfl := Option.some.inj (hk.symm.trans he)
    exact hscore

end

def refusedEmpty : ExceptionDoc := ⟨"T:Refused", "Empty."⟩
def refusedClosed : ExceptionDoc := ⟨"T:Refused", "Closed."⟩
def refusedBoth : ExceptionDoc := ⟨"T:Refused", "Empty or closed."⟩

def refusingApart : DocFields := { exceptions := [refusedEmpty, refusedClosed] }
def refusingTogether : DocFields := { exceptions := [refusedBoth] }

theorem overwritten_beside_refusals :
    WritesBeside (overwriting 50) refusingApart refusingTogether 0 0 1 refusedEmpty refusedBoth ∧
      ((overwriting 50).collisionThreshold ≤ similarity refusedEmpty.text refusedBoth.text ↔
        ∃ x, refusingTogether.exceptions[0]? = some x ∧
          PassesOver (overwriting 50)
            (exceptionsAfterFirst (overwriting 50) refusingApart refusingTogether 0) x 1 0) := by
  have h : WritesBeside (overwriting 50) refusingApart refusingTogether 0 0 1
      refusedEmpty refusedBoth := by
    constructor <;> decide +kernel
  exact ⟨h, overwritten_beside_iff h⟩

/-- The two texts are less similar than the threshold, in either order, and the one that is written
over the second is not less similar to the first. -/
theorem near_duplicate_beside :
    similarity "Empty." "Closed." < 50 ∧ similarity "Closed." "Empty." < 50 ∧
      (mergeExceptions (overwriting 50) refusingApart refusingTogether).1.exceptions =
      [refusedEmpty, refusedBoth] ∧
      50 ≤ similarity "Empty." "Empty or closed." := by
  decide +kernel

end DocMerge.Merge

import DocMerge.Proofs.Collisions
import Mathlib.Data.List.Triplewise
import Mathlib.Data.Nat.Count

/-!
# Higher thresholds

With a higher threshold fewer exceptions count as the same. A single exception of a source is then
added at least as often, but what is added stands in the way of what comes after it: an exception
that is new only for the higher threshold can keep out two that are new for the lower one.
`exceptions_grow`: a list does not get shorter with a higher threshold where no exception of the
source is such a bridge.
-/

namespace DocMerge.Merge

open DocId (Key)

-- ---------------------------------------------------------------------------
-- What is added
-- ---------------------------------------------------------------------------

theorem sameType_comm (a b : ExceptionDoc) : sameType a b = sameType b a :=
  Key.agrees_comm (Key.ofDocId a.cref) (Key.ofDocId b.cref)

theorem key_eq_of_sameType (h : sameType a b = true) : Key.ofDocId a.cref = Key.ofDocId b.cref :=
  (Key.agrees_iff.mp h).2

theorem sameType_congr (h : Key.ofDocId a.cref = Key.ofDocId b.cref) (c : ExceptionDoc) :
    sameType a c = sameType b c := by
  rw [sameType, sameType, h]

def IsNew (policy : Policy) (existing : List ExceptionDoc) (x : ExceptionDoc) : Prop :=
  isUndocumented x.text = false ∧ ¬ IsDuplicate policy existing (tidied x)

/-- What is written into a list are the exceptions that are new to it, as long as documented ones
keep their texts and others may be added. -/
inductive Addition (policy : Policy) (existing : List ExceptionDoc) (x : ExceptionDoc) :
    List ExceptionDoc → Prop
  | none (hold : ¬ IsNew policy existing x) : Addition policy existing x existing
  | filled (place : Nat) (e : ExceptionDoc) (hnew : IsNew policy existing x)
    (hplace : existing[place]? = some e)
    (htype : sameType e x = true) (hempty : isUndocumented e.text = true) :
    Addition policy existing x (existing.set place { e with text := trimmed x.text })
  | appended (hnew : IsNew policy existing x)
    (hfull : ∀ e ∈ existing, sameType e x = true → isUndocumented e.text = false) :
    Addition policy existing x (existing ++ [tidied x])

section
variable {policy : Policy} {existing after : List ExceptionDoc} {x : ExceptionDoc}

theorem ExceptionMerge.addition (h : ExceptionMerge policy existing x after labels)
    (hkeep : policy.replaceExceptions = false) (hadd : policy.addExceptions = true) :
    Addition policy existing x after := by
  cases h with
  | empty hempty => exact .none fun hnew => by simp [hnew.1] at hempty
  | duplicate _ hdup => exact .none fun hnew => hnew.2 hdup
  | rewritten _ _ _ _ hallowed => simp [hkeep] at hallowed
  | filled place e hdoc hdup hplace htype hempty =>
    exact .filled place e ⟨hdoc, hdup⟩ hplace htype hempty
  | appended hdoc hdup hfull => exact .appended ⟨hdoc, hdup⟩ hfull
  | refused _ _ _ hrefused => simp [hadd] at hrefused

/-- What a written exception stands in the way of: its own text comes to the texts that were
there. -/
theorem Addition.isDuplicate_iff (h : Addition policy existing x after) (y : ExceptionDoc) :
    IsDuplicate policy after y ↔ IsDuplicate policy existing y ∨
      (IsNew policy existing x ∧ sameType x y = true ∧
        policy.collisionThreshold ≤ similarity (trimmed x.text) y.text) := by
  cases h with
  | none hold => simp [hold]
  | filled place e hnew hplace htype hempty =>
    have hlt := (List.getElem?_eq_some_iff.mp hplace).1
    have hsame : sameType e y = sameType x y := sameType_congr (key_eq_of_sameType htype) y
    constructor
    · rintro ⟨e', hmem, hrival, hscore⟩
      rcases List.mem_or_eq_of_mem_set hmem with hmem | rfl
      · exact .inl ⟨e', hmem, hrival, hscore⟩
      · exact .inr ⟨hnew, hsame ▸ hrival.1, hscore⟩
    · rintro (⟨e', hmem, hrival, hscore⟩ | ⟨-, hrival, hscore⟩)
      · obtain ⟨other, hother⟩ := List.mem_iff_getElem?.mp hmem
        have hne : place ≠ other := by
          rintro rfl
          obtain rfl : e' = e := by simpa [hplace] using hother.symm
          have hdoc := hrival.2
          simp [hempty] at hdoc
        exact ⟨e', List.mem_of_getElem? (by rwa [List.getElem?_set_ne hne]), hrival, hscore⟩
      · refine ⟨_, List.mem_set hlt _, ⟨hsame ▸ hrival, ?_⟩, hscore⟩
        rw [isUndocumented_trimmed, hnew.1]
  | appended hnew hfull =>
    have hown : IsRival y (tidied x) ↔ sameType x y = true := by
      simp [IsRival, tidied, sameType, hnew.1]
    simp only [IsDuplicate, List.mem_append, List.mem_singleton, or_and_right, exists_or,
      exists_eq_left, hown,
      hnew, true_and]
    rfl

-- ---------------------------------------------------------------------------
-- How many there are of a type
-- ---------------------------------------------------------------------------

def numberOf (y : ExceptionDoc) (existing : List ExceptionDoc) : Nat :=
  (existing.map fun e => Key.ofDocId e.cref).count (Key.ofDocId y.cref)

def gapsFor (y : ExceptionDoc) (existing : List ExceptionDoc) : Nat :=
  existing.countP fun e => sameType e y && isUndocumented e.text

theorem gapsFor_eq_zero
    (hfull : ∀ e ∈ existing, sameType e x = true → isUndocumented e.text = false) :
    gapsFor x existing = 0 := by
  rw [gapsFor, List.countP_eq_zero]
  intro e hmem
  cases htype : sameType e x with
  | false => simp
  | true => simp [hfull e hmem htype]

theorem numberOf_set (y : ExceptionDoc) (hplace : existing[place]? = some e) (text : String) :
    numberOf y (existing.set place { e with text }) = numberOf y existing := by
  obtain ⟨hlt, rfl⟩ := List.getElem?_eq_some_iff.mp hplace
  have hlt' : place < (existing.map fun e => Key.ofDocId e.cref).length := by simpa using hlt
  have hkeys := List.set_getElem_self hlt'
  rw [List.getElem_map] at hkeys
  rw [numberOf, numberOf, List.map_set, hkeys]

theorem gapsFor_set {e : ExceptionDoc} (y : ExceptionDoc) (hplace : existing[place]? = some e)
    (hempty : isUndocumented e.text = true) (hdoc : isUndocumented text = false) :
    gapsFor y existing = gapsFor y (existing.set place { e with text }) + if sameType e y
      then 1 else 0 := by
  obtain ⟨hlt, rfl⟩ := List.getElem?_eq_some_iff.mp hplace
  rw [gapsFor, gapsFor, List.countP_set hlt]
  simp only [hempty, hdoc, Bool.and_true, Bool.and_false, Bool.false_eq_true,
    if_false, Nat.add_zero]
  split
  · rename_i htype
    have hpos : 0 < existing.countP fun e => sameType e y && isUndocumented e.text :=
      List.countP_pos_iff.mpr ⟨existing[place], List.getElem_mem hlt, by simp [htype, hempty]⟩
    omega
  · omega

/-- A new exception of a type closes a gap or, where there is none, makes the list longer. -/
theorem Addition.numberOf_of_new (h : Addition policy existing x after)
    (hnew : IsNew policy existing x)
    (hkey : Key.ofDocId x.cref = Key.ofDocId y.cref) :
    numberOf y after = numberOf y existing + (1 - gapsFor y existing) ∧
      gapsFor y after = gapsFor y existing - 1 := by
  cases h with
  | none hold => exact absurd hnew hold
  | filled place e _ hplace htype hempty =>
    have hsame : sameType e y = true := by
      rwa [sameType, ← hkey]
    have hdoc : isUndocumented (trimmed x.text) = false := by rw [isUndocumented_trimmed, hnew.1]
    have hgaps := gapsFor_set y hplace hempty hdoc
    rw [hsame, if_pos rfl] at hgaps
    rw [numberOf_set y hplace]
    omega
  | appended _ hfull =>
    have hgaps : gapsFor y existing = 0 := by
      rw [← gapsFor_eq_zero hfull, gapsFor, gapsFor]
      simp only [sameType, hkey]
    have hown : gapsFor y [tidied x] = 0 := by
      simp [gapsFor, tidied, hnew.1]
    have hlonger : gapsFor y (existing ++ [tidied x]) = 0 := by
      rw [gapsFor, List.countP_append]
      exact Nat.add_eq_zero_iff.mpr ⟨hgaps, hown⟩
    rw [hlonger, hgaps]
    simp [numberOf, tidied, hkey]

theorem Addition.numberOf_of_not (h : Addition policy existing x after)
    (hnot : ¬ (IsNew policy existing x ∧ Key.ofDocId x.cref = Key.ofDocId y.cref)) :
    numberOf y after = numberOf y existing ∧ gapsFor y after = gapsFor y existing := by
  cases h with
  | none => exact ⟨rfl, rfl⟩
  | filled place e hnew hplace htype hempty =>
    have hother : sameType e y = false := by
      rw [← Bool.not_eq_true]
      intro hsame
      exact hnot ⟨hnew, (key_eq_of_sameType htype).symm.trans (key_eq_of_sameType hsame)⟩
    have hdoc : isUndocumented (trimmed x.text) = false := by rw [isUndocumented_trimmed, hnew.1]
    have hgaps := gapsFor_set y hplace hempty hdoc
    rw [hother, if_neg Bool.false_ne_true] at hgaps
    exact ⟨numberOf_set y hplace _, hgaps.symm⟩
  | appended hnew _ =>
    have hother : Key.ofDocId x.cref ≠ Key.ofDocId y.cref := fun hkey => hnot ⟨hnew, hkey⟩
    constructor
    · simp [numberOf, tidied, hother]
    · simp [gapsFor, tidied, hnew.1]

end

-- ---------------------------------------------------------------------------
-- The course of a merge
-- ---------------------------------------------------------------------------

structure OnlyAdds (policy : Policy) : Prop where
  keep : policy.replaceExceptions = false
  add : policy.addExceptions = true

section
variable (policy : Policy) (existing source : List ExceptionDoc)

def listAfterFirst (n : Nat) : List ExceptionDoc :=
  (mergeExceptionList policy existing (source.take n)).1

def AddsAt (y : ExceptionDoc) (n : Nat) : Prop :=
  ∃ x, source[n]? = some x ∧ IsNew policy (listAfterFirst policy existing source n) x ∧
    Key.ofDocId x.cref = Key.ofDocId y.cref

variable {policy existing source}

theorem listAfterFirst_addition (existing : List ExceptionDoc) (hadds : OnlyAdds policy)
    (hplace : source[n]? = some x) :
    Addition policy (listAfterFirst policy existing source n) x
      (listAfterFirst policy existing source (n + 1)) := by
  obtain ⟨hlt, rfl⟩ := List.getElem?_eq_some_iff.mp hplace
  have hstep := mergeException_cases policy (listAfterFirst policy existing source n) source[n]
  unfold listAfterFirst at hstep ⊢
  rw [List.take_succ_eq_append_getElem hlt, mergeExceptionList_append, mergeExceptionList_cons,
    mergeExceptionList]
  exact hstep.addition hadds.keep hadds.add

/-- What an exception collides with was there from the start or was new in its turn. -/
theorem isDuplicate_listAfterFirst (hadds : OnlyAdds policy) (y : ExceptionDoc)
    (hn : n ≤ source.length) :
    IsDuplicate policy (listAfterFirst policy existing source n) y ↔ IsDuplicate policy existing y ∨
      ∃ m < n, ∃ x, source[m]? = some x ∧ IsNew policy (listAfterFirst policy existing source m) x ∧
        sameType x y = true ∧ policy.collisionThreshold ≤ similarity (trimmed x.text) y.text := by
  induction n with
  | zero => simp [listAfterFirst, mergeExceptionList]
  | succ n ih =>
    have hplace := List.getElem?_eq_getElem (show n < source.length from hn)
    rw [(listAfterFirst_addition existing hadds hplace).isDuplicate_iff,
      ih (Nat.le_of_succ_le hn), or_assoc]
    refine or_congr_right ?_
    simp only [Nat.lt_succ_iff_lt_or_eq, or_and_right, exists_or, exists_eq_left, hplace,
      Option.some.injEq,
      exists_eq_left']

open Classical in
theorem numberOf_listAfterFirst (existing : List ExceptionDoc) (hadds : OnlyAdds policy)
    (y : ExceptionDoc)
    (hn : n ≤ source.length) :
    numberOf y (listAfterFirst policy existing source n) =
        numberOf y existing + (Nat.count (AddsAt policy existing source y) n - gapsFor y existing) ∧
      gapsFor y (listAfterFirst policy existing source n) =
        gapsFor y existing - Nat.count (AddsAt policy existing source y) n := by
  induction n with
  | zero => simp [listAfterFirst, mergeExceptionList]
  | succ n ih =>
    obtain ⟨hnumber, hgaps⟩ := ih (Nat.le_of_succ_le hn)
    have hplace := List.getElem?_eq_getElem (show n < source.length from hn)
    have hstep := listAfterFirst_addition existing hadds hplace
    rw [Nat.count_succ]
    split
    · rename_i hadded
      obtain ⟨x, hx, hnew, hkey⟩ := hadded
      obtain rfl : source[n] = x := by simpa [hplace] using hx
      obtain ⟨hnumber', hgaps'⟩ := hstep.numberOf_of_new hnew hkey
      omega
    · rename_i hother
      obtain ⟨hnumber', hgaps'⟩ := hstep.numberOf_of_not fun h => hother ⟨_, hplace, h⟩
      omega

end

-- ---------------------------------------------------------------------------
-- Two thresholds
-- ---------------------------------------------------------------------------

open Classical in
/-- There are no more places of one kind than of another if each that is not of both kinds has a
partner that is of the second kind alone, and no two have the same one. -/
theorem count_le_count {p q : Nat → Prop} (partner : Nat → Nat → Prop) (n : Nat)
    (hpartner : ∀ i, p i → ¬ q i → ∃ m < i, q m ∧ ¬ p m ∧ partner m i)
    (hone : ∀ m i j, p i → p j → partner m i → partner m j → ¬ i < j) :
    Nat.count p n ≤ Nat.count q n := by
  have htake : ∀ i, ∃ m, p i → m ≤ i ∧ q m ∧ (m = i ∨ ¬ p m ∧ partner m i) := by
    intro i
    by_cases hp : p i
    · by_cases hq : q i
      · exact ⟨i, fun _ => ⟨Nat.le_refl i, hq, .inl rfl⟩⟩
      · obtain ⟨m, hlt, hqm, hpm, hm⟩ := hpartner i hp hq
        exact ⟨m, fun _ => ⟨Nat.le_of_lt hlt, hqm, .inr ⟨hpm, hm⟩⟩⟩
    · exact ⟨i, fun h => absurd h hp⟩
  choose f hf using htake
  rw [Nat.count_eq_card_filter_range, Nat.count_eq_card_filter_range]
  refine Finset.card_le_card_of_injOn f ?_ ?_
  · intro i hi
    simp only [Finset.coe_filter, Finset.mem_range, Set.mem_ofPred_eq] at hi ⊢
    obtain ⟨hle, hq, -⟩ := hf i hi.2
    exact ⟨by omega, hq⟩
  · intro i hi j hj heq
    simp only [Finset.coe_filter, Finset.mem_range, Set.mem_ofPred_eq] at hi hj
    obtain ⟨-, -, hi'⟩ := hf i hi.2
    obtain ⟨-, -, hj'⟩ := hf j hj.2
    rw [← heq] at hj'
    rcases hi' with hi' | ⟨hnot, hpi⟩ <;> rcases hj' with hj' | ⟨hnot', hpj⟩
    · exact hi'.symm.trans hj'
    · rw [hi'] at hnot'
      exact absurd hi.2 hnot'
    · rw [hj'] at hnot
      exact absurd hj.2 hnot
    · exact Nat.le_antisymm (Nat.not_lt.mp (hone _ j i hj.2 hi.2 hpj hpi))
        (Nat.not_lt.mp (hone _ i j hi.2 hj.2 hpi hpj))

/-- Three documented exceptions of one type: the first is as similar to the others as the higher
threshold asks for, but those are less similar to each other than the lower one. -/
structure IsBridge (lower higher : Int) (y x x' : ExceptionDoc) : Prop where
  documented : isUndocumented y.text = false ∧ isUndocumented x.text = false ∧
    isUndocumented x'.text = false
  types : sameType y x = true ∧ sameType y x' = true
  near : higher ≤ similarity y.text x.text ∧ higher ≤ similarity y.text x'.text
  apart : similarity x.text x'.text < lower

/-- An exception of a source is as similar to a later one of its type as a threshold asks for. -/
structure Blocks (source : List ExceptionDoc) (threshold : Int) (m n : Nat) : Prop where
  pair : ∃ y x, source[m]? = some y ∧ source[n]? = some x ∧ isUndocumented y.text = false ∧
    sameType y x = true ∧
    threshold ≤ similarity y.text x.text

theorem similarity_tidied (x y : ExceptionDoc) :
    similarity (trimmed x.text) (tidied y).text = similarity x.text y.text := by
  rw [tidied, similarity_trimmed, trimmed_similarity]

section
variable {policy strict : Policy} {existing source : List ExceptionDoc} {y : ExceptionDoc}

/-- Of two exceptions of one type that are both added, the later one is less similar to the earlier
one than the threshold. -/
theorem apart_of_addsAt (hadds : OnlyAdds policy) (hi : AddsAt policy existing source y i)
    (hj : AddsAt policy existing source y j) (hlt : i < j) (hfirst : source[i]? = some x)
    (hsecond : source[j]? = some x') (htype : sameType x x' = true) :
    similarity x.text x'.text < policy.collisionThreshold := by
  obtain ⟨x, hx, hnew, -⟩ := hi
  obtain rfl := Option.some.inj (hfirst.symm.trans hx)
  obtain ⟨x', hx', ⟨-, hnodup⟩, -⟩ := hj
  obtain rfl := Option.some.inj (hsecond.symm.trans hx')
  have hlength : j ≤ source.length := Nat.le_of_lt (List.getElem?_eq_some_iff.mp hsecond).1
  rw [isDuplicate_listAfterFirst hadds _ hlength] at hnodup
  refine Rat.not_le.mp fun hscore => hnodup (.inr ⟨i, hlt, x, hfirst, hnew, htype, ?_⟩)
  rwa [similarity_tidied]

/-- What only the lower threshold adds is kept out by something that only the higher one adds. -/
theorem blocked_of_addsAt (hadds : OnlyAdds policy) (hadds' : OnlyAdds strict)
    (hle : policy.collisionThreshold ≤ strict.collisionThreshold)
    (hn : AddsAt policy existing source y n)
    (hnot : ¬ AddsAt strict existing source y n) :
    ∃ m < n, AddsAt strict existing source y m ∧ ¬ AddsAt policy existing source y m ∧
      Blocks source strict.collisionThreshold m n := by
  obtain ⟨x, hx, ⟨hdoc, hnodup⟩, hkey⟩ := hn
  have hlength : n ≤ source.length := Nat.le_of_lt (List.getElem?_eq_some_iff.mp hx).1
  rw [isDuplicate_listAfterFirst hadds _ hlength] at hnodup
  have hle : (policy.collisionThreshold : Score) ≤ strict.collisionThreshold := by
    exact_mod_cast hle
  -- With the higher threshold it is a duplicate, of nothing that was there from the start.
  have hdup : IsDuplicate strict (listAfterFirst strict existing source n) (tidied x) := by
    by_contra hnew
    exact hnot ⟨x, hx, ⟨hdoc, hnew⟩, hkey⟩
  rcases (isDuplicate_listAfterFirst hadds' _ hlength).mp hdup with
    ⟨e, hmem, hrival, hscore⟩ | ⟨m, hlt, z, hz, hnew, htype, hscore⟩
  · exact absurd (.inl ⟨e, hmem, hrival, Rat.le_trans hle hscore⟩) hnodup
  · have hsame : Key.ofDocId z.cref = Key.ofDocId y.cref := (key_eq_of_sameType htype).trans hkey
    refine ⟨m, hlt, ⟨z, hz, hnew, hsame⟩, ?_,
      ⟨z, x, hz, hx, hnew.1, htype, similarity_tidied z x ▸ hscore⟩⟩
    rintro ⟨z', hz', hnew', -⟩
    obtain rfl := Option.some.inj (hz.symm.trans hz')
    exact hnodup (.inr ⟨m, hlt, z, hz, hnew', htype, Rat.le_trans hle hscore⟩)

open Classical in
theorem count_addsAt_le (existing : List ExceptionDoc) (hadds : OnlyAdds policy)
    (hadds' : OnlyAdds strict)
    (hle : policy.collisionThreshold ≤ strict.collisionThreshold)
    (hbridges : source.Triplewise fun y x x' =>
      ¬ IsBridge policy.collisionThreshold strict.collisionThreshold y x x')
        (y : ExceptionDoc) (n : Nat) :
    Nat.count (AddsAt policy existing source y) n ≤
    Nat.count (AddsAt strict existing source y) n := by
  refine count_le_count (fun m n => m < n ∧ Blocks source strict.collisionThreshold m n) n
    (fun i hi hnot => ?_) (fun m i j hi hj hmi hmj hlt => ?_)
  · obtain ⟨m, hlt, hm, hm', hblocks⟩ := blocked_of_addsAt hadds hadds' hle hi hnot
    exact ⟨m, hlt, hm, hm', hlt, hblocks⟩
  · obtain ⟨hmi, z, x, hz, hx, hdocZ, htype, hscore⟩ := hmi
    obtain ⟨hmj, z', x', hz', hx', -, htype', hscore'⟩ := hmj
    obtain rfl := Option.some.inj (hz.symm.trans hz')
    have hsame : sameType x x' = true := sameType_trans (sameType_comm z x ▸ htype) htype'
    have hapart := apart_of_addsAt hadds hi hj hlt hx hx' hsame
    have hdoc : ∀ {k e}, AddsAt policy existing source y k → source[k]? = some e →
        isUndocumented e.text = false := by
      rintro k e ⟨e', he', hnew, -⟩ he
      obtain rfl := Option.some.inj (he.symm.trans he')
      exact hnew.1
    obtain ⟨hm, rfl⟩ := List.getElem?_eq_some_iff.mp hz
    obtain ⟨hi', rfl⟩ := List.getElem?_eq_some_iff.mp hx
    obtain ⟨hj', rfl⟩ := List.getElem?_eq_some_iff.mp hx'
    exact List.triplewise_iff_getElem.mp hbridges m i j hmi hlt hj'
      ⟨⟨hdocZ, hdoc hi hx, hdoc hj hx'⟩, ⟨htype, htype'⟩, ⟨hscore, hscore'⟩, hapart⟩

/-- With the higher threshold there are as many exceptions of each type, and more. -/
theorem keys_subperm (existing : List ExceptionDoc) (hadds : OnlyAdds policy)
    (hadds' : OnlyAdds strict)
    (hle : policy.collisionThreshold ≤ strict.collisionThreshold)
    (hbridges : source.Triplewise fun y x x' =>
      ¬ IsBridge policy.collisionThreshold strict.collisionThreshold y x x') :
    ((mergeExceptionList policy existing source).1.map fun e => Key.ofDocId e.cref).Subperm
      ((mergeExceptionList strict existing source).1.map fun e => Key.ofDocId e.cref) := by
  have hwhole : ∀ policy : Policy,
      (mergeExceptionList policy existing source).1 =
      listAfterFirst policy existing source source.length := by
    intro policy
    rw [listAfterFirst, List.take_length]
  rw [List.subperm_ext_iff, hwhole, hwhole]
  intro key hkey
  obtain ⟨y, -, rfl⟩ := List.mem_map.mp hkey
  have hcount := count_addsAt_le existing hadds hadds' hle hbridges y source.length
  have hnumber := (numberOf_listAfterFirst existing hadds y (Nat.le_refl source.length)).1
  have hnumber' := (numberOf_listAfterFirst existing hadds' y (Nat.le_refl source.length)).1
  unfold numberOf at hnumber hnumber'
  omega

end

/-- An entry has at least as many exceptions after a merge with a higher threshold, if no exception
of the source is a bridge between two later ones. -/
theorem exceptions_grow (policy : Policy) (docs source : DocFields) (hadds : OnlyAdds policy)
    {lower higher : Int}
    (hle : lower ≤ higher)
    (hbridges : source.exceptions.Triplewise fun y x x' => ¬ IsBridge lower higher y x x') :
    (mergeExceptions { policy with collisionThreshold := lower } docs source).1.exceptions.length ≤
      (mergeExceptions { policy with collisionThreshold := higher } docs
        source).1.exceptions.length := by
  have hadds' : ∀ t : Int, OnlyAdds { policy with collisionThreshold := t } :=
    fun t => ⟨hadds.keep, hadds.add⟩
  rw [mergeExceptions_exceptions, mergeExceptions_exceptions, exceptionsAfter, exceptionsAfter]
  split
  · have hkeys := keys_subperm docs.exceptions (hadds' lower) (hadds' higher) hle hbridges
    simpa using hkeys.length_le
  · exact Nat.le_refl _

def refusing : DocFields := { exceptions := [⟨"T:Refused", "Late or early."⟩] }

def refusals : List ExceptionDoc :=
  [⟨"T:Refused", "Empty or closed."⟩, ⟨"T:Refused", "Empty."⟩, ⟨"T:Refused", "Closed."⟩]

def refusalsInTurn : List ExceptionDoc :=
  [⟨"T:Refused", "Empty."⟩, ⟨"T:Refused", "Empty or closed."⟩, ⟨"T:Refused", "Closed."⟩]

theorem exceptions_grow_inTurn :
    (40 : Int) ≤ 50 ∧ (refusalsInTurn.Triplewise fun y x x' => ¬ IsBridge 40 50 y x x') ∧
      (mergeExceptions { collisionThreshold := 40 } refusing
        { exceptions := refusalsInTurn }).1.exceptions.length ≤
        (mergeExceptions { collisionThreshold := 50 } refusing
          { exceptions := refusalsInTurn }).1.exceptions.length := by
  have hle : (40 : Int) ≤ 50 := by decide
  have hbridges : refusalsInTurn.Triplewise fun y x x' => ¬ IsBridge 40 50 y x x' := by
    rw [refusalsInTurn, List.triplewise_triple]
    have hscore : ¬ (50 : Int) ≤ similarity "Empty." "Closed." := by decide +kernel
    exact fun h => hscore h.near.2
  exact ⟨hle, hbridges,
    exceptions_grow {} refusing { exceptions := refusalsInTurn } ⟨rfl, rfl⟩ hle hbridges⟩

/-- At 40 percent, the two cases at once are like a case that is known, and each by itself is added.
At 50 percent they are added, and keep out both. -/
theorem bridge_shortens :
    (mergeExceptions { collisionThreshold := 50 } refusing
      { exceptions := refusals }).1.exceptions.length <
      (mergeExceptions { collisionThreshold := 40 } refusing
        { exceptions := refusals }).1.exceptions.length := by
  decide +kernel

end DocMerge.Merge

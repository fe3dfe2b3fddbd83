import DocMerge.Proofs.Collisions
import DocMerge.Proofs.SharedBlocks

/-!
# What a score says about the exact share

A score is rounded twice, and each time by less than one part in `2 ^ 53`. Two shares that differ,
differ by more than that as long as the texts do not have trillions of characters. So a threshold
and a score are in the order of the exact numbers, unless these are equal: a share of exactly 29, 57
or 58 percent is rounded to a score below it.
-/

namespace DocMerge.Similarity

-- ---------------------------------------------------------------------------
-- One score
-- ---------------------------------------------------------------------------

def scoreOf (matching total : Nat) : Score := rounded (rounded (mkRat (2 * matching) total) * 100)

theorem percent_eq_scoreOf {a b : List Char} (h : 0 < a.length + b.length) :
    percent a b = scoreOf (matched a b) (a.length + b.length) := by
  have hsome : ¬ (a.isEmpty && b.isEmpty) = true := by
    rintro hempty
    simp only [Bool.and_eq_true, List.isEmpty_iff] at hempty
    simp [hempty.1, hempty.2] at h
  rw [percent, if_neg hsome, scoreOf]

theorem mkRat_nonneg_le_one {matching total : Nat} (h : 2 * matching ≤ total) :
    0 ≤ mkRat (2 * matching) total ∧ mkRat (2 * matching) total ≤ 1 := by
  refine ⟨Rat.mkRat_nonneg (by positivity) _, ?_⟩
  have hcount : (2 * matching : Rat) ≤ total := by exact_mod_cast h
  rw [Rat.mkRat_eq_div]
  push_cast
  exact div_le_one_of_le₀ hcount (by positivity)

theorem scoreOf_nonneg {matching total : Nat} : 0 ≤ scoreOf matching total :=
  rounded_nonneg (mul_nonneg (rounded_nonneg (Rat.mkRat_nonneg (by positivity) _)) (by norm_num))

/-- Both roundings together change a percentage by less than one part in `2 ^ 45`. -/
theorem abs_scoreOf_sub_lt {matching total : Nat} (h : 2 * matching ≤ total) :
    |scoreOf matching total - mkRat (2 * matching) total * 100| < 1 / 2 ^ 45 := by
  obtain ⟨hnonneg, hone⟩ := mkRat_nonneg_le_one h
  have hratio := rounded_nonneg hnonneg
  have hratio' : rounded (mkRat (2 * matching) total) ≤ (1 : Nat) :=
    rounded_le hnonneg (by simpa using hone) (by norm_num)
  have hfirst := abs_le.mp (abs_rounded_sub_le hnonneg)
  have hsecond := abs_le.mp (abs_rounded_sub_le (mul_nonneg hratio (by norm_num : (0 : Rat) ≤ 100)))
  rw [Nat.cast_one] at hratio'
  rw [scoreOf, abs_lt]
  constructor <;> linarith

theorem scoreOf_congr {matching total matching' total' : Nat} (hpos : 0 < total)
    (hpos' : 0 < total')
    (h : matching * total' = matching' * total) :
    scoreOf matching total = scoreOf matching' total' := by
  have hshare : mkRat (2 * matching) total = mkRat (2 * matching') total' := by
    rw [Rat.mkRat_eq_iff hpos.ne' hpos'.ne']
    have : (matching * total' : Int) = matching' * total := by exact_mod_cast h
    linarith
  rw [scoreOf, scoreOf, hshare]

def shortPercents : List Int := [29, 57, 58]

theorem le_scoreOf_self : ∀ percentage : Nat, percentage ≤ 100 →
    ((percentage : Score) ≤ scoreOf percentage 200 ↔ (percentage : Int) ∉ shortPercents) := by
  decide +kernel

/-- A whole percentage is reached by a score exactly if it is by the share, unless it is one of
three and the share is neither greater nor less. -/
theorem le_scoreOf_iff {matching total : Nat} {threshold : Int} (hpos : 0 < total)
    (hbound : total ≤ 2 ^ 45)
    (h : 2 * matching ≤ total) (hlow : 0 ≤ threshold) (hhigh : threshold ≤ 100) :
    threshold ≤ scoreOf matching total ↔
      threshold * total < 200 * matching ∨
      (threshold * total = 200 * matching ∧ threshold ∉ shortPercents) := by
  obtain ⟨percentage, rfl⟩ := Int.eq_ofNat_of_zero_le hlow
  have htotal : (0 : Rat) < total := by exact_mod_cast hpos
  have herror := abs_lt.mp (abs_scoreOf_sub_lt h)
  have hexact : mkRat (2 * matching) total * 100 = 200 * matching / total := by
    rw [Rat.mkRat_eq_div]
    push_cast
    ring
  -- Numbers that are not the same differ by at least one part of the total.
  have hpart : (1 : Rat) / 2 ^ 45 ≤ 1 / total :=
    one_div_le_one_div_of_le htotal (by exact_mod_cast hbound)
  rw [hexact] at herror
  rcases lt_trichotomy ((percentage : Int) * total) (200 * matching) with hless | hequal | hmore
  · have hstep : (percentage : Rat) * total + 1 ≤ 200 * matching := by exact_mod_cast hless
    have hapart : (percentage : Rat) + 1 / total ≤ 200 * matching / total := by
      rw [le_div_iff₀ htotal, add_mul, one_div_mul_cancel htotal.ne']
      exact hstep
    simp only [hless, true_or, iff_true, Int.cast_natCast]
    linarith
  · have hsame : scoreOf matching total = scoreOf percentage 200 := by
      refine scoreOf_congr hpos (by norm_num) ?_
      have : percentage * total = 200 * matching := by exact_mod_cast hequal
      linarith
    simp only [hequal, lt_self_iff_false, true_and, false_or, hsame, Int.cast_natCast]
    exact le_scoreOf_self percentage (by omega)
  · have hstep : 200 * matching + 1 ≤ (percentage : Rat) * total := by exact_mod_cast hmore
    have hapart : (200 * matching : Rat) / total + 1 / total ≤ percentage := by
      rw [← add_div, div_le_iff₀ htotal]
      exact hstep
    have hnot : ¬ (((percentage : Int) : Rat) ≤ scoreOf matching total) := by
      rw [not_le, Int.cast_natCast]
      linarith
    simp only [hnot, not_lt.mpr hmore.le, hmore.ne', false_and, or_self]

end DocMerge.Similarity

namespace DocMerge

open Similarity

theorem similarity_eq_scoreOf {a b : String}
    (h : 0 < (comparedWords a).toList.length + (comparedWords b).toList.length) :
    similarity a b = scoreOf (matched (comparedWords a).toList (comparedWords b).toList)
      ((comparedWords a).toList.length + (comparedWords b).toList.length) :=
  percent_eq_scoreOf h

theorem similarity_nonneg (a b : String) : 0 ≤ similarity a b := by
  unfold similarity percent
  split
  · norm_num
  · exact scoreOf_nonneg

/-- The similarity of two texts is greatest exactly if they have the same words: then, and only
then, all characters match, whichever of them are too frequent for a block to begin at. -/
theorem similarity_greatest_iff (a b : String) :
    0 ≤ similarity a b ∧ similarity a b ≤ 100 ∧
    let left := (comparedWords a).toList
    let right := (comparedWords b).toList
    let total := left.length + right.length
    matched left right ≤ min left.length right.length ∧
      similarity a b = (if total = 0 then 100 else scoreOf (matched left right) total) ∧
      (2 * matched left right = total ↔ comparedWords a = comparedWords b) ∧
      (total ≤ 2 ^ 45 → (similarity a b = 100 ↔ comparedWords a = comparedWords b)) := by
  refine ⟨similarity_nonneg a b, similarity_le a b, ?_⟩
  intro left right total
  have hmatched := matched_le left right
  have hscore : similarity a b = if total = 0 then 100 else scoreOf (matched left right) total := by
    split
    · rename_i hzero
      have hleft : left = [] := List.eq_nil_of_length_eq_zero (by omega)
      have hright : right = [] := List.eq_nil_of_length_eq_zero (by omega)
      rw [similarity, show (comparedWords a).toList = [] from hleft,
        show (comparedWords b).toList = [] from hright,
        percent_self]
    · rename_i hsome
      exact similarity_eq_scoreOf (Nat.pos_of_ne_zero hsome)
  have hwords : 2 * matched left right = total ↔ comparedWords a = comparedWords b := by
    rw [matched_eq_iff, String.toList_inj]
  refine ⟨Nat.le_min.mpr hmatched, hscore, hwords, fun hbound => ?_⟩
  constructor
  · intro hgreatest
    rw [← hwords]
    rcases Nat.eq_zero_or_pos total with hzero | hpos
    · omega
    · rw [hscore, if_neg hpos.ne'] at hgreatest
      have htwice : 2 * matched left right ≤ total := by omega
      have hreached : ((100 : Int) : Rat) ≤ scoreOf (matched left right) total := by
        rw [hgreatest]; norm_num
      have hshare := (le_scoreOf_iff hpos hbound htwice (by norm_num) (by norm_num)).mp hreached
      omega
  · intro hsame
    rw [similarity, hsame, percent_self]

end DocMerge

namespace DocMerge.Merge

open Similarity

/-- Whether a list has one exception of the type of another, and that one has a text. -/
structure IsSoleRival (existing : List ExceptionDoc) (x e : ExceptionDoc) : Prop where
  mem : e ∈ existing
  rival : IsRival x e
  sole : ∀ other ∈ existing, sameType other x = true → other = e

theorem mergeExceptions_sole {policy : Policy} {docs source : DocFields} {e x : ExceptionDoc}
    (hadd : policy.addExceptions = true) (hkeep : policy.replaceExceptions = false)
    (hpresent : docs.present = true)
    (hsource : source.exceptions = [x]) (hincoming : isUndocumented x.text = false)
    (hrival : IsSoleRival docs.exceptions x e) :
    (mergeExceptions policy docs source).1.exceptions =
      if policy.collisionThreshold ≤ similarity e.text x.text then docs.exceptions
      else docs.exceptions ++ [tidied x] := by
  have hdup : IsDuplicate policy docs.exceptions (tidied x) ↔
      policy.collisionThreshold ≤ similarity e.text x.text := by
    rw [← similarity_trimmed e.text x.text]
    constructor
    · rintro ⟨other, hother, htype, hreaches⟩
      rwa [← hrival.sole other hother htype.1]
    · exact fun hreaches => ⟨e, hrival.mem, hrival.rival, hreaches⟩
  have hone : (mergeExceptions policy docs source).1.exceptions =
      (mergeException policy docs.exceptions x).1 := by
    simp only [mergeExceptions_exceptions, exceptionsAfter, if_pos hpresent, hsource,
      mergeExceptionList_cons,
      mergeExceptionList]
  have hstep := mergeException_cases policy docs.exceptions x
  rw [hone]
  generalize mergeException policy docs.exceptions x = result at hstep ⊢
  obtain ⟨exceptions, labels⟩ := result
  cases hstep with
  | empty hempty => simp [hincoming] at hempty
  | duplicate _ hsame => rw [if_pos (hdup.mp hsame)]
  | rewritten _ _ _ _ hallowed => simp [hkeep] at hallowed
  | filled place gap _ _ hplace hgap hempty =>
    -- The one exception of the type has a text.
    rw [hrival.sole gap (List.mem_of_getElem? hplace) hgap, hrival.rival.2] at hempty
    cases hempty
  | appended _ hnew =>
    rw [if_neg fun hreaches => hnew (hdup.mpr hreaches)]
    rfl
  | refused _ _ _ hrefused => simp [hadd] at hrefused

/-- An exception is not added exactly if its score with its sole rival reaches the threshold. The
exact share of matching characters decides the same, unless it is equal to a threshold that such a
share does not reach. -/
theorem addition_decided {policy : Policy} {docs source : DocFields} {e x : ExceptionDoc}
    (hadd : policy.addExceptions = true) (hkeep : policy.replaceExceptions = false)
    (hlow : 0 ≤ policy.collisionThreshold) (hhigh : policy.collisionThreshold ≤ 100)
    (hpresent : docs.present = true) (hsource : source.exceptions = [x])
    (hincoming : isUndocumented x.text = false)
    (hrival : IsSoleRival docs.exceptions x e)
    (hwords : 0 < (comparedWords e.text).toList.length + (comparedWords x.text).toList.length) :
    let matching := matched (comparedWords e.text).toList (comparedWords x.text).toList
    let total := (comparedWords e.text).toList.length + (comparedWords x.text).toList.length
    let after := (mergeExceptions policy docs source).1.exceptions
    after = (if policy.collisionThreshold ≤ scoreOf matching total then docs.exceptions
      else docs.exceptions ++ [tidied x]) ∧
    (total ≤ 2 ^ 45 →
      (after = docs.exceptions ↔
        policy.collisionThreshold * total < 200 * matching ∨
          (policy.collisionThreshold * total = 200 * matching ∧
            policy.collisionThreshold ∉ shortPercents))) := by
  intro matching total after
  have hafter : after = if policy.collisionThreshold ≤ scoreOf matching total then docs.exceptions
      else docs.exceptions ++ [tidied x] := by
    rw [← similarity_eq_scoreOf hwords]
    exact mergeExceptions_sole hadd hkeep hpresent hsource hincoming hrival
  refine ⟨hafter, fun hbound => ?_⟩
  have htwice : 2 * matching ≤ total := by
    have := matched_le (comparedWords e.text).toList (comparedWords x.text).toList
    omega
  rw [← le_scoreOf_iff hwords hbound htwice hlow hhigh, hafter]
  split
  · rename_i hreaches
    exact iff_of_true rfl hreaches
  · rename_i hshort
    exact iff_of_false (by simp) hshort

def nothing : ExceptionDoc := ⟨"T:Refused", "The queue has nothing to take."⟩

def emptyQueue : DocFields := { exceptions := [nothing] }

def nothingShort : ExceptionDoc := ⟨"T:Refused", "Nothing to take."⟩

theorem addition_decided_short :
    let policy : Policy := {}
    let source : DocFields := { exceptions := [nothingShort] }
    policy.addExceptions = true ∧ policy.replaceExceptions = false ∧ 0 ≤ policy.collisionThreshold ∧
      policy.collisionThreshold ≤ 100 ∧ emptyQueue.present = true ∧
      source.exceptions = [nothingShort] ∧
      isUndocumented nothingShort.text = false ∧
      IsSoleRival emptyQueue.exceptions nothingShort nothing ∧
      0 < (comparedWords nothing.text).toList.length +
      (comparedWords nothingShort.text).toList.length ∧
      (mergeExceptions policy emptyQueue source).1.exceptions = [nothing, nothingShort] := by
  intro policy source
  have hincoming : isUndocumented nothingShort.text = false := by decide +kernel
  have hrival : IsSoleRival emptyQueue.exceptions nothingShort nothing :=
    ⟨by simp [emptyQueue], ⟨by decide +kernel, by decide +kernel⟩, by simp [emptyQueue]⟩
  have hwords : 0 < (comparedWords nothing.text).toList.length +
      (comparedWords nothingShort.text).toList.length := by
    decide +kernel
  have hadd : policy.addExceptions = true := rfl
  have hsource : source.exceptions = [nothingShort] := rfl
  have hdecided :=
    (addition_decided hadd rfl (by decide) (by decide) rfl hsource hincoming hrival hwords).1
  refine ⟨rfl, rfl, by decide, by decide, rfl, rfl, hincoming, hrival, hwords, ?_⟩
  rw [hdecided, if_neg (by decide +kernel)]
  decide +kernel

def nothingReason : ExceptionDoc :=
  ⟨"T:Refused", "The queue has nothing to take, because every item in it has been removed."⟩

set_option maxRecDepth 100000 in
theorem matched_nothingReason :
    (matched (comparedWords nothing.text).toList (comparedWords nothingReason.text).toList,
      (comparedWords nothing.text).toList.length +
      (comparedWords nothingReason.text).toList.length) = (29, 100) := by
  rw [nothing, nothingReason, toList_comparedWords, toList_comparedWords, String.toList_ofList,
    String.toList_ofList]
  decide +kernel

/-- A share of exactly 58 percent does not reach a threshold of 58. -/
theorem equal_share_added :
    200 * matched (comparedWords nothing.text).toList (comparedWords nothingReason.text).toList =
      58 * ((comparedWords nothing.text).toList.length +
        (comparedWords nothingReason.text).toList.length) ∧
    (mergeExceptions { collisionThreshold := 58 } emptyQueue
      { exceptions := [nothingReason] }).1.exceptions =
      [nothing, nothingReason] := by
  have hcounts := Prod.mk.inj matched_nothingReason
  have hrival : IsSoleRival emptyQueue.exceptions nothingReason nothing :=
    ⟨by simp [emptyQueue], ⟨by decide +kernel, by decide +kernel⟩, by simp [emptyQueue]⟩
  refine ⟨by rw [hcounts.1, hcounts.2], ?_⟩
  rw [mergeExceptions_sole rfl rfl rfl rfl (by decide +kernel) hrival,
    similarity_eq_scoreOf (by omega), hcounts.1,
    hcounts.2, if_neg (by decide +kernel)]
  decide +kernel

end DocMerge.Merge

import DocMerge.Proofs.Rounding
import DocMerge.Similarity.Score
import Mathlib.Tactic.Linarith

/-!
# How much of two texts can match

A matching block lies within both texts, and what is looked at on both sides of it is what is left
of them. So no more characters match than either text has, and no score is above a hundred.
-/

namespace DocMerge.Similarity

variable (ruledOut : Char → Bool)

-- ---------------------------------------------------------------------------
-- Blocks within the second text
-- ---------------------------------------------------------------------------

def IsRowFrom (place : Nat) (row : List Nat) : Prop :=
  ∀ j (h : j < row.length), row[j] ≤ place + j + 1

theorem isRowFrom_cons :
    IsRowFrom place (size :: row) ↔ size ≤ place + 1 ∧ IsRowFrom (place + 1) row := by
  constructor
  · intro h
    refine ⟨h 0 (by simp), fun j hj => ?_⟩
    have := h (j + 1) (by simpa using hj)
    rw [List.getElem_cons_succ] at this
    omega
  · rintro ⟨hhead, hrow⟩ (_ | j) hj
    · exact hhead
    · have := hrow j (by simpa using hj)
      rw [List.getElem_cons_succ]
      omega

theorem nextRow_isRowFrom (c : Char) (b : List Char) (hdiagonal : diagonal ≤ place)
    (hrow : IsRowFrom place row) :
    IsRowFrom place (nextRow ruledOut c diagonal b row) := by
  induction b generalizing place diagonal row with
  | nil => simp [nextRow, IsRowFrom]
  | cons d b ih =>
    cases row with
    | nil => simp [nextRow, IsRowFrom]
    | cons above row =>
      obtain ⟨habove, hrow⟩ := isRowFrom_cons.mp hrow
      rw [nextRow, isRowFrom_cons]
      refine ⟨?_, ih habove hrow⟩
      split <;> omega

theorem nextRow_length_le (c : Char) (diagonal : Nat) (b : List Char) (row : List Nat) :
    (nextRow ruledOut c diagonal b row).length ≤ b.length := by
  induction b generalizing diagonal row with
  | nil => simp [nextRow]
  | cons d b ih =>
    cases row with
    | nil => simp [nextRow]
    | cons above row => simpa [nextRow] using ih above row

theorem bestInRow_fits {last : Nat} (i : Nat) (hbest : best.right + best.size ≤ last)
    (hrow : IsRowFrom j row)
    (hlast : j + row.length ≤ last) :
    (bestInRow i j best row).right + (bestInRow i j best row).size ≤ last := by
  induction row generalizing j best with
  | nil => exact hbest
  | cons size row ih =>
    obtain ⟨hsize, hrow⟩ := isRowFrom_cons.mp hrow
    rw [List.length_cons] at hlast
    rw [bestInRow]
    refine ih ?_ hrow (by omega)
    split
    · dsimp only
      omega
    · exact hbest

theorem bestFrom_fits {b : List Char} (i : Nat) (hbest : best.right + best.size ≤ b.length)
    (hrow : IsRowFrom 0 row)
    (a : List Char) :
    (bestFrom ruledOut b i row best a).right + (bestFrom ruledOut b i row best a).size ≤
      b.length := by
  induction a generalizing i row best with
  | nil => exact hbest
  | cons c a ih =>
    have hnext := nextRow_isRowFrom ruledOut c b (Nat.le_refl 0) hrow
    have hlength := nextRow_length_le ruledOut c 0 b row
    rw [bestFrom]
    exact ih (i + 1) (bestInRow_fits i hbest hnext (by omega)) hnext

theorem sharedStart_le_right (a b : List Char) : sharedStart a b ≤ b.length := by
  induction a generalizing b with
  | nil => simp [sharedStart]
  | cons c a ih =>
    cases b with
    | nil => simp [sharedStart]
    | cons d b =>
      rw [sharedStart]
      split
      · exact Nat.succ_le_succ (ih b)
      · exact Nat.zero_le _

theorem longest_fits (a b : List Char) :
    (longest ruledOut a b).right + (longest ruledOut a b).size ≤ b.length := by
  have hzero : IsRowFrom 0 (b.map fun _ => 0) := by simp [IsRowFrom]
  have hcore : (core ruledOut a b).right + (core ruledOut a b).size ≤ b.length :=
    bestFrom_fits ruledOut 0 (Nat.zero_le _) hzero a
  have hbefore := sharedStart_le_right (a.take (core ruledOut a b).left).reverse
    (b.take (core ruledOut a b).right).reverse
  have hafter := sharedStart_le_right (a.drop ((core ruledOut a b).left + (core ruledOut a b).size))
    (b.drop ((core ruledOut a b).right + (core ruledOut a b).size))
  simp only [List.length_reverse, List.length_take, List.length_drop] at hbefore hafter
  simp only [longest, Block.extend]
  omega

-- ---------------------------------------------------------------------------
-- Scores
-- ---------------------------------------------------------------------------

theorem matchedWithout_le (a b : List Char) :
    matchedWithout ruledOut a b ≤ a.length ∧ matchedWithout ruledOut a b ≤ b.length := by
  fun_induction matchedWithout ruledOut a b with
  | case1 a b block hfits ihBefore ihAfter =>
    have hright : block.right + block.size ≤ b.length := longest_fits ruledOut a b
    simp only [List.length_take, List.length_drop] at ihBefore ihAfter
    omega
  | case2 => exact ⟨Nat.zero_le _, Nat.zero_le _⟩

theorem matched_le (a b : List Char) : matched a b ≤ a.length ∧ matched a b ≤ b.length :=
  matchedWithout_le _ a b

theorem percent_le (a b : List Char) : percent a b ≤ 100 := by
  unfold percent
  split
  · exact le_refl _
  · obtain ⟨hleft, hright⟩ := matched_le a b
    have hcount : (2 * matched a b : Rat) ≤ (a.length + b.length : Nat) := by
      exact_mod_cast (by omega : 2 * matched a b ≤ a.length + b.length)
    have hquotient : mkRat (2 * matched a b) (a.length + b.length) ≤ (1 : Nat) := by
      rw [Rat.mkRat_eq_div]
      push_cast at hcount ⊢
      exact div_le_one_of_le₀ hcount (by positivity)
    have hnonneg : 0 ≤ mkRat (2 * matched a b) (a.length + b.length) :=
      Rat.mkRat_nonneg (by positivity) _
    have hratio := rounded_le hnonneg hquotient (by norm_num)
    have hratio' := rounded_nonneg hnonneg
    refine rounded_le (n := 100) (by positivity) ?_ (by norm_num)
    rw [Nat.cast_one] at hratio
    push_cast
    linarith

end DocMerge.Similarity

namespace DocMerge

/-- No two texts are more similar than a text is to itself. -/
theorem similarity_le (a b : String) : similarity a b ≤ 100 := Similarity.percent_le _ _

end DocMerge

import DocMerge.Proofs.Blocks
import DocMerge.Proofs.SelfSimilarity

/-!
# What matching blocks have in common

A matching block says the same in both texts, whatever its extension to both sides passes over. So
two texts of which all characters match are the same: the blocks leave no gap in either of them.
-/

namespace DocMerge.Similarity

variable (ruledOut : Char → Bool)

-- ---------------------------------------------------------------------------
-- Rows
-- ---------------------------------------------------------------------------

structure EndsAlike (a b : List Char) (i j size : Nat) : Prop where
  left_le : size ≤ i
  right_le : size ≤ j
  same : ∀ k < size, a[i - 1 - k]? = b[j - 1 - k]?

theorem endsAlike_zero (a b : List Char) (i j : Nat) : EndsAlike a b i j 0 :=
  ⟨Nat.zero_le _, Nat.zero_le _, fun k hk => absurd hk (Nat.not_lt_zero k)⟩

theorem EndsAlike.succ (h : EndsAlike a b i j size) (hsame : a[i]? = b[j]?) :
    EndsAlike a b (i + 1) (j + 1) (size + 1) where
  left_le := Nat.succ_le_succ h.left_le
  right_le := Nat.succ_le_succ h.right_le
  same k hk := by
    cases k with
    | zero => exact hsame
    | succ k =>
      have hbefore := h.same k (Nat.lt_of_succ_lt_succ hk)
      rwa [show i + 1 - 1 - (k + 1) = i - 1 - k by omega,
        show j + 1 - 1 - (k + 1) = j - 1 - k by omega]

structure IsShared (a b : List Char) (place : Nat) (row : List Nat) : Prop where
  length : row.length = b.length
  alike : ∀ j (h : j < row.length), EndsAlike a b place (j + 1) row[j]

theorem isShared_zero (a b : List Char) : IsShared a b 0 (b.map fun _ => 0) where
  length := by simp
  alike j _ := by simpa using endsAlike_zero a b 0 (j + 1)

theorem IsShared.earlier (h : IsShared a b place row) (j : Nat) (hj : j < (0 :: row).length) :
    EndsAlike a b place j (0 :: row)[j] := by
  cases j with
  | zero => exact endsAlike_zero a b place 0
  | succ j => exact h.alike j (by simpa using hj)

theorem IsShared.next (h : IsShared a b place row) (hplace : place < a.length) :
    IsShared a b (place + 1) (nextRow ruledOut a[place] 0 b row) := by
  rw [nextRow_eq_zipWith ruledOut _ _ _ _ h.length]
  refine ⟨by simp [h.length], fun j hj => ?_⟩
  simp only [List.length_zipWith, List.length_cons, h.length] at hj
  have hlt : j < b.length := by omega
  have hearlier := h.earlier j (by simp [h.length]; omega)
  simp only [List.getElem_zipWith, Bool.and_eq_true, decide_eq_true_eq]
  split
  · rename_i hsame
    refine hearlier.succ ?_
    rw [List.getElem?_eq_getElem hplace, List.getElem?_eq_getElem hlt, hsame.1]
  · exact endsAlike_zero _ _ _ _

-- ---------------------------------------------------------------------------
-- Blocks
-- ---------------------------------------------------------------------------

structure Block.Agrees (a b : List Char) (block : Block) : Prop where
  fits : block.left + block.size ≤ a.length
  same : ∀ k < block.size, a[block.left + k]? = b[block.right + k]?

theorem agrees_empty (a b : List Char) : Block.Agrees a b ⟨0, 0, 0⟩ :=
  ⟨Nat.zero_le _, fun k hk => absurd hk (Nat.not_lt_zero k)⟩

theorem EndsAlike.agrees (h : EndsAlike a b i j size) (hi : i ≤ a.length) :
    Block.Agrees a b ⟨i - size, j - size, size⟩ := by
  have hleft := h.left_le
  have hright := h.right_le
  refine ⟨by dsimp only; omega, fun k hk => ?_⟩
  have hk : k < size := hk
  have hsame := h.same (size - 1 - k) (by omega)
  rwa [show i - 1 - (size - 1 - k) = i - size + k by omega,
    show j - 1 - (size - 1 - k) = j - size + k by omega] at hsame

theorem bestInRow_agrees {row : List Nat} {best : Block} (hbest : best.Agrees a b)
    (hi : i < a.length)
    (hrow : ∀ k (h : k < row.length), EndsAlike a b (i + 1) (j + k + 1) row[k]) :
    (bestInRow i j best row).Agrees a b := by
  induction row generalizing j best with
  | nil => exact hbest
  | cons size row ih =>
    rw [bestInRow]
    refine ih ?_ fun k hk => ?_
    · split
      · exact (hrow 0 (by simp)).agrees hi
      · exact hbest
    · have hnext := hrow (k + 1) (by simpa using hk)
      rwa [List.getElem_cons_succ, show j + (k + 1) + 1 = j + 1 + k + 1 by omega] at hnext

theorem bestFrom_agrees {best : Block} (hbest : best.Agrees a b) (hrow : IsShared a b place row)
    (hrest : rest = a.drop place) : (bestFrom ruledOut b place row best rest).Agrees a b := by
  induction rest generalizing place best row with
  | nil => exact hbest
  | cons c rest ih =>
    obtain ⟨hlt, rfl, hbehind⟩ := of_cons_eq_drop hrest
    have hnext := hrow.next ruledOut hlt
    refine ih (bestInRow_agrees hbest hlt fun k hk => ?_) hnext hbehind
    simpa using hnext.alike k hk

theorem sharedStart_le_left (a b : List Char) : sharedStart a b ≤ a.length := by
  induction a generalizing b with
  | nil => simp [sharedStart]
  | cons c a ih =>
    cases b with
    | nil => simp [sharedStart]
    | cons d b =>
      rw [sharedStart]
      split
      · exact Nat.succ_le_succ (ih b)
      · exact Nat.zero_le _

theorem sharedStart_same (a b : List Char) : ∀ k < sharedStart a b, a[k]? = b[k]? := by
  induction a generalizing b with
  | nil => simp [sharedStart]
  | cons c a ih =>
    cases b with
    | nil => simp [sharedStart]
    | cons d b =>
      rw [sharedStart]
      split
      · rename_i hsame
        rintro (_ | k) hk
        · simp [hsame]
        · simpa using ih b k (Nat.lt_of_succ_lt_succ hk)
      · simp

theorem getElem?_reverse_take (a : List Char) {place k : Nat} (hplace : place ≤ a.length)
    (hk : k < place) :
    (a.take place).reverse[k]? = a[place - 1 - k]? := by
  have hlength : (a.take place).length = place := List.length_take_of_le hplace
  rw [List.getElem?_reverse (by rw [hlength]; exact hk), hlength,
    List.getElem?_take_of_lt (by omega)]

theorem Block.Agrees.extend {block : Block} (h : block.Agrees a b)
    (hright : block.right ≤ b.length) :
    (block.extend a b).Agrees a b := by
  unfold Block.extend
  extract_lets before after
  have hfits := h.fits
  have hbefore : before ≤ block.left ∧ before ≤ block.right := by
    have hl : before ≤ (a.take block.left).reverse.length := sharedStart_le_left _ _
    have hr : before ≤ (b.take block.right).reverse.length := sharedStart_le_right _ _
    simp only [List.length_reverse, List.length_take] at hl hr
    omega
  have hafter : after ≤ (a.drop (block.left + block.size)).length := sharedStart_le_left _ _
  rw [List.length_drop] at hafter
  refine ⟨by dsimp only; omega, fun k hk => ?_⟩
  have hk : k < before + block.size + after := hk
  dsimp only
  -- A character of the extended block lies before the block, in it or behind it.
  rcases Nat.lt_or_ge k before with hlow | hlow
  · have hsame := sharedStart_same (a.take block.left).reverse
      (b.take block.right).reverse (before - 1 - k)
      (show before - 1 - k < before by omega)
    rw [getElem?_reverse_take a (by omega) (by omega),
      getElem?_reverse_take b hright (by omega)] at hsame
    rwa [show block.left - 1 - (before - 1 - k) = block.left - before + k by omega,
      show block.right - 1 - (before - 1 - k) = block.right - before + k by omega] at hsame
  · rcases Nat.lt_or_ge k (before + block.size) with hmiddle | hhigh
    · have hsame := h.same (k - before) (by omega)
      rwa [show block.left + (k - before) = block.left - before + k by omega,
        show block.right + (k - before) = block.right - before + k by omega] at hsame
    · have hsame := sharedStart_same (a.drop (block.left + block.size))
        (b.drop (block.right + block.size))
        (k - before - block.size) (show k - before - block.size < after by omega)
      rw [List.getElem?_drop, List.getElem?_drop] at hsame
      rwa [
        show block.left + block.size + (k - before - block.size) = block.left - before + k by omega,
        show block.right + block.size + (k - before - block.size) =
          block.right - before + k by omega] at hsame

/-- The longest common block says the same in both texts. -/
theorem longest_agrees (a b : List Char) : (longest ruledOut a b).Agrees a b := by
  have hcore : (core ruledOut a b).Agrees a b :=
    bestFrom_agrees ruledOut (agrees_empty a b) (isShared_zero a b) rfl
  have hzero : IsRowFrom 0 (b.map fun _ => 0) := by simp [IsRowFrom]
  have hright : (core ruledOut a b).right + (core ruledOut a b).size ≤ b.length :=
    bestFrom_fits ruledOut 0 (Nat.zero_le _) hzero a
  exact hcore.extend (by omega)

-- ---------------------------------------------------------------------------
-- Texts that match altogether
-- ---------------------------------------------------------------------------

theorem Block.Agrees.eq_of_parts {block : Block} (h : block.Agrees a b)
    (hplace : block.left = block.right)
    (hbefore : a.take block.left = b.take block.right)
    (hbehind : a.drop (block.left + block.size) = b.drop (block.right + block.size)) : a = b := by
  refine List.ext_getElem? fun n => ?_
  rcases Nat.lt_or_ge n block.left with hlow | hlow
  · have hsame := congrArg (·[n]?) hbefore
    rwa [List.getElem?_take_of_lt hlow, List.getElem?_take_of_lt (hplace ▸ hlow)] at hsame
  · rcases Nat.lt_or_ge n (block.left + block.size) with hmiddle | hhigh
    · have hsame := h.same (n - block.left) (by omega)
      rwa [← hplace, show block.left + (n - block.left) = n by omega] at hsame
    · have hsame := congrArg (·[n - (block.left + block.size)]?) hbehind
      rw [List.getElem?_drop, List.getElem?_drop] at hsame
      rwa [← hplace, show block.left + block.size + (n - (block.left + block.size)) =
        n by omega] at hsame

theorem eq_of_matchedWithout (a b : List Char) (hleft : matchedWithout ruledOut a b = a.length)
    (hright : matchedWithout ruledOut a b = b.length) : a = b := by
  fun_induction matchedWithout ruledOut a b with
  | case1 a b block hfits ihBefore ihBehind =>
    have hagrees : block.Agrees a b := longest_agrees ruledOut a b
    have hwithin : block.right + block.size ≤ b.length := longest_fits ruledOut a b
    have hbefore := matchedWithout_le ruledOut (a.take block.left) (b.take block.right)
    have hbehind := matchedWithout_le ruledOut (a.drop (block.left + block.size))
      (b.drop (block.right + block.size))
    simp only [List.length_take, List.length_drop] at hbefore hbehind ihBefore ihBehind
    -- No character of either text is left over before the block or behind it.
    refine hagrees.eq_of_parts (by omega) (ihBefore (by omega) (by omega))
      (ihBehind (by omega) (by omega))
  | case2 =>
    rw [List.eq_nil_of_length_eq_zero hleft.symm, List.eq_nil_of_length_eq_zero hright.symm]

/-- All characters of two texts match exactly if the texts are the same. -/
theorem matched_eq_iff (a b : List Char) : 2 * matched a b = a.length + b.length ↔ a = b := by
  obtain ⟨hleft, hright⟩ := matched_le a b
  constructor
  · intro hall
    exact eq_of_matchedWithout (frequent b).contains a b (show matched a b = _ by omega)
      (show matched a b = _ by omega)
  · rintro rfl
    rw [matched, matchedWithout_self, Nat.two_mul]

end DocMerge.Similarity

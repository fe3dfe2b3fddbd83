import DocMerge.Similarity.Score

/-!
# A text is fully similar to itself

The longest common block of a text with itself lies on the diagonal, whichever characters are ruled
out: no other block is longer than the one that ends at the same character on the diagonal, and that
one is met first. A block on the diagonal is extended over the whole text.
-/

namespace DocMerge.Similarity

variable (ruledOut : Char → Bool)

-- ---------------------------------------------------------------------------
-- Runs
-- ---------------------------------------------------------------------------

def runBefore (b : List Char) (place : Nat) : Nat :=
  ((b.take place).reverse.takeWhile (fun c => !ruledOut c)).length

theorem runBefore_zero (b : List Char) : runBefore ruledOut b 0 = 0 := by simp [runBefore]

theorem runBefore_succ (b : List Char) (h : place < b.length) :
    runBefore ruledOut b (place + 1) =
      if ruledOut b[place] then 0 else runBefore ruledOut b place + 1 := by
  rw [runBefore, List.take_succ_eq_append_getElem h, List.reverse_append]
  cases hc : ruledOut b[place] <;> simp [runBefore, hc]

theorem runBefore_le (b : List Char) (place : Nat) : runBefore ruledOut b place ≤ place := by
  calc runBefore ruledOut b place
      ≤ (b.take place).reverse.length := List.takeWhile_sublist _ |>.length_le
    _ ≤ place := by rw [List.length_reverse]; exact List.length_take_le place b

-- ---------------------------------------------------------------------------
-- Rows
-- ---------------------------------------------------------------------------

theorem nextRow_eq_zipWith (c : Char) (diagonal : Nat) (b : List Char) (row : List Nat)
    (h : row.length = b.length) :
    nextRow ruledOut c diagonal b row =
      List.zipWith (fun d earlier => if c = d && !ruledOut d then earlier + 1 else 0) b
        (diagonal :: row) := by
  induction b generalizing diagonal row with
  | nil => simp [nextRow]
  | cons d b ih =>
    cases row with
    | nil => simp at h
    | cons above row =>
      rw [nextRow, ih above row (by simpa using h)]
      simp

/-- The lengths in the row after the first `place` characters of a text, as to the text itself. -/
structure RowAt (b : List Char) (place : Nat) (row : List Nat) : Prop where
  length : row.length = b.length
  le_column : ∀ j (h : j < row.length), row[j] ≤ runBefore ruledOut b (j + 1)
  le_row : ∀ j (h : j < row.length), row[j] ≤ runBefore ruledOut b place
  diagonal : ∀ j (h : j < row.length), j + 1 = place → row[j] = runBefore ruledOut b place

theorem rowAt_zero (b : List Char) : RowAt ruledOut b 0 (b.map fun _ => 0) where
  length := by simp
  le_column := by simp
  le_row := by simp
  diagonal := by simp

theorem RowAt.earlier (h : RowAt ruledOut b place row) (j : Nat) (hj : j < (0 :: row).length) :
    (0 :: row)[j] ≤ runBefore ruledOut b j ∧ (0 :: row)[j] ≤ runBefore ruledOut b place ∧
      (j = place → (0 :: row)[j] = runBefore ruledOut b place) := by
  cases j with
  | zero =>
    refine ⟨Nat.zero_le _, Nat.zero_le _, ?_⟩
    rintro rfl
    simp [runBefore_zero]
  | succ j =>
    have hj : j < row.length := by simpa using hj
    exact ⟨h.le_column j hj, h.le_row j hj, h.diagonal j hj⟩

theorem RowAt.next (h : RowAt ruledOut b place row) (hplace : place < b.length) :
    RowAt ruledOut b (place + 1) (nextRow ruledOut b[place] 0 b row) := by
  rw [nextRow_eq_zipWith ruledOut _ _ _ _ h.length]
  have hrow := runBefore_succ ruledOut b hplace
  refine ⟨by simp [h.length], ?_, ?_, ?_⟩ <;> intro j hj <;>
    simp only [List.length_zipWith, List.length_cons, h.length] at hj <;>
    have hlt : j < b.length := by omega
  all_goals
    have hcolumn := runBefore_succ ruledOut b hlt
    obtain ⟨hbelow, hleft, hdiagonal⟩ := h.earlier ruledOut j (by simp [h.length]; omega)
    simp only [List.getElem_zipWith, Bool.and_eq_true, decide_eq_true_eq, Bool.not_eq_true']
  · split
    · rename_i hsame
      rw [hcolumn, hsame.2]
      simpa using hbelow
    · exact Nat.zero_le _
  · split
    · rename_i hsame
      have hkept : ruledOut b[place] = false := by rw [hsame.1]; exact hsame.2
      rw [hrow, hkept]
      simpa using hleft
    · exact Nat.zero_le _
  · intro hj
    obtain rfl : j = place := by omega
    rw [hrow]
    cases hc : ruledOut b[j] <;> simp [hdiagonal rfl]

-- ---------------------------------------------------------------------------
-- The longest block
-- ---------------------------------------------------------------------------

theorem bestInRow_append (i j : Nat) (best : Block) (first second : List Nat) :
    bestInRow i j best (first ++ second) =
      bestInRow i (j + first.length) (bestInRow i j best first) second := by
  induction first generalizing j best with
  | nil => rfl
  | cons size rest ih =>
    simp only [List.cons_append, bestInRow, List.length_cons]
    rw [ih, Nat.add_right_comm, Nat.add_assoc]

theorem bestInRow_of_le (i j : Nat) (best : Block) (row : List Nat)
    (h : ∀ size ∈ row, size ≤ best.size) : bestInRow i j best row = best := by
  induction row generalizing j with
  | nil => rfl
  | cons size rest ih =>
    have hsize : ¬ best.size < size := Nat.not_lt.mpr (h size (by simp))
    rw [bestInRow, if_neg hsize]
    exact ih (j + 1) fun n hn => h n (List.mem_cons_of_mem size hn)

structure DiagonalAt (b : List Char) (place : Nat) (best : Block) : Prop where
  diagonal : best.left = best.right
  fits : best.left + best.size ≤ place
  longest : ∀ k, k ≤ place → runBefore ruledOut b k ≤ best.size

theorem diagonalAt_zero (b : List Char) : DiagonalAt ruledOut b 0 ⟨0, 0, 0⟩ where
  diagonal := rfl
  fits := Nat.le_refl _
  longest k hk := by
    obtain rfl := Nat.le_zero.mp hk
    exact Nat.le_of_eq (runBefore_zero ruledOut b)

/-- Only the block that ends on the diagonal can be longer than all blocks before it. -/
theorem DiagonalAt.next (h : DiagonalAt ruledOut b place best)
    (hrow : RowAt ruledOut b (place + 1) row) (hplace : place < b.length) :
    DiagonalAt ruledOut b (place + 1) (bestInRow place 0 best row) := by
  have hlt : place < row.length := by rw [hrow.length]; exact hplace
  have hsplit : row = row.take place ++ row[place] :: row.drop (place + 1) := by
    rw [← List.drop_eq_getElem_cons hlt, List.take_append_drop]
  have hbefore : bestInRow place 0 best (row.take place) = best := by
    refine bestInRow_of_le _ _ _ _ fun size hsize => ?_
    obtain ⟨j, hj, rfl⟩ := List.mem_take_iff_getElem.mp hsize
    exact Nat.le_trans (hrow.le_column j (by omega)) (h.longest (j + 1) (by omega))
  have hafter : ∀ size ∈ row.drop (place + 1), size ≤ row[place] := by
    intro size hsize
    obtain ⟨j, hj, rfl⟩ := List.mem_drop_iff_getElem.mp hsize
    rw [hrow.diagonal place hlt rfl]
    exact hrow.le_row _ _
  have hhere := hrow.diagonal place hlt rfl
  rw [hsplit, bestInRow_append, hbefore, List.length_take,
    Nat.min_eq_left (Nat.le_of_lt hlt), bestInRow]
  rw [Nat.zero_add]
  split
  · rename_i hlonger
    rw [bestInRow_of_le _ _ _ _ hafter]
    have hle := runBefore_le ruledOut b (place + 1)
    refine ⟨rfl, ?_, fun k hk => ?_⟩
    · simp only
      omega
    · rcases Nat.le_succ_iff.mp hk with hk | rfl
      · exact Nat.le_trans (h.longest k hk) (Nat.le_of_lt hlonger)
      · exact Nat.le_of_eq hhere.symm
  · rename_i hshorter
    have hshorter := Nat.not_lt.mp hshorter
    rw [bestInRow_of_le _ _ _ _ fun size hsize => Nat.le_trans (hafter size hsize) hshorter]
    refine ⟨h.diagonal, Nat.le_trans h.fits (Nat.le_succ _), fun k hk => ?_⟩
    rcases Nat.le_succ_iff.mp hk with hk | rfl
    · exact h.longest k hk
    · exact hhere ▸ hshorter

theorem of_cons_eq_drop {b : List Char} (h : c :: rest = b.drop place) :
    ∃ hlt : place < b.length, b[place] = c ∧ rest = b.drop (place + 1) := by
  have hlt : place < b.length := by
    have := congrArg List.length h
    simp only [List.length_cons, List.length_drop] at this
    omega
  rw [List.drop_eq_getElem_cons hlt, List.cons.injEq] at h
  exact ⟨hlt, h.1.symm, h.2⟩

theorem bestFrom_diagonal (hbest : DiagonalAt ruledOut b place best)
    (hrow : RowAt ruledOut b place row) (hrest : rest = b.drop place) (hplace : place ≤ b.length) :
    DiagonalAt ruledOut b b.length (bestFrom ruledOut b place row best rest) := by
  induction rest generalizing place best row with
  | nil =>
    have hend : place = b.length := by
      have := congrArg List.length hrest
      simp only [List.length_nil, List.length_drop] at this
      omega
    exact hend ▸ hbest
  | cons c rest ih =>
    obtain ⟨hlt, rfl, hbehind⟩ := of_cons_eq_drop hrest
    have hnext := hrow.next ruledOut hlt
    exact ih (hbest.next ruledOut hnext hlt) hnext hbehind hlt

theorem core_self (b : List Char) : DiagonalAt ruledOut b b.length (core ruledOut b b) :=
  bestFrom_diagonal ruledOut (diagonalAt_zero ruledOut b)
    (rowAt_zero ruledOut b) rfl (Nat.zero_le _)

-- ---------------------------------------------------------------------------
-- The whole text
-- ---------------------------------------------------------------------------

theorem sharedStart_self (a : List Char) : sharedStart a a = a.length := by
  induction a with
  | nil => rfl
  | cons c a ih => simp [sharedStart, ih]

theorem longest_self (a : List Char) : longest ruledOut a a = ⟨0, 0, a.length⟩ := by
  have h := core_self ruledOut a
  have hleft : (core ruledOut a a).left ≤ a.length := by have := h.fits; omega
  simp only [longest, Block.extend, ← h.diagonal, sharedStart_self, List.length_reverse,
    List.length_take, List.length_drop, Nat.min_eq_left hleft, Nat.sub_self, Block.mk.injEq,
    true_and]
  have := h.fits
  omega

theorem matchedWithout_self (a : List Char) : matchedWithout ruledOut a a = a.length := by
  have hnil : matchedWithout ruledOut [] [] = 0 := by
    rw [matchedWithout, longest_self]
    simp
  rw [matchedWithout, longest_self]
  cases a with
  | nil => simp
  | cons c a => simp [hnil]

/-- The score of a text against itself is the greatest, whatever its length and its characters. -/
theorem percent_self (a : List Char) : percent a a = 100 := by
  unfold percent
  split
  · rfl
  rename_i hne
  have hpos : a.length + a.length ≠ 0 := by
    cases a with
    | nil => simp at hne
    | cons c a => simp
  have hquotient : mkRat (2 * matched a a) (a.length + a.length) = 1 := by
    rw [matched, matchedWithout_self]
    calc mkRat (2 * a.length : Int) (a.length + a.length)
        = mkRat ((a.length + a.length : Nat) * 1) ((a.length + a.length) * 1) := by
          rw [Int.mul_one, Nat.mul_one, Int.natCast_add, Int.two_mul]
      _ = mkRat 1 1 := Rat.mkRat_mul_left hpos
      _ = 1 := rfl
  have hone : rounded 1 = 1 := by decide +kernel
  have hhundred : rounded 100 = 100 := by decide +kernel
  rw [hquotient, hone, Rat.one_mul, hhundred]

end DocMerge.Similarity

namespace DocMerge

theorem similarity_self (text : String) : similarity text text = 100 :=
  Similarity.percent_self (comparedWords text).toList

end DocMerge

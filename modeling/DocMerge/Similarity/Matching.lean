import DocMerge.Similarity.Rounding

/-!
# Matching blocks

How much of two texts is the same. The longest common block is found first, then the longest ones to
its left and to its right, and so on. A block never begins at a character that is ruled out, but it
is extended over such characters on both sides.
-/

namespace DocMerge.Similarity

/-- A block of `size` characters that begins at `left` in one text and at `right` in the other. -/
structure Block where
  left : Nat
  right : Nat
  size : Nat
  deriving DecidableEq, Repr

/-- The lengths of the blocks that end at a character of the first text and at each character of the
second, from the lengths of those that end one character earlier. -/
def nextRow (ruledOut : Char → Bool) (c : Char) : Nat → List Char → List Nat → List Nat
  | diagonal, d :: b, above :: row =>
    (if c = d && !ruledOut d then diagonal + 1 else 0) :: nextRow ruledOut c above b row
  | _, _, _ => []

/-- The longest block known when a row is done, where the row belongs to the character at `i` and
begins at `j`. Of two blocks of one length the earlier one stays. -/
def bestInRow (i : Nat) : Nat → Block → List Nat → Block
  | _, best, [] => best
  | j, best, size :: row =>
    bestInRow i (j + 1)
      (if best.size < size then ⟨i + 1 - size, j + 1 - size, size⟩ else best) row

def bestFrom (ruledOut : Char → Bool) (b : List Char) : Nat → List Nat → Block → List Char → Block
  | _, _, best, [] => best
  | i, row, best, c :: a =>
    let row := nextRow ruledOut c 0 b row
    bestFrom ruledOut b (i + 1) row (bestInRow i 0 best row) a

def core (ruledOut : Char → Bool) (a b : List Char) : Block :=
  bestFrom ruledOut b 0 (b.map fun _ => 0) ⟨0, 0, 0⟩ a

def sharedStart : List Char → List Char → Nat
  | c :: a, d :: b => if c = d then sharedStart a b + 1 else 0
  | _, _ => 0

def Block.extend (a b : List Char) (block : Block) : Block :=
  let before := sharedStart (a.take block.left).reverse (b.take block.right).reverse
  let after := sharedStart (a.drop (block.left + block.size)) (b.drop (block.right + block.size))
  ⟨block.left - before, block.right - before, before + block.size + after⟩

def longest (ruledOut : Char → Bool) (a b : List Char) : Block :=
  (core ruledOut a b).extend a b

def matchedWithout (ruledOut : Char → Bool) (a b : List Char) : Nat :=
  let block := longest ruledOut a b
  if _fits : 0 < block.size ∧ block.left + block.size ≤ a.length then
    matchedWithout ruledOut (a.take block.left) (b.take block.right) + block.size +
      matchedWithout ruledOut (a.drop (block.left + block.size)) (b.drop (block.right + block.size))
  else 0
termination_by a.length
decreasing_by
  all_goals
    obtain ⟨inside, fits⟩ : 0 < (longest ruledOut a b).size ∧
      (longest ruledOut a b).left + (longest ruledOut a b).size ≤ a.length := _fits
    simp only [List.length_take, List.length_drop]
    omega

/-- The characters that each make up more than about a hundredth of a text of 200 characters or
more. -/
def frequent (text : List Char) : List Char :=
  if text.length < 200 then []
  else text.eraseDups.filter (fun c => text.length / 100 + 1 < text.count c)

/-- The number of characters that match, where blocks do not begin at the frequent characters of the
second text. -/
def matched (a b : List Char) : Nat :=
  let ruledOut := frequent b
  matchedWithout ruledOut.contains a b

/-- How similar two texts are, in percent: twice the matching characters out of those of both texts.
Two empty texts are the same. -/
def percent (a b : List Char) : Score :=
  if a.isEmpty && b.isEmpty then 100
  else rounded (rounded (mkRat (2 * matched a b) (a.length + b.length)) * 100)

end DocMerge.Similarity

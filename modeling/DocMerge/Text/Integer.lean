import DocMerge.Text.Blank
import DocMerge.Text.Search
import DocMerge.Text.Word

/-!
# Integers

An integer is written with an optional sign and digits of any script, between which single
underscores may stand. Blanks around it do not count.
-/

namespace DocMerge.Text

/-- Longer rows of digits are neither read as a number nor written. -/
def longestInteger : Nat := 4300

@[irreducible] def isWritten (n : Int) : Bool := n.natAbs < Nat.pow 10 longestInteger

theorem isWritten_iff {n : Int} : isWritten n = true ↔ n.natAbs < Nat.pow 10 longestInteger := by
  unfold isWritten
  exact decide_eq_true_iff

def natural? (cs : List Char) : Option Nat :=
  let groups := splitAt (· == '_') cs
  let digits := groups.flatten
  if groups.all (fun group => !group.isEmpty && group.all isDigit) && digits.length ≤
    longestInteger then
    some (decimal digits)
  else none

def integer? (cs : List Char) : Option Int :=
  match trim cs with
  | '-' :: rest => (natural? rest).map (fun n : Nat => -(n : Int))
  | '+' :: rest => (natural? rest).map (fun n : Nat => (n : Int))
  | cs => (natural? cs).map (fun n : Nat => (n : Int))

end DocMerge.Text

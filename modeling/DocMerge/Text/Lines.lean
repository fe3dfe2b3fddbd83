import DocMerge.Text.Blank
import DocMerge.Text.Search

/-!
# Lines

Taking away the indentation that all lines of a block share, and indenting a block.
-/

namespace DocMerge.Text

def lines (cs : List Char) : List (List Char) := splitAt (· == '\n') cs

def unlines (ls : List (List Char)) : List Char := joinWith ['\n'] ls

def isIndent (c : Char) : Bool := c == ' ' || c == '\t'

def commonStart : List Char → List Char → List Char
  | a :: as, b :: bs => if a = b then a :: commonStart as bs else []
  | _, _ => []

def commonStartOf : List (List Char) → List Char
  | [] => []
  | [cs] => cs
  | cs :: more => commonStart cs (commonStartOf more)

/-- Removes the indentation that all lines share. A line of spaces and tabs alone becomes empty and
has no say in what is shared. -/
def dedent (cs : List Char) : List Char :=
  let ls := (lines cs).map (fun line => if line.all isIndent then [] else line)
  let margin := commonStartOf ((ls.filter (!·.isEmpty)).map (·.takeWhile isIndent))
  unlines (ls.map (·.drop margin.length))

def isLineEnd (c : Char) : Bool :=
  let n := c.toNat
  (10 ≤ n && n ≤ 13) || (28 ≤ n && n ≤ 30) || n == 0x85 || n == 0x2028 || n == 0x2029

/-- The lines of a text with their ends; a carriage return and the newline after it are one end. -/
def linesWithEnds : List Char → List (List Char)
  | [] => []
  | c :: rest =>
    if isLineEnd c && !(c == '\r' && rest.head? == some '\n') then [c] :: linesWithEnds rest
    else consFirst c (linesWithEnds rest)

def indent (margin cs : List Char) : List Char :=
  (linesWithEnds cs).flatMap (fun line => if allBlank line then line else margin ++ line)

end DocMerge.Text

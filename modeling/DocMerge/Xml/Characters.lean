import DocMerge.Text.CodePoints

/-!
# Characters of XML

Which characters a document may hold, and of which characters names consist.
-/

namespace DocMerge.Xml

def isAllowed (c : Char) : Bool :=
  let n := c.toNat
  n == 9 || n == 10 || n == 13 || (0x20 ≤ n && n != 0xFFFE && n != 0xFFFF)

/-- The blanks of markup, which are fewer than those of text. -/
def isSpace (c : Char) : Bool := c == ' ' || c == '\t' || c == '\n' || c == '\r'

def nameStarts : List (Nat × Nat) := [
  (0x41, 0x5A), (0x5F, 0x5F), (0x61, 0x7A), (0xC0, 0xD6), (0xD8, 0xF6),
  (0xF8, 0x2FF), (0x370, 0x37D),
  (0x37F, 0x1FFF), (0x200C, 0x200D), (0x2070, 0x218F), (0x2C00, 0x2FEF), (0x3001, 0xD7FF),
  (0xF900, 0xFDCF), (0xFDF0, 0xFFFD), (0x10000, 0xEFFFF)]

def nameParts : List (Nat × Nat) := [
  (0x2D, 0x2E), (0x30, 0x39), (0xB7, 0xB7), (0x300, 0x36F), (0x203F, 0x2040)]

def isNameStart (c : Char) : Bool := Text.inRanges nameStarts c.toNat

def isNameChar (c : Char) : Bool := isNameStart c || Text.inRanges nameParts c.toNat

end DocMerge.Xml

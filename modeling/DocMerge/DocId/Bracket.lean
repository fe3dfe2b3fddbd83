import DocMerge.Text.Search

/-!
# Brackets in identifiers

Round, square, curly and angle brackets nest. A text is balanced when every bracket closes the one
opened last, and a separator counts as one at the top level only.
-/

namespace DocMerge.DocId

def opener? : Char → Option Char
  | ')' => some '('
  | ']' => some '['
  | '}' => some '\x7b'
  | '>' => some '<'
  | _ => none

def opens (c : Char) : Bool := c == '(' || c == '[' || c == '\x7b' || c == '<'

/-- Whether the text closes exactly the open brackets, the innermost first, and its own. -/
def closesAll : List Char → List Char → Bool
  | opened, [] => opened.isEmpty
  | opened, c :: rest =>
    if opens c then closesAll (c :: opened) rest
    else
      match opener? c with
      | none => closesAll opened rest
      | some o =>
        match opened with
        | [] => false
        | top :: below => top == o && closesAll below rest

def balanced (cs : List Char) : Bool := closesAll [] cs

def weight (c : Char) : Int :=
  if opens c then 1 else if (opener? c).isSome then -1 else 0

/-- The parts between the separators that stand at depth zero, where the text begins at the given
depth. -/
def splitTop (separator : Char) (depth : Int) : List Char → List (List Char)
  | [] => [[]]
  | c :: rest =>
    let depth := depth + weight c
    if c == separator && depth == 0 then [] :: splitTop separator depth rest
    else Text.consFirst c (splitTop separator depth rest)

end DocMerge.DocId

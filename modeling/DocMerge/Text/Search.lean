/-!
# Searching and replacing

Cutting a text at a separator, and replacing all occurrences of a pattern. A pattern is a function
that reads a match off the front of the text; replacement goes on behind the match, and what the
pattern may look back at is the text as it was.
-/

namespace DocMerge.Text

-- What is said of all characters of a text is decided by going through the text. There is also a
-- way to go through all characters.

instance (priority := 1100) decidableAll (cs : List Char) (p : Char → Prop) [DecidablePred p] :
    Decidable (∀ c ∈ cs, p c) :=
  List.decidableBAll p cs

instance (priority := 1100) decidableAll? (o : Option Char) (p : Char → Prop) [DecidablePred p] :
    Decidable (∀ c ∈ o, p c) :=
  Option.decidableForallMem o

def dropStart? : List Char → List Char → Option (List Char)
  | [], cs => some cs
  | _ :: _, [] => none
  | p :: ps, c :: cs => if p = c then dropStart? ps cs else none

def hasStart (start cs : List Char) : Bool := (dropStart? start cs).isSome

def hasEnd (stop cs : List Char) : Bool := hasStart stop.reverse cs.reverse

def cutAt? (mark : List Char) : List Char → Option (List Char × List Char)
  | [] => if mark.isEmpty then some ([], []) else none
  | c :: rest =>
    match dropStart? mark (c :: rest) with
    | some after => some ([], after)
    | none => (cutAt? mark rest).map (fun (before, after) => (c :: before, after))

def consFirst (c : Char) : List (List Char) → List (List Char)
  | [] => [[c]]
  | part :: parts => (c :: part) :: parts

/-- The parts between separators; a text without a separator is one part. -/
def splitAt (isSeparator : Char → Bool) : List Char → List (List Char)
  | [] => [[]]
  | c :: rest =>
    if isSeparator c then [] :: splitAt isSeparator rest
    else consFirst c (splitAt isSeparator rest)

def joinWith (separator : List Char) : List (List Char) → List Char
  | [] => []
  | [part] => part
  | part :: parts => part ++ separator ++ joinWith separator parts

/-- A pattern is given the character before a place and the text from there on. It answers with what
it found and the text behind the match. -/
abbrev Pattern (α : Type) := Option Char → List Char → Option (α × List Char)

/-- A text in which the matches of a pattern have been told from the other characters. -/
abbrev Scanned (α : Type) := List (Char ⊕ α)

/-- Scans a text whose first `skip` characters belong to a match already found. -/
def scanFrom (pattern : Pattern α) (skip : Nat) (before : Option Char) : List Char → Scanned α
  | [] => []
  | c :: rest =>
    match skip with
    | skip + 1 => scanFrom pattern skip (some c) rest
    | 0 =>
      match pattern before (c :: rest) with
      | some (match_, after) =>
        .inr match_ :: scanFrom pattern (rest.length - after.length) (some c) rest
      | none => .inl c :: scanFrom pattern 0 (some c) rest

/-- Finds the matches of a pattern from left to right and without overlap. -/
def scan (pattern : Pattern α) (cs : List Char) : Scanned α := scanFrom pattern 0 none cs

namespace Scanned

def found (scanned : Scanned α) : List α := scanned.filterMap Sum.getRight?

def write (render : α → List Char) (scanned : Scanned α) : List Char :=
  scanned.flatMap (fun part => part.elim (fun c => [c]) render)

def split : Scanned α → List (List Char)
  | [] => [[]]
  | .inl c :: rest => consFirst c (split rest)
  | .inr _ :: rest => [] :: split rest

end Scanned

def replaceAll (pattern : Pattern (List Char)) (cs : List Char) : List Char :=
  (scan pattern cs).write id

def fixed (mark : List Char) (found : α) : Pattern α := fun _ cs =>
  (dropStart? mark cs).map (found, ·)

def replaceText (mark out : List Char) (cs : List Char) : List Char :=
  replaceAll (fixed mark out) cs

/-- The number of places, counted without overlap, where a text stands. -/
def countOf (mark : List Char) (cs : List Char) : Nat := (scan (fixed mark ()) cs).found.length

end DocMerge.Text

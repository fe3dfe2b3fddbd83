import DocMerge.Files.Store

/-!
# File patterns

A pattern is matched part by part against the path that leads to a file. A part with two stars alone
stands for any number of directories.
-/

namespace DocMerge.Files

inductive Piece
  | char (c : Char)
  | one
  | many
  /-- One character in the ranges, or one outside of them. -/
  | oneOf (inverted : Bool) (ranges : List (Char × Char))
  deriving DecidableEq, Repr

namespace Piece

def ranges : List Char → List (Char × Char)
  | a :: '-' :: b :: rest => (a, b) :: ranges rest
  | a :: rest => (a, a) :: ranges rest
  | [] => []

/-- The characters between brackets. A closing bracket at the start is one of them. -/
def readClass? (cs : List Char) : Option (Piece × List Char) := do
  let (inverted, cs) :=
    match cs with
    | '!' :: rest => (true, rest)
    | _ => (false, cs)
  let (inside, rest) ←
    match cs with
    | ']' :: rest => (Text.cutAt? [']'] rest).map (fun (inside, rest) => (']' :: inside, rest))
    | _ => Text.cutAt? [']'] cs
  some (.oneOf inverted (ranges inside), rest)

def readWithin : Nat → List Char → List Piece
  | 0, _ => []
  | fuel + 1, cs =>
    match cs with
    | [] => []
    | '*' :: rest => many :: readWithin fuel rest
    | '?' :: rest => one :: readWithin fuel rest
    | '[' :: rest =>
      match readClass? rest with
      | some (piece, rest) => piece :: readWithin fuel rest
      | none => char '[' :: readWithin fuel rest
    | c :: rest => char c :: readWithin fuel rest

def read (s : String) : List Piece := readWithin s.toList.length s.toList

def accepts (c : Char) : Piece → Bool
  | char d => c == d
  | one | many => true
  | oneOf inverted ranges => ranges.any (fun (a, b) => a ≤ c && c ≤ b) != inverted

def acceptAll : List Piece → List Char → Bool
  | [], cs => cs.isEmpty
  | many :: ps, cs => (List.range (cs.length + 1)).any (fun n => acceptAll ps (cs.drop n))
  | p :: ps, c :: cs => p.accepts c && acceptAll ps cs
  | _ :: _, [] => false

end Piece

/-- A part of a pattern; none stands for any number of directories. -/
abbrev PatternPart := Option (List Piece)

def patternParts (pattern : String) : List PatternPart :=
  (Path.ofString pattern).parts.map (fun part =>
    if part == "**" then none else some (Piece.read part))

def partsMatch : List PatternPart → List String → Bool
  | [], names => names.isEmpty
  | none :: ps, names => (List.range (names.length + 1)).any (fun n => partsMatch ps (names.drop n))
  | some p :: ps, name :: names => Piece.acceptAll p name.toList && partsMatch ps names
  | some _ :: _, [] => false

/-- Reads the files below a directory that a pattern matches, in the order of their paths. A
directory that it matches cannot be read. -/
def Store.readMatching (s : Store) (directory : Place) (pattern : String) :
    Except FileError (List (String × ByteArray)) :=
  (((([], Item.directory) :: s.below directory).filter (fun entry =>
    partsMatch (patternParts pattern) entry.1)).mapM (fun (names, item) =>
      match item with
      | .file content => .ok ("/".intercalate names, content)
      | .directory => .error .isDirectory))

end DocMerge.Files

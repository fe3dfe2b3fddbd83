import DocMerge.Text.Search

/-!
# Paths

A path is absolute or relative and has parts. Empty parts and single dots say nothing and are left
out; a double dot is a part, because what it means depends on the files.
-/

namespace DocMerge.Files

structure Path where
  absolute : Bool
  parts : List String
  deriving DecidableEq, Repr, Inhabited

namespace Path

def ofString (s : String) : Path :=
  let parts := (Text.splitAt (· == '/') s.toList).map String.ofList
  ⟨s.toList.head? == some '/', parts.filter (fun part => part != "" && part != ".")⟩

def toString (p : Path) : String :=
  if p.absolute then "/" ++ "/".intercalate p.parts
  else if p.parts.isEmpty then "."
  else "/".intercalate p.parts

def join (p q : Path) : Path := if q.absolute then q else ⟨p.absolute, p.parts ++ q.parts⟩

instance : HDiv Path String Path := ⟨fun p s => p.join (ofString s)⟩

def parent (p : Path) : Path := ⟨p.absolute, p.parts.dropLast⟩

/-- Takes the steps of a path, where a double dot goes back by one part, from the given place. -/
def walk : List String → List String → List String
  | place, [] => place
  | place, ".." :: rest => walk place.dropLast rest
  | place, part :: rest => walk (place ++ [part]) rest

def resolved (p : Path) : Path := ⟨p.absolute, walk [] p.parts⟩

def selfAndAncestors (p : Path) : List Path :=
  (List.range (p.parts.length + 1)).map (fun n => ⟨p.absolute, p.parts.take (p.parts.length - n)⟩)

end Path

/-- Paths are ordered by their parts, so that a directory comes before what it holds and `a/z`
before `a-b`. -/
def partsLE : List String → List String → Bool
  | [], _ => true
  | _ :: _, [] => false
  | a :: as, b :: bs => a < b || (a == b && partsLE as bs)

end DocMerge.Files

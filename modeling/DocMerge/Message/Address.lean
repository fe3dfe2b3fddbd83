import DocMerge.Text.Search

/-!
# Addresses

An address names a message by a path of segments. It is never empty between two dots.
-/

namespace DocMerge.Message

structure Address where
  segments : List String
  deriving DecidableEq, Repr

inductive AddressError
  /-- Names that begin with an underscore are private and never become segments. -/
  | privateName (name : String)
  | immutable
  deriving DecidableEq, Repr

def AddressError.message : AddressError → String
  | privateName name => name
  | immutable => "SemanticPointer is immutable"

namespace Address

def segmentsOf (s : String) : List String :=
  (((Text.splitAt (· == '.') s.toList).filter (!·.isEmpty))).map String.ofList

def ofStrings (texts : List String) : Address := ⟨texts.flatMap segmentsOf⟩

def toString (a : Address) : String := ".".intercalate a.segments

def display (a : Address) : String := if a.segments.isEmpty then "L" else "L." ++ a.toString

def child (a : Address) (name : String) : Address := ofStrings (a.segments ++ [name])

def dot (a : Address) (name : String) : Except AddressError Address :=
  if Text.hasStart ['_'] name.toList then .error (.privateName name) else .ok (a.child name)

def setAttribute (_ : Address) (_ : String) : Except AddressError Address := .error .immutable

end Address

end DocMerge.Message

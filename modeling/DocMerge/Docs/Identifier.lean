import DocMerge.Text.Blank
import DocMerge.Text.Search

/-!
# Identifiers in texts

The parts of DocIds that appear in cross references, texts that count as no documentation, and lists
written with commas.
-/

namespace DocMerge

/-- What stands for a text that is still to be written. -/
def placeholder : String := "To be added."

def isUndocumented (text : String) : Bool := trimmed text == "" || trimmed text == placeholder

@[simp] theorem isUndocumented_trimmed (text : String) :
    isUndocumented (trimmed text) = isUndocumented text := by
  simp [isUndocumented]

def lacksText (text : Option String) : Bool := text.all isUndocumented

/-- The identifier of a cross reference: a DocId without its kind. -/
def crossReference (docId : String) : String :=
  match docId.toList with
  | _ :: ':' :: c :: rest => String.ofList (c :: rest)
  | _ => docId

/-- Everything before the last of the marks, or the whole text. -/
def beforeLast (mark : Char) (cs : List Char) : List Char :=
  match cs.reverse.dropWhile (· != mark) with
  | [] => cs
  | _ :: before => before.reverse

def interfaceOf (memberId : String) : String :=
  String.ofList (beforeLast '.' ((crossReference memberId).toList.takeWhile (· != '(')))

/-- The trimmed items of a list written with commas; empty ones are left out. -/
def commaList (text : String) : List String :=
  (((Text.splitAt (· == ',') text.toList).map Text.trim).filter (!·.isEmpty)).map String.ofList

end DocMerge

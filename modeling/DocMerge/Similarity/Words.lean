import DocMerge.Text.Blank
import DocMerge.Text.LowerCase
import DocMerge.Text.Search
import DocMerge.Text.Word

/-!
# The words of an exception text

Two texts are compared by their words: in lower case, without markup and punctuation, separated by
single spaces.
-/

namespace DocMerge.Similarity

open Text (dropStart? replaceAll)

def tag : Text.Pattern (List Char) := fun _ cs => do
  let inner ← dropStart? ['<'] cs
  let rest ← dropStart? ['>'] (inner.dropWhile (· != '>'))
  if inner.head? = some '>' then none else some ([' '], rest)

def isPunctuation (c : Char) : Bool := !Text.isWord c && !Text.isBlank c

def words (cs : List Char) : List Char :=
  Text.collapse ((replaceAll tag (Text.lowerCase cs)).map
    (fun c => if isPunctuation c then ' ' else c))

end DocMerge.Similarity

namespace DocMerge

def comparedWords (text : String) : String := String.ofList (Similarity.words text.toList)

theorem toList_comparedWords (text : String) :
    (comparedWords text).toList = Similarity.words text.toList :=
  String.toList_ofList

end DocMerge

import DocMerge.Similarity.Matching
import DocMerge.Similarity.Words

/-!
# The similarity of two exception texts
-/

namespace DocMerge

def similarity (a b : String) : Score :=
  Similarity.percent (comparedWords a).toList (comparedWords b).toList

end DocMerge

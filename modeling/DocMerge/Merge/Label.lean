import DocMerge.Docs.Entry

/-!
# Labels of changes

A report names each text that a merge has written, and each source text that found no place.
-/

namespace DocMerge.Merge

inductive Label
  | scalar (field : ScalarField)
  | named (field : NamedField) (name : String)
  | exception (cref : String)
  deriving DecidableEq, Repr

def Label.text : Label → String
  | scalar field => field.toField.name
  | named field name => field.toField.name ++ " '" ++ name ++ "'"
  | exception cref => "exception " ++ cref

end DocMerge.Merge

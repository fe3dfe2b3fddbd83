/-!
# Limits

Data and directories stand inside each other as deep as the stack of the program allows. How deep
that is depends on where the program runs, and for each kind of data on how it is read.
-/

namespace DocMerge

structure Limits where
  /-- Lists and tables in a project file. -/
  settings : Nat := 970
  /-- Lists and tables in a message catalog. -/
  catalogs : Nat := 970
  /-- Directories below one that is searched for catalogs. -/
  directories : Nat := 970
  /-- What a message shows of the parts of a value. -/
  shown : Nat := 970
  deriving DecidableEq, Repr

end DocMerge

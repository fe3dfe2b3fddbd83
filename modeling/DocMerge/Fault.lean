/-!
# Faults

Why a run stops before its end. What was done before stays done.
-/

namespace DocMerge

inductive Fault
  /-- A documentation text names a code block that it does not have. -/
  | missingCodeBlock
  /-- A text to be written holds a character that XML does not allow. -/
  | forbiddenCharacter
  deriving DecidableEq, Repr

def Fault.name : Fault → String
  | missingCodeBlock => "IndexError"
  | forbiddenCharacter => "ValueError"

end DocMerge

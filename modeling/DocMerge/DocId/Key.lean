/-!
# Canonical keys

Two corpora spell the identifier of one API in different ways; its key is the same. An identifier
that is not well formed has a key too, one that agrees with nothing, so it is never matched.
-/

namespace DocMerge.DocId

inductive Key
  | canonical (text : String)
  | malformed (text : String)
  deriving DecidableEq, Repr

namespace Key

def text : Key → String
  | canonical text | malformed text => text

def isValid : Key → Bool
  | canonical _ => true
  | malformed _ => false

/-- Keys agree when both are canonical and have the same text. A malformed key does not agree even
with itself. -/
def agrees : Key → Key → Bool
  | canonical a, canonical b => a == b
  | _, _ => false

def render : Key → String
  | canonical text => text
  | malformed text => "<invalid: " ++ text ++ ">"

theorem agrees_iff {a b : Key} : a.agrees b ↔ a.isValid ∧ a = b := by
  cases a <;> cases b <;> simp [agrees, isValid]

theorem agrees_self (key : Key) : key.agrees key = key.isValid := by
  cases key <;> simp [agrees, isValid]

theorem agrees_comm (a b : Key) : a.agrees b = b.agrees a := by
  rw [Bool.eq_iff_iff, agrees_iff, agrees_iff]
  exact ⟨fun ⟨h, e⟩ => ⟨e ▸ h, e.symm⟩, fun ⟨h, e⟩ => ⟨e ▸ h, e.symm⟩⟩

end Key

end DocMerge.DocId

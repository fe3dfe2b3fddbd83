/-!
# Symbols

What a text from a file may be made of: characters, and halves of surrogate pairs that an escape has
written without the other half. Such a half is no character and cannot be encoded.
-/

namespace DocMerge.Text

inductive Symbol
  | char (c : Char)
  /-- The half with a number, counted from the first. -/
  | surrogate (n : Fin 0x800)
  deriving DecidableEq, Repr

instance : Coe Char Symbol := ⟨.char⟩

namespace Symbol

def firstSurrogate : Nat := 0xD800

def ofCode (n : Nat) : Symbol :=
  if h : firstSurrogate ≤ n ∧ n - firstSurrogate < 0x800 then .surrogate ⟨n - firstSurrogate, h.2⟩
  else .char (Char.ofNat n)

def code : Symbol → Nat
  | char c => c.toNat
  | surrogate n => firstSurrogate + n

def char? : Symbol → Option Char
  | char c => some c
  | surrogate _ => none

def isChar (s : Symbol) : Bool := s.char?.isSome

end Symbol

def symbols (s : String) : List Symbol := s.toList.map .char

end DocMerge.Text

/-!
# Blank characters

Which characters separate words, and the operations that depend on nothing else: trimming,
joining the lines of a block, and telling a text without any visible character.
-/

namespace DocMerge.Text

/-- The white space of Unicode, the four information separators included. Zero-width characters
such as `U+200B` and the byte order mark are not blank. -/
def isBlank (c : Char) : Bool :=
  let n := c.toNat
  (9 ≤ n && n ≤ 13) || (28 ≤ n && n ≤ 32) || n == 0x85 || n == 0xA0 || n == 0x1680 ||
    (0x2000 ≤ n && n ≤ 0x200A) || n == 0x2028 || n == 0x2029 || n == 0x202F || n == 0x205F ||
    n == 0x3000

def trimStart (cs : List Char) : List Char := cs.dropWhile isBlank

/-- Drops blanks at the end: those after which nothing else follows. -/
def trimEnd : List Char → List Char
  | [] => []
  | c :: rest =>
    match trimEnd rest with
    | [] => if isBlank c then [] else [c]
    | kept => c :: kept

def trim (cs : List Char) : List Char := trimEnd (trimStart cs)

theorem trimStart_cons (c : Char) (cs : List Char) :
    trimStart (c :: cs) = if isBlank c then trimStart cs else c :: cs := by
  cases h : isBlank c <;> simp [trimStart, h]

theorem trimEnd_cons_of_not_blank (h : isBlank c = false) :
    trimEnd (c :: cs) = c :: trimEnd cs := by
  rw [trimEnd]
  cases trimEnd cs <;> simp [h]

theorem trimEnd_trimEnd (cs : List Char) : trimEnd (trimEnd cs) = trimEnd cs := by
  induction cs with
  | nil => rfl
  | cons c rest ih =>
    rw [trimEnd]
    cases hrest : trimEnd rest with
    | nil =>
      cases hc : isBlank c
      · simp [trimEnd, hc]
      · simp [trimEnd]
    | cons d kept =>
      rw [hrest] at ih
      rw [trimEnd, ih]

theorem trim_trim (cs : List Char) : trim (trim cs) = trim cs := by
  induction cs with
  | nil => rfl
  | cons c rest ih =>
    cases hc : isBlank c with
    | true =>
      have hskip : trim (c :: rest) = trim rest := by simp [trim, trimStart_cons, hc]
      rw [hskip, ih]
    | false =>
      have hkeep : trim (c :: rest) = c :: trimEnd rest := by
        simp [trim, trimStart_cons, hc, trimEnd_cons_of_not_blank hc]
      rw [hkeep]
      simp [trim, trimStart_cons, hc, trimEnd_cons_of_not_blank hc, trimEnd_trimEnd]

def squeeze : List Char → List Char
  | [] => []
  | c :: rest =>
    if isBlank c then
      match rest with
      | [] => [' ']
      | d :: _ => if isBlank d then squeeze rest else ' ' :: squeeze rest
    else c :: squeeze rest

def collapse (cs : List Char) : List Char := trim (squeeze cs)

def withoutBlanks (cs : List Char) : List Char := cs.filter (fun c => !isBlank c)

def allBlank (cs : List Char) : Bool := cs.all isBlank

end DocMerge.Text

namespace DocMerge

def trimmed (s : String) : String := String.ofList (Text.trim s.toList)

def collapsed (s : String) : String := String.ofList (Text.collapse s.toList)

@[simp] theorem trimmed_trimmed (s : String) : trimmed (trimmed s) = trimmed s := by
  simp [trimmed, Text.trim_trim]

end DocMerge

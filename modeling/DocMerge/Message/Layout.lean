import DocMerge.Text.Symbol
import DocMerge.Text.Word

/-!
# Layout of arguments

Behind a colon, a field of a template says how its argument is laid out: the fill character and the
alignment, the sign, the least width, separators between groups of digits, the precision and the
presentation. A text knows width, alignment and precision only; a count knows all of it.

A field may ask for more characters than there is memory for. Nothing is laid out then.
-/

namespace DocMerge.Message

open Text (Symbol)

inductive TemplateError
  /-- The template or one of its layouts is malformed, or does not suit the argument. -/
  | malformed
  /-- An argument has no attribute of the given name. -/
  | noAttribute
  /-- An argument has no parts, none of the given kind, or cannot be laid out. -/
  | notIndexed
  /-- A number stands for no symbol. -/
  | outOfRange
  /-- There is no memory for as many characters as a field asks for. -/
  | tooWide
  deriving DecidableEq, Repr

def TemplateError.name : TemplateError → String
  | malformed => "ValueError"
  | noAttribute => "AttributeError"
  | notIndexed => "TypeError"
  | outOfRange => "OverflowError"
  | tooWide => "MemoryError"

structure Layout where
  fill : Option Symbol := none
  align : Option Char := none
  sign : Option Char := none
  noNegativeZero : Bool := false
  alternate : Bool := false
  /-- A zero before the width. -/
  zeroPadded : Bool := false
  width : Nat := 0
  group : Option Char := none
  precision : Option Nat := none
  presentation : Option Symbol := none
  deriving Repr

namespace Layout

def isAlign (c : Char) : Bool := c == '<' || c == '>' || c == '=' || c == '^'

def alignOf? (s : Symbol) : Option Char := s.char?.filter isAlign

def readAlign (l : Layout) : List Symbol → Layout × List Symbol
  | s :: a :: rest =>
    match alignOf? a, alignOf? s with
    | some align, _ => ({ l with fill := some s, align := some align }, rest)
    | none, some align => ({ l with align := some align }, a :: rest)
    | none, none => (l, s :: a :: rest)
  | [s] =>
    match alignOf? s with
    | some align => ({ l with align := some align }, [])
    | none => (l, [s])
  | [] => (l, [])

def readSign (l : Layout) : List Symbol → Layout × List Symbol
  | .char c :: rest =>
    if c == ' ' || c == '+' || c == '-' then ({ l with sign := some c }, rest) else (l, c :: rest)
  | cs => (l, cs)

def readMark (mark : Char) (note : Layout → Layout) (l : Layout) :
    List Symbol → Layout × List Symbol
  | s :: rest => if s = mark then (note l, rest) else (l, s :: rest)
  | [] => (l, [])

def readZero (l : Layout) (cs : List Symbol) : Layout × List Symbol :=
  if l.fill.isSome then (l, cs) else readMark '0' (fun l => { l with zeroPadded := true }) l cs

def isDigit (s : Symbol) : Bool := s.char?.any Text.isDigit

def decimal (digits : List Symbol) : Nat := Text.decimal (digits.filterMap Symbol.char?)

def tooLong (digits : List Symbol) : Bool := 9223372036854775807 < decimal digits

def readWidth (l : Layout) (cs : List Symbol) : Except TemplateError (Layout × List Symbol) :=
  let digits := cs.takeWhile isDigit
  if tooLong digits then .error .malformed
  else .ok ({ l with width := decimal digits }, cs.dropWhile isDigit)

def readGroup (l : Layout) : List Symbol → Except TemplateError (Layout × List Symbol)
  | .char ',' :: .char '_' :: _ | .char '_' :: .char ',' :: _ => .error .malformed
  | .char ',' :: rest => .ok ({ l with group := some ',' }, rest)
  | .char '_' :: rest => .ok ({ l with group := some '_' }, rest)
  | cs => .ok (l, cs)

def readPrecision (l : Layout) : List Symbol → Except TemplateError (Layout × List Symbol)
  | .char '.' :: rest =>
    let digits := rest.takeWhile isDigit
    if digits.isEmpty || tooLong digits then .error .malformed
    else .ok ({ l with precision := some (decimal digits) }, rest.dropWhile isDigit)
  | cs => .ok (l, cs)

def readPresentation (l : Layout) : List Symbol → Except TemplateError Layout
  | [] => .ok l
  | [s] => .ok { l with presentation := some s }
  | _ => .error .malformed

def ofSymbols (cs : List Symbol) : Except TemplateError Layout := do
  let (l, cs) := readAlign {} cs
  let (l, cs) := readSign l cs
  let (l, cs) := readMark 'z' (fun l => { l with noNegativeZero := true }) l cs
  let (l, cs) := readMark '#' (fun l => { l with alternate := true }) l cs
  let (l, cs) := readZero l cs
  let (l, cs) ← readWidth l cs
  let (l, cs) ← readGroup l cs
  let (l, cs) ← readPrecision l cs
  readPresentation l cs

def fillSymbol (l : Layout) : Symbol := l.fill.getD (if l.zeroPadded then '0' else ' ')

/-- Pads a text to the width. The middle of an odd gap is to the left. -/
def pad (l : Layout) (align : Char) (cs : List Symbol) : List Symbol :=
  let gap := l.width - cs.length
  let left := if align == '>' then gap else if align == '^' then gap / 2 else 0
  List.replicate left l.fillSymbol ++ cs ++ List.replicate (gap - left) l.fillSymbol

/-- Lays out a text where there is memory for some symbols. -/
def text (l : Layout) (memory : Nat) (cs : List Symbol) : Except TemplateError (List Symbol) :=
  let unsuited := l.presentation.any (fun (s : Symbol) => s ≠ 's') || l.sign.isSome ||
    l.noNegativeZero || l.alternate ||
    l.group.isSome || l.align == some '='
  if unsuited then .error .malformed
  else if memory < l.width then .error .tooWide
  else .ok (l.pad (l.align.getD '<') (cs.take (l.precision.getD cs.length)))

def grouped (size : Nat) (separator : Char) (digits : List Char) : List Char :=
  (digits.reverse.zipIdx.flatMap (fun (c, i) =>
    if i ≠ 0 && i % size = 0 then [separator, c] else [c])).reverse

def groupDigits (l : Layout) (size : Nat) (digits : List Char) : List Char :=
  match l.group with
  | some separator => grouped size separator digits
  | none => digits

/-- The least number of digits that fill a width together with their separators. -/
def digitsToFill (size width : Nat) :
    Nat := width - width / (size + 1) + (if width % (size + 1) = 0 then 1 else 0)

def signOf (l : Layout) (negative : Bool) : List Char :=
  if negative then ['-']
  else match l.sign with
    | some '+' => ['+']
    | some ' ' => [' ']
    | _ => []

/-- Puts sign, mark of the base, digits and what follows them together. Zeros that fill the width
stand behind the sign, in groups like the digits. -/
def number (l : Layout) (negative : Bool) (base : List Char) (size : Nat)
    (digits behind : List Char) :
    List Symbol :=
  let start := l.signOf negative ++ base
  let align := l.align.getD (if l.zeroPadded then '=' else '>')
  if align == '=' then
    let room := l.width - start.length - behind.length
    let digits :=
      if l.fillSymbol = '0' && l.group.isSome then
        List.replicate (digitsToFill size room - digits.length) '0' ++ digits
      else digits
    let shown := l.groupDigits size digits
    start.map .char ++ List.replicate (room - shown.length) l.fillSymbol ++
    (shown ++ behind).map .char
  else l.pad align ((start ++ l.groupDigits size digits ++ behind).map .char)

/-- The digits of a number that is rounded to a count of them, and the power of ten of the first. A
half goes to the even neighbour. -/
def significant (n count : Nat) : List Char × Nat :=
  let length := (Nat.toDigits 10 n).length
  if length ≤ count then (Nat.toDigits 10 n ++ List.replicate (count - length) '0', length - 1)
  else
    let unit := Nat.pow 10 (length - count)
    let up := unit < 2 * (n % unit) || (2 * (n % unit) = unit && n / unit % 2 = 1)
    let digits := Nat.toDigits 10 (n / unit + (if up then 1 else 0))
    (digits.take count, length - 1 + (digits.length - count))

/-- A point and what stands behind it; the point alone is shown on request only. -/
def fraction (l : Layout) (digits : List Char) : List Char :=
  if digits.isEmpty && !l.alternate then [] else '.' :: digits

def exponentMark (upper : Bool) (power : Nat) : List Char :=
  (if upper then 'E' else 'e') :: '+' :: (if power < 10 then ['0'] else []) ++ Nat.toDigits 10 power

def withoutEndZeros (cs : List Char) : List Char := (cs.reverse.dropWhile (· == '0')).reverse

def scientific (l : Layout) (negative upper : Bool) (n precision : Nat) : List Symbol :=
  let (digits, power) := significant n (precision + 1)
  l.number negative [] 3 (digits.take 1) (l.fraction (digits.drop 1) ++ exponentMark upper power)

/-- The number with a count of significant digits, positional unless it has more digits. -/
def general (l : Layout) (negative upper : Bool) (n : Nat) : List Symbol :=
  let count := max 1 (l.precision.getD 6)
  let (digits, power) := significant n count
  let shown (cs : List Char) := if l.alternate then cs else withoutEndZeros cs
  if power < count then
    l.number negative [] 3 (digits.take (power + 1)) (l.fraction (shown (digits.drop (power + 1))))
  else
    l.number negative [] 3 (digits.take 1)
      (l.fraction (shown (digits.drop 1)) ++ exponentMark upper power)

def based (l : Layout) (negative : Bool) (mark : Char) (base n : Nat) (upper : Bool) :
    List Symbol :=
  let digits := Nat.toDigits base n
  l.number negative (if l.alternate && base ≠ 10 then ['0', mark] else [])
    (if base = 10 then 3 else 4)
    (if upper then digits.map Char.toUpper else digits) []

/-- Whether a count is presented with a decimal point, where the precision has a bound of its
own. -/
def isDecimal (presentation : Char) : Bool :=
  ['f', 'F', '%', 'e', 'E', 'g', 'G'].contains presentation

/-- How many symbols a layout asks for, besides those of the digits of a count. -/
def demand (l : Layout) (presentation : Char) : Nat :=
  if isDecimal presentation then max l.width (l.precision.getD 0) else l.width

def suitsCount (l : Layout) (presentation : Char) : Bool :=
  let whole := l.precision.isNone && !l.noNegativeZero
  match presentation with
  | 'd' => whole
  | 'n' => l.group.isNone && whole
  | 'b' | 'o' | 'x' | 'X' => l.group != some ',' && whole
  | 'c' => whole && l.sign.isNone && !l.alternate && l.group.isNone
  | c => isDecimal c && !l.precision.any (2147483647 < ·)

def isCode (value : Int) : Bool := 0 ≤ value && value < 0x110000

def present (l : Layout) (negative : Bool) (n : Nat) : Char → List Symbol
  | 'b' => l.based negative 'b' 2 n false
  | 'o' => l.based negative 'o' 8 n false
  | 'x' => l.based negative 'x' 16 n false
  | 'X' => l.based negative 'X' 16 n true
  | 'c' => l.pad ((l.align.filter (· != '=')).getD '>') [.ofCode n]
  | 'f' | 'F' =>
    l.number negative [] 3 (Nat.toDigits 10 n)
      (l.fraction (List.replicate (l.precision.getD 6) '0'))
  | '%' =>
    l.number negative [] 3 (Nat.toDigits 10 (100 * n))
      (l.fraction (List.replicate (l.precision.getD 6) '0') ++ ['%'])
  | 'e' => l.scientific negative false n (l.precision.getD 6)
  | 'E' => l.scientific negative true n (l.precision.getD 6)
  | 'g' => l.general negative false n
  | 'G' => l.general negative true n
  | _ => l.based negative 'd' 10 n false

def count (l : Layout) (memory : Nat) (value : Int) : Except TemplateError (List Symbol) :=
  match l.presentation.getD 'd' with
  | .surrogate _ => .error .malformed
  | .char presentation =>
    if !l.suitsCount presentation then .error .malformed
    else if presentation = 'c' && !isCode value then .error .outOfRange
    else if memory < l.demand presentation then .error .tooWide
    else .ok (l.present (value < 0) value.natAbs presentation)

end Layout

end DocMerge.Message

import DocMerge.Data.Value
import DocMerge.Text.Digits
import DocMerge.Text.Integer
import DocMerge.Text.Search

/-!
# Reading JSON

The grammar of JSON, with `NaN` and the infinities as further numbers. A number without fraction and
exponent is an integer, which must not be too long; any other is a float. Of two fields with one key
the later value counts.

There is room for so many lists and tables inside each other. Whoever reads goes from the start of
the text to its end, so that one too many is found even where what follows it is malformed.
-/

namespace DocMerge.Data.Json

open Text (Symbol dropStart? hexNumber?)

inductive ReadError
  | malformed
  /-- There is no room for another list or table. -/
  | tooDeep
  deriving DecidableEq, Repr

abbrev Read := Except ReadError

def need : Option α → Read α
  | some a => .ok a
  | none => .error .malformed

abbrev Value := Datum (List Symbol)

abbrev Table := Fields (List Symbol)

def skipBlanks (cs : List Char) : List Char :=
  cs.dropWhile (fun c => c == ' ' || c == '\t' || c == '\n' || c == '\r')

def readUnit? (cs : List Char) : Option (Nat × List Char) :=
  if cs.length < 4 then none else (hexNumber? (cs.take 4)).map (·, cs.drop 4)

/-- The symbol of a `\u` escape whose marker has been read. The halves of a surrogate pair make a
character if they follow each other. -/
def readEscaped? (cs : List Char) : Option (Symbol × List Char) := do
  let (unit, rest) ← readUnit? cs
  let low := (dropStart? ['\\', 'u'] rest).bind readUnit?
  match low with
  | some (low, rest') =>
    if 0xD800 ≤ unit && unit < 0xDC00 && 0xDC00 ≤ low && low < 0xE000 then
      some (.ofCode (0x10000 + (unit - 0xD800) * 0x400 + (low - 0xDC00)), rest')
    else some (.ofCode unit, rest)
  | none => some (.ofCode unit, rest)

def simpleEscape? : Char → Option Char
  | '"' => some '"'
  | '\\' => some '\\'
  | '/' => some '/'
  | 'b' => some '\x08'
  | 'f' => some '\x0c'
  | 'n' => some '\n'
  | 'r' => some '\r'
  | 't' => some '\t'
  | _ => none

def readString? : Nat → List Char → Option (List Symbol × List Char)
  | 0, _ => none
  | fuel + 1, cs =>
    match cs with
    | [] => none
    | '"' :: rest => some ([], rest)
    | '\\' :: 'u' :: rest => do
      let (s, rest) ← readEscaped? rest
      let (more, rest) ← readString? fuel rest
      some (s :: more, rest)
    | '\\' :: e :: rest => do
      let c ← simpleEscape? e
      let (more, rest) ← readString? fuel rest
      some (.char c :: more, rest)
    | c :: rest =>
      if c.toNat < 32 then none
      else do
        let (more, rest) ← readString? fuel rest
        some (.char c :: more, rest)

def naturalOf (digits : List Char) : Nat := digits.foldl (fun n c => 10 * n + (c.toNat - 48)) 0

def readFraction (cs : List Char) : List Char × List Char :=
  match cs with
  | '.' :: rest =>
    let digits := rest.takeWhile Char.isDigit
    if digits.isEmpty then ([], cs) else (digits, rest.dropWhile Char.isDigit)
  | _ => ([], cs)

def readSigned? (cs : List Char) : Option (Int × List Char) :=
  let (negative, rest) :=
    match cs with
    | '+' :: rest => (false, rest)
    | '-' :: rest => (true, rest)
    | _ => (false, cs)
  let digits := rest.takeWhile Char.isDigit
  if digits.isEmpty then none
  else
    let n := naturalOf digits
    some (if negative then -(n : Int) else n, rest.dropWhile Char.isDigit)

def readExponent? : List Char → Option (Int × List Char)
  | 'e' :: rest | 'E' :: rest => readSigned? rest
  | _ => none

def readMagnitude? (negative : Bool) (cs : List Char) : Option (Value × List Char) :=
  let digits :=
    match cs with
    | '0' :: _ => ['0']
    | _ => cs.takeWhile Char.isDigit
  if digits.isEmpty then none
  else
    let (fraction, rest) := readFraction (cs.drop digits.length)
    let power := readExponent? rest
    if fraction.isEmpty && power.isNone then
      if Text.longestInteger < digits.length then none
      else some (.int (if negative then -(naturalOf digits : Int) else naturalOf digits), rest)
    else
      let exponent := (power.map (·.1)).getD 0 - fraction.length
      some (.float (Decimal.toFloat negative (naturalOf (digits ++ fraction)) exponent),
        (power.map (·.2)).getD rest)

def words : List (List Char × Value) :=
  [("null".toList, .null), ("true".toList, .bool true), ("false".toList, .bool false),
    ("NaN".toList, .float (0.0 / 0.0)), ("Infinity".toList, .float (1.0 / 0.0)),
    ("-Infinity".toList, .float (-1.0 / 0.0))]

def readScalar? (cs : List Char) : Option (Value × List Char) :=
  match words.findSome? (fun (word, value) => (dropStart? word cs).map (value, ·)) with
  | some found => some found
  | none =>
    match cs with
    | '-' :: rest => readMagnitude? true rest
    | _ => readMagnitude? false cs

mutual
def readValue : Nat → Nat → List Char → Read (Value × List Char)
  | 0, _, _ => .error .malformed
  | fuel + 1, room, cs =>
    match cs with
    | '"' :: rest =>
      need ((readString? (rest.length + 1) rest).map (fun (s, rest) => (.text s, rest)))
    | '[' :: rest =>
      match room with
      | 0 => .error .tooDeep
      | room + 1 =>
        match skipBlanks rest with
        | ']' :: rest => .ok (.list [], rest)
        | rest => (readItems fuel room rest).map (fun (items, rest) => (.list items, rest))
    | '\x7b' :: rest =>
      match room with
      | 0 => .error .tooDeep
      | room + 1 =>
        match skipBlanks rest with
        | '\x7d' :: rest => .ok (.table [], rest)
        | rest => (readFields fuel room [] rest).map (fun (fields, rest) => (.table fields, rest))
    | _ => need (readScalar? cs)

def readItems : Nat → Nat → List Char → Read (List Value × List Char)
  | 0, _, _ => .error .malformed
  | fuel + 1, room, cs => do
    let (item, rest) ← readValue fuel room cs
    match skipBlanks rest with
    | ']' :: rest => .ok ([item], rest)
    | ',' :: rest =>
      let (items, rest) ← readItems fuel room (skipBlanks rest)
      .ok (item :: items, rest)
    | _ => .error .malformed

def readFields : Nat → Nat → Table → List Char → Read (Table × List Char)
  | 0, _, _, _ => .error .malformed
  | fuel + 1, room, before, cs => do
    let opened ← need (dropStart? ['"'] cs)
    let (key, rest) ← need (readString? (opened.length + 1) opened)
    let rest ← need (dropStart? [':'] (skipBlanks rest))
    let (value, rest) ← readValue fuel room (skipBlanks rest)
    let fields := before.insert key value
    match skipBlanks rest with
    | '\x7d' :: rest => .ok (fields, rest)
    | ',' :: rest => readFields fuel room fields (skipBlanks rest)
    | _ => .error .malformed
end

/-- The value that a whole text writes. -/
def parse (room : Nat) (s : String) : Read Value := do
  let cs := skipBlanks s.toList
  let (value, rest) ← readValue (2 * cs.length + 2) room cs
  if (skipBlanks rest).isEmpty then .ok value else .error .malformed

end DocMerge.Data.Json

import DocMerge.Data.Value
import DocMerge.Text.Digits
import DocMerge.Text.Integer

/-!
# Reading TOML

A document is a row of statements. A header opens a table, which the pairs behind it fill, or the
next table of a list. A table is opened by one header only, and what a value writes out is complete:
nothing can be added to it.

There is room for so many lists and tables inside each other as values.
-/

namespace DocMerge.Data.Toml

open Text (cutAt? dropStart? hexNumber?)

inductive ReadError
  | malformed
  /-- An integer has more digits than are read. -/
  | longInteger
  /-- There is no room for another list or table. -/
  | tooDeep
  deriving DecidableEq, Repr

abbrev Read := Except ReadError

def malformed : Read α := .error .malformed

def need : Option α → Read α
  | some a => .ok a
  | none => malformed

/-! ## Blanks and comments -/

def isBlank (c : Char) : Bool := c == ' ' || c == '\t'

def skipBlanks (cs : List Char) : List Char := cs.dropWhile isBlank

def isControl (c : Char) : Bool := (c.toNat < 32 && c != '\t') || c.toNat == 127

def isLineControl (c : Char) : Bool := isControl c && c != '\n'

def skipComment : List Char → Read (List Char)
  | '#' :: rest =>
    if (rest.takeWhile (· != '\n')).any isControl then malformed
      else .ok (rest.dropWhile (· != '\n'))
  | cs => .ok cs

def skipLines : Nat → List Char → Read (List Char)
  | 0, cs => .ok cs
  | fuel + 1, cs => do
    let rest ← skipComment (cs.dropWhile (fun c => isBlank c || c == '\n'))
    if rest.length < cs.length then skipLines fuel rest else .ok rest

def skipAllLines (cs : List Char) : Read (List Char) := skipLines cs.length cs

/-! ## Strings -/

def simpleEscape? : Char → Option Char
  | 'b' => some '\x08'
  | 't' => some '\t'
  | 'n' => some '\n'
  | 'f' => some '\x0c'
  | 'r' => some '\r'
  | '"' => some '"'
  | '\\' => some '\\'
  | _ => none

def readCode (count : Nat) (cs : List Char) : Read (List Char × List Char) := do
  let n ← need (if cs.length < count then none else hexNumber? (cs.take count))
  if n.isValidChar then .ok ([Char.ofNat n], cs.drop count) else malformed

/-- A line that goes on in the next one, behind the blanks with which that begins. -/
def continueLine (cs : List Char) : Read (List Char × List Char) :=
  match skipBlanks cs with
  | '\n' :: rest => .ok ([], rest.dropWhile (fun c => isBlank c || c == '\n'))
  | _ => malformed

def readEscape (isLong : Bool) : List Char → Read (List Char × List Char)
  | 'u' :: rest => readCode 4 rest
  | 'U' :: rest => readCode 8 rest
  | c :: rest =>
    if isLong && (isBlank c || c == '\n') then continueLine (c :: rest)
    else (need (simpleEscape? c)).map (fun c => ([c], rest))
  | [] => malformed

def readBasic (isLong : Bool) : Nat → List Char → Read (List Char × List Char)
  | 0, _ => malformed
  | fuel + 1, cs =>
    match cs with
    | [] => malformed
    | '\\' :: rest => do
      let (found, rest) ← readEscape isLong rest
      let (more, rest) ← readBasic isLong fuel rest
      .ok (found ++ more, rest)
    | c :: rest =>
      let closed := if isLong then dropStart? ['"', '"', '"'] cs else dropStart? ['"'] cs
      match closed with
      | some rest => .ok ([], rest)
      | none =>
        if (if isLong then isLineControl c else isControl c) then malformed
        else (readBasic isLong fuel rest).map (fun (more, rest) => (c :: more, rest))

def readLiteral (isLong : Bool) (cs : List Char) : Read (List Char × List Char) := do
  let (text, rest) ← need (cutAt? (if isLong then ['\'', '\'', '\''] else ['\'']) cs)
  if text.any (if isLong then isLineControl else isControl) then malformed else .ok (text, rest)

/-- Up to two quotes in front of the closing ones belong to a string of several lines. -/
def withQuotes (quote : Char) : List Char × List Char → List Char × List Char
  | (text, a :: b :: rest) =>
    if a == quote then if b == quote then (text ++ [a, b], rest) else (text ++ [a], b :: rest)
    else (text, a :: b :: rest)
  | (text, [a]) => if a == quote then (text ++ [a], []) else (text, [a])
  | (text, []) => (text, [])

def withoutLineEnd : List Char → List Char
  | '\n' :: rest => rest
  | cs => cs

def readString (cs : List Char) : Read (List Char × List Char) :=
  match cs with
  | '"' :: '"' :: '"' :: rest =>
    let rest := withoutLineEnd rest
    (readBasic true (rest.length + 1) rest).map (withQuotes '"')
  | '\'' :: '\'' :: '\'' :: rest => (readLiteral true (withoutLineEnd rest)).map (withQuotes '\'')
  | '"' :: rest => readBasic false (rest.length + 1) rest
  | '\'' :: rest => readLiteral false rest
  | _ => malformed

/-! ## Keys -/

abbrev Key := List String

def isBare (c : Char) : Bool := c.isAlphanum || c == '-' || c == '_'

def readKeyPart (cs : List Char) : Read (String × List Char) :=
  match cs with
  | '"' :: rest =>
    (readBasic false (rest.length + 1) rest).map (fun (s, rest) => (String.ofList s, rest))
  | '\'' :: rest => (readLiteral false rest).map (fun (s, rest) => (String.ofList s, rest))
  | _ =>
    if (cs.takeWhile isBare).isEmpty then malformed
    else .ok (String.ofList (cs.takeWhile isBare), cs.dropWhile isBare)

def readKeyParts : Nat → List Char → Read (Key × List Char)
  | 0, _ => malformed
  | fuel + 1, cs => do
    let (part, rest) ← readKeyPart cs
    match skipBlanks rest with
    | '.' :: rest =>
      let (key, rest) ← readKeyParts fuel (skipBlanks rest)
      .ok (part :: key, rest)
    | rest => .ok ([part], rest)

def readKey (cs : List Char) : Read (Key × List Char) := readKeyParts (cs.length + 1) cs

/-! ## Numbers -/

def readDigits (isDigit : Char → Bool) : List Char → List Char × List Char
  | '_' :: d :: rest =>
    if isDigit d then
      let (digits, rest) := readDigits isDigit rest
      (d :: digits, rest)
    else ([], '_' :: d :: rest)
  | c :: rest =>
    if isDigit c then
      let (digits, rest) := readDigits isDigit rest
      (c :: digits, rest)
    else ([], c :: rest)
  | [] => ([], [])

def readDigits? (isDigit : Char → Bool) (cs : List Char) : Option (List Char × List Char) :=
  if cs.head?.any isDigit then some (readDigits isDigit cs) else none

def baseOf? : Char → Option Nat
  | 'x' => some 16
  | 'o' => some 8
  | 'b' => some 2
  | _ => none

def isDigitIn (base : Nat) (c : Char) : Bool := (Text.hexValue? c).any (· < base)

def numberIn (base : Nat) (digits : List Char) : Nat :=
  digits.foldl (fun n c => base * n + (Text.hexValue? c).getD 0) 0

def readBased? : List Char → Option (Value × List Char)
  | '0' :: mark :: rest => do
    let base ← baseOf? mark
    let (digits, rest) ← readDigits? (isDigitIn base) rest
    some (.int (numberIn base digits), rest)
  | _ => none

def readSign (cs : List Char) : Bool × List Char :=
  match cs with
  | '-' :: rest => (true, rest)
  | '+' :: rest => (false, rest)
  | _ => (false, cs)

def readWhole? (cs : List Char) : Option (List Char × List Char) :=
  match cs with
  | '0' :: rest => some (['0'], rest)
  | _ => readDigits? Char.isDigit cs

def readFraction (cs : List Char) : List Char × List Char :=
  match cs with
  | '.' :: rest => (readDigits? Char.isDigit rest).getD ([], cs)
  | _ => ([], cs)

def readExponent? : List Char → Option (Int × List Char)
  | c :: rest => do
    if c == 'e' || c == 'E' then
      let (negative, rest) := readSign rest
      let (digits, rest) ← readDigits? Char.isDigit rest
      let n := numberIn 10 digits
      some (if negative then -(n : Int) else n, rest)
    else none
  | [] => none

def readDecimal? (cs : List Char) : Option (Read Value × List Char) := do
  let (negative, rest) := readSign cs
  let (whole, rest) ← readWhole? rest
  let (fraction, rest) := readFraction rest
  let exponent := readExponent? rest
  if fraction.isEmpty && exponent.isNone then
    if whole.length ≤ Text.longestInteger then
      let n := numberIn 10 whole
      some (.ok (.int (if negative then -(n : Int) else n)), rest)
    else some (.error .longInteger, rest)
  else
    let power := (exponent.map (·.1)).getD 0 - fraction.length
    some (.ok (.float (Decimal.toFloat negative (numberIn 10 (whole ++ fraction)) power)),
      (exponent.map (·.2)).getD rest)

def words : List (List Char × Value) :=
  [("true".toList, .bool true), ("false".toList, .bool false),
    ("inf".toList, .float (1.0 / 0.0)), ("+inf".toList, .float (1.0 / 0.0)),
    ("-inf".toList, .float (-1.0 / 0.0)), ("nan".toList, .float (0.0 / 0.0)),
    ("+nan".toList, .float (0.0 / 0.0)), ("-nan".toList, .float (0.0 / 0.0))]

/-! ## Dates and times -/

def readFixed? (count least most : Nat) (cs : List Char) : Option (Nat × List Char) :=
  let digits := cs.take count
  let n := numberIn 10 digits
  if digits.length = count && digits.all Char.isDigit && least ≤ n && n ≤ most then
    some (n, cs.drop count)
  else none

def readDate? (cs : List Char) : Option (Date × List Char) := do
  let (year, rest) ← readFixed? 4 0 9999 cs
  let (month, rest) ← readFixed? 2 1 12 (← dropStart? ['-'] rest)
  let (day, rest) ← readFixed? 2 1 31 (← dropStart? ['-'] rest)
  some (⟨year, month, day⟩, rest)

def readMinutes? (cs : List Char) : Option (Nat × Nat × List Char) := do
  let (hour, rest) ← readFixed? 2 0 23 cs
  let (minute, rest) ← readFixed? 2 0 59 (← dropStart? [':'] rest)
  some (hour, minute, rest)

/-- The millionths of a second behind a point. Further digits are left out. -/
def readMicro (cs : List Char) : Nat × List Char :=
  match cs with
  | '.' :: rest =>
    let digits := (rest.takeWhile Char.isDigit).take 6
    if digits.isEmpty then (0, cs)
    else (numberIn 10 (digits ++ List.replicate (6 - digits.length) '0'),
      rest.dropWhile Char.isDigit)
  | _ => (0, cs)

def readTime? (cs : List Char) : Option (Time × List Char) := do
  let (hour, minute, rest) ← readMinutes? cs
  let (second, rest) ← readFixed? 2 0 59 (← dropStart? [':'] rest)
  let (micro, rest) := readMicro rest
  some (⟨hour, minute, second, micro⟩, rest)

def readAhead? : List Char → Option (Int × List Char)
  | 'Z' :: rest | 'z' :: rest => some (0, rest)
  | '+' :: rest => (readMinutes? rest).map (fun (hour, minute, rest) => (60 * hour + minute, rest))
  | '-' :: rest =>
    (readMinutes? rest).map (fun (hour, minute, rest) => (-(60 * hour + minute), rest))
  | _ => none

def readTimeBehind? : List Char → Option (Time × List Char)
  | c :: rest => if c == 'T' || c == 't' || c == ' ' then readTime? rest else none
  | [] => none

def readMoment? (cs : List Char) : Option (Moment × List Char) :=
  match readDate? cs with
  | none => (readTime? cs).map (fun (time, rest) => (.clock time, rest))
  | some (date, rest) =>
    match readTimeBehind? rest with
    | none => some (.day date, rest)
    | some (time, rest) =>
      let ahead := readAhead? rest
      some (.instant date time (ahead.map (·.1)), (ahead.map (·.2)).getD rest)

def readScalar (cs : List Char) : Read (Value × List Char) :=
  match words.findSome? (fun (word, value) => (dropStart? word cs).map (value, ·)) with
  | some found => .ok found
  | none =>
    match readMoment? cs with
    | some (moment, rest) => if moment.isReal then .ok (.moment moment, rest) else malformed
    | none =>
      match readBased? cs with
      | some found => .ok found
      | none => do
        let (value, rest) ← need (readDecimal? cs)
        .ok (← value, rest)

/-! ## Tables under construction -/

/-- Changes the table that a key leads to. Tables that are missing are made, and a list of tables
stands for its last one. -/
def within? (change : Table → Option Table) : Key → Table → Option Table
  | [], t => change t
  | k :: ks, t =>
    match t.get? k with
    | none => (within? change ks []).map (fun inner => t.insert k (.table inner))
    | some (.table inner) => (within? change ks inner).map (fun inner => t.insert k (.table inner))
    | some (.list items) =>
      match items.getLast? with
      | some (.table inner) =>
        (within? change ks inner).map (fun inner =>
          t.insert k (.list (items.dropLast ++ [.table inner])))
      | _ => none
    | some _ => none

def addNew? (key : String) (value : Value) (t : Table) : Option Table :=
  if (t.get? key).isSome then none else some (t.insert key value)

def place? (key : Key) (value : Value) (t : Table) : Option Table := do
  let last ← key.getLast?
  within? (addNew? last value) key.dropLast t

def addTable? (key : String) (t : Table) : Option Table :=
  match t.get? key with
  | none => some (t.insert key (.list [.table []]))
  | some (.list items) => some (t.insert key (.list (items ++ [.table []])))
  | some _ => none

def isWhole : Value → Bool
  | .list _ | .table _ => true
  | _ => false

/-- Whether a key leads to or into one of the given places. -/
def isWithin (places : List Key) (key : Key) : Bool := places.any (·.isPrefixOf key)

/-! ## Values -/

/-- The room that a list takes, and that a table takes. -/
def listRoom : Nat := 2

def tableRoom : Nat := 3

mutual
def readValue : Nat → Nat → List Char → Read (Value × List Char)
  | 0, _, _ => malformed
  | fuel + 1, room, cs =>
    match cs with
    | '"' :: _ | '\'' :: _ => (readString cs).map (fun (s, rest) => (.text (String.ofList s), rest))
    | '[' :: rest =>
      if room < listRoom then .error .tooDeep
      else do
        match ← skipAllLines rest with
        | ']' :: rest => .ok (.list [], rest)
        | rest =>
          (readItems fuel (room - listRoom) rest).map (fun (items, rest) => (.list items, rest))
    | '\x7b' :: rest =>
      if room < tableRoom then .error .tooDeep
      else
        match skipBlanks rest with
        | '\x7d' :: rest => .ok (.table [], rest)
        | rest =>
          (readFields fuel (room - tableRoom) [] [] rest).map
            (fun (fields, rest) => (.table fields, rest))
    | _ => readScalar cs

def readItems : Nat → Nat → List Char → Read (List Value × List Char)
  | 0, _, _ => malformed
  | fuel + 1, room, cs => do
    let (item, rest) ← readValue fuel room cs
    match ← skipAllLines rest with
    | ']' :: rest => .ok ([item], rest)
    | ',' :: rest =>
      match ← skipAllLines rest with
      | ']' :: rest => .ok ([item], rest)
      | rest => (readItems fuel room rest).map (fun (items, rest) => (item :: items, rest))
    | _ => malformed

def readFields : Nat → Nat → Table → List Key → List Char → Read (Table × List Char)
  | 0, _, _, _, _ => malformed
  | fuel + 1, room, before, complete, cs => do
    let (key, rest) ← readKey cs
    let rest ← need (dropStart? ['='] rest)
    let (value, rest) ← readValue fuel room (skipBlanks rest)
    if isWithin complete key then malformed
    else
      let fields ← need (place? key value before)
      match skipBlanks rest with
      | '\x7d' :: rest => .ok (fields, rest)
      | ',' :: rest =>
        let complete := if isWhole value then key :: complete else complete
        readFields fuel room fields complete (skipBlanks rest)
      | _ => malformed
end

/-! ## Documents -/

structure Draft where
  table : Table := []
  /-- The table that pairs are put into. -/
  header : Key := []
  /-- Tables that no header may open any more. -/
  opened : List Key := []
  /-- Places to which nothing can be added. -/
  complete : List Key := []
  /-- Tables made by dotted keys; the next header makes them count as opened. -/
  dotted : List Key := []

namespace Draft

def settle (d : Draft) : Draft := { d with opened := d.dotted ++ d.opened, dotted := [] }

def open? (d : Draft) (key : Key) : Option Draft :=
  if d.opened.contains key || isWithin d.complete key then none
  else (within? some key d.table).map (fun table =>
    { d with table, header := key, opened := key :: d.opened })

/-- Opens the next table of a list. What was known of the one before it does not hold for it. -/
def openNext? (d : Draft) (key : Key) : Option Draft := do
  if isWithin d.complete key then none
  else
    let outside := fun (keys : List Key) => keys.filter (fun k => !key.isPrefixOf k)
    let table ← within? (addTable? (key.getLast?.getD "")) key.dropLast d.table
    some { d with
      table, header := key, opened := key :: outside d.opened, complete := outside d.complete }

def add? (d : Draft) (key : Key) (value : Value) : Option Draft := do
  let between := (List.range (key.length - 1)).map (fun n => d.header ++ key.take (n + 1))
  if between.any d.opened.contains || isWithin d.complete (d.header ++ key.dropLast) then none
  else
    let table ← place? (d.header ++ key) value d.table
    some { d with
      table, dotted := between ++ d.dotted
      complete := if isWhole value then (d.header ++ key) :: d.complete else d.complete }

end Draft

def readHeader (d : Draft) (cs : List Char) : Read (Draft × List Char) := do
  let (key, rest) ← readKey (skipBlanks cs)
  let d ← need (d.settle.open? key)
  .ok (d, ← need (dropStart? [']'] rest))

def readNextHeader (d : Draft) (cs : List Char) : Read (Draft × List Char) := do
  let (key, rest) ← readKey (skipBlanks cs)
  let d ← need (d.settle.openNext? key)
  .ok (d, ← need (dropStart? [']', ']'] rest))

def readPair (room : Nat) (d : Draft) (cs : List Char) : Read (Draft × List Char) := do
  let (key, rest) ← readKey cs
  let rest ← need (dropStart? ['='] rest)
  let (value, rest) ← readValue (2 * cs.length + 2) room (skipBlanks rest)
  .ok (← need (d.add? key value), rest)

def readStatement (room : Nat) (d : Draft) (cs : List Char) : Read (Draft × List Char) :=
  match cs with
  | '[' :: '[' :: rest => readNextHeader d rest
  | '[' :: rest => readHeader d rest
  | '#' :: _ => .ok (d, cs)
  | _ => readPair room d cs

def readStatements (room : Nat) : Nat → Draft → List Char → Read Draft
  | 0, _, _ => malformed
  | fuel + 1, d, cs =>
    match skipBlanks cs with
    | [] => .ok d
    | '\n' :: rest => readStatements room fuel d rest
    | c :: rest => do
      let (d, rest) ← readStatement room d (c :: rest)
      match ← skipComment (skipBlanks rest) with
      | [] => .ok d
      | '\n' :: rest => readStatements room fuel d rest
      | _ => malformed

def parse (room : Nat) (s : String) : Read Table :=
  let cs := Text.replaceText ['\r', '\n'] ['\n'] s.toList
  (readStatements room (cs.length + 1) {} cs).map (·.table)

end DocMerge.Data.Toml

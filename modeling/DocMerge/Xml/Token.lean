import DocMerge.Text.Digits
import DocMerge.Text.Search
import DocMerge.Xml.Characters
import DocMerge.Xml.Node

/-!
# Tokens of content

The content of a document is cut into characters, tags, references and sections. Tags are read with
the names as written; which namespaces they belong to is left open.
-/

namespace DocMerge.Xml

open Text (cutAt? dropStart? hexNumber?)

inductive Definition
  | text (cs : List Char)
  /-- Content that is kept elsewhere and is not read. -/
  | external
  /-- Something that is no content. -/
  | unparsed
  deriving DecidableEq, Repr

structure Entities where
  declared : List (String × Definition) := []
  /-- Whether there may be others, declared elsewhere. -/
  isOpen : Bool := false
  deriving Repr

namespace Entities

def find? (e : Entities) (name : String) : Option Definition := e.declared.lookup name

def accepts (e : Entities) (name : String) : Bool := e.isOpen || (e.find? name).isSome

def size (e : Entities) : Nat :=
  e.declared.foldl (fun total (_, definition) =>
    match definition with
    | .text cs => total + cs.length
    | _ => total) 0

end Entities

abbrev RawAttribute := QName × Value

inductive Token
  | char (c : Char)
  /-- A character that is written as its number or by its standing name. -/
  | escaped (c : Char)
  | cdata (s : String)
  | comment (s : String)
  | instruction (target : String) (data : Option String)
  | reference (name : String)
  | opening (name : QName) (attributes : List RawAttribute)
  | closing (name : QName)
  deriving DecidableEq, Repr

def skipSpaces (cs : List Char) : List Char := cs.dropWhile isSpace

def readName? : List Char → Option (String × List Char)
  | [] => none
  | c :: rest =>
    if isNameStart c then some (String.ofList (c :: rest.takeWhile isNameChar),
      rest.dropWhile isNameChar)
    else none

def readQName? (cs : List Char) : Option (QName × List Char) := do
  let (first, rest) ← readName? cs
  match rest with
  | ':' :: rest =>
    let (second, rest) ← readName? rest
    if rest.head? == some ':' then none else some (⟨first, second⟩, rest)
  | _ => some (⟨"", first⟩, rest)

def decimalNumber? (cs : List Char) : Option Nat :=
  if cs.isEmpty || !cs.all Char.isDigit then none
  else some (cs.foldl (fun n c => 10 * n + (c.toNat - 48)) 0)

def numbered? (n : Nat) : Option Char :=
  if _valid : n.isValidChar then
    let c := Char.ofNat n
    if isAllowed c then some c else none
  else none

def standing : List (String × Char) :=
  [("lt", '<'), ("gt", '>'), ("amp", '&'), ("quot", '"'), ("apos", '\'')]

inductive Reference
  | character (c : Char)
  | entity (name : String)

def readReference? (entities : Entities) : List Char → Option (Reference × List Char)
  | '#' :: rest => do
    let (digits, rest) ← cutAt? [';'] rest
    let n ← match digits with
      | 'x' :: digits => if digits.isEmpty then none else hexNumber? digits
      | digits => decimalNumber? digits
    some (.character (← numbered? n), rest)
  | cs => do
    let (name, rest) ← readName? cs
    let rest ← dropStart? [';'] rest
    match standing.lookup name with
    | some c => some (.character c, rest)
    | none => if entities.accepts name then some (.entity name, rest) else none

/-- A value up to the quote that ends it, where a line end or a tab is a space. Without a quote all
of the text is read as it is: that is the value of an entity. The fuel suffices if it exceeds the
lengths of the text and of all entities; an entity that refers to itself uses it up. -/
def readValue? (entities : Entities) : Option Char → Nat → List Char → Option (Value × List Char)
  | _, 0, _ => none
  | quote?, fuel + 1, cs =>
    match cs with
    | [] => if quote?.isNone then some ([], []) else none
    | '&' :: rest => do
      let (reference, rest) ← readReference? entities rest
      let piece ← match reference with
        | .character c => some (.char c)
        | .entity name =>
          match entities.find? name with
          | some (.text cs) =>
            (readValue? entities none fuel cs).map
              (fun (value, _) => .reference name value.characters)
          | some _ => none
          | none => some (.reference name ('&' :: name.toList ++ [';']))
      let (value, rest) ← readValue? entities quote? fuel rest
      some (piece :: value, rest)
    | c :: rest =>
      if quote? == some c then some ([], rest)
      else if c == '<' || !isAllowed c then none
      else do
        let (value, rest) ← readValue? entities quote? fuel rest
        some (.char (if isSpace c && quote?.isSome then ' ' else c) :: value, rest)

def readQuoted? (entities : Entities) (fuel : Nat) : List Char → Option (Value × List Char)
  | [] => none
  | quote :: rest =>
    if quote == '"' || quote == '\'' then readValue? entities (some quote) fuel rest else none

def readAttribute? (entities : Entities) (fuel : Nat) (cs : List Char) :
    Option (RawAttribute × List Char) := do
  let (name, rest) ← readQName? cs
  let rest ← dropStart? ['='] (skipSpaces rest)
  let (value, rest) ← readQuoted? entities fuel (skipSpaces rest)
  some ((name, value), rest)

/-- The rest of a tag behind its attributes, and whether the tag is that of an empty element. -/
def readTagEnd? : List Char → Option (Bool × List Char)
  | '>' :: rest => some (false, rest)
  | '/' :: '>' :: rest => some (true, rest)
  | _ => none

def readAttributes? (entities : Entities) :
    Nat → List Char → Option (List RawAttribute × Bool × List Char)
  | 0, _ => none
  | fuel + 1, cs =>
    match readTagEnd? (skipSpaces cs) with
    | some (empty, rest) => some ([], empty, rest)
    | none =>
      if (cs.head?.map isSpace).getD false then do
        let (first, rest) ← readAttribute? entities (fuel + 1) (skipSpaces cs)
        let (more, empty, rest) ← readAttributes? entities fuel rest
        some (first :: more, empty, rest)
      else none

/-- A tag whose `<` has been read. An empty element is opened and closed at once. -/
def readOpening? (entities : Entities) (fuel : Nat) (cs : List Char) :
    Option (List Token × List Char) := do
  let (name, rest) ← readQName? cs
  let (attributes, empty, rest) ← readAttributes? entities fuel rest
  some (.opening name attributes :: (if empty then [.closing name] else []), rest)

def readClosing? (cs : List Char) : Option (Token × List Char) := do
  let (name, rest) ← readQName? cs
  let rest ← dropStart? ['>'] (skipSpaces rest)
  some (.closing name, rest)

def readUntil? (mark cs : List Char) : Option (String × List Char) := do
  let (body, rest) ← cutAt? mark cs
  if body.all isAllowed then some (String.ofList body, rest) else none

/-- A comment, which has no two hyphens in a row. -/
def readComment? (cs : List Char) : Option (String × List Char) := do
  let (body, rest) ← readUntil? ['-', '-'] cs
  let rest ← dropStart? ['>'] rest
  some (body, rest)

/-- A processing instruction: its target and, behind a blank, its data. -/
def readInstruction? (cs : List Char) : Option (String × Option String × List Char) := do
  let (target, rest) ← readName? cs
  if target.toLower == "xml" then none
  else
    match dropStart? ['?', '>'] rest with
    | some rest => some (target, none, rest)
    | none =>
      if (rest.head?.map isSpace).getD false then
        let (data, rest) ← readUntil? ['?', '>'] (skipSpaces rest)
        some (target, some data, rest)
      else none

def readMarkup? (entities : Entities) (fuel : Nat) : List Char → Option (List Token × List Char)
  | '!' :: '-' :: '-' :: rest => (readComment? rest).map (fun (s, rest) => ([.comment s], rest))
  | '!' :: rest => do
    let rest ← dropStart? "[CDATA[".toList rest
    let (s, rest) ← readUntil? "]]>".toList rest
    some ([.cdata s], rest)
  | '?' :: rest =>
    (readInstruction? rest).map (fun (target, data, rest) => ([.instruction target data], rest))
  | '/' :: rest => (readClosing? rest).map (fun (token, rest) => ([token], rest))
  | cs => readOpening? entities fuel cs

/-- The tokens at the start of a text. The end of a CDATA section may not stand in text. -/
def readTokens? (entities : Entities) (fuel : Nat) : List Char → Option (List Token × List Char)
  | [] => none
  | '<' :: rest => readMarkup? entities fuel rest
  | '&' :: rest =>
    (readReference? entities rest).map (fun (reference, rest) =>
      match reference with
      | .character c => ([.escaped c], rest)
      | .entity name => ([.reference name], rest))
  | c :: rest =>
    if isAllowed c && !(c == ']' && Text.hasStart [']', '>'] rest)
      then some ([.char c], rest) else none

def tokensWithin? (entities : Entities) : Nat → List Char → Option (List Token)
  | 0, _ => none
  | fuel + 1, cs =>
    if cs.isEmpty then some []
    else do
      let (tokens, rest) ← readTokens? entities (fuel + 1) cs
      (tokensWithin? entities fuel rest).map (tokens ++ ·)

/-- All tokens of a text. Every token takes at least one character. -/
def tokens? (entities : Entities) (cs : List Char) : Option (List Token) :=
  tokensWithin? entities (cs.length + entities.size + 1) cs

end DocMerge.Xml

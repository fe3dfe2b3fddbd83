import DocMerge.DocId.Bracket
import DocMerge.DocId.Key
import DocMerge.Text.Blank
import DocMerge.Text.Word

/-!
# The canonical spelling

An identifier is written with an optional kind letter, a dotted name and an argument list. Its
canonical spelling has no blanks and no assembly names, separates nested types by dots, counts the
generic arguments of a name instead of listing them, and writes the arguments with braces, with `@`
for references and with array dimensions that name no lower bound.
-/

namespace DocMerge.DocId

open Text (Pattern replaceAll dropStart? hasEnd joinWith isWord isNameStart isDigit)

def kindLetter? : List Char → Option (Char × List Char)
  | c :: ':' :: rest => if c.isAlpha then some (c, rest) else none
  | _ => none

def isNamePart (c : Char) : Bool := isWord c || c == '.'

def dropAssemblyName? : List Char → Option (List Char)
  | c :: rest => if isNameStart c then some (rest.dropWhile isNamePart) else none
  | [] => none

def dropProperty (cs : List Char) : List Char :=
  cs.dropWhile (fun c => c != ',' && c != ']' && c != ')' && c != '\x7d')

def dropOptionalProperty (name : List Char) (cs : List Char) : List Char :=
  match dropStart? name cs with
  | some rest => dropProperty rest
  | none => cs

/-- The assembly behind a type name: a name and a version, with or without culture and token. -/
def assemblySuffix : Pattern (List Char) := fun _ cs => do
  let named ← dropStart? [','] cs
  let versioned ← dropStart? ",Version=".toList (← dropAssemblyName? named)
  let rest := dropOptionalProperty ",Culture=".toList (dropProperty versioned)
  some ([], dropOptionalProperty ",PublicKeyToken=".toList rest)

def assemblyBrackets : Pattern (List Char) := fun _ cs => do
  let named ← dropStart? ['['] cs
  let rest ← dropStart? [']'] (← dropAssemblyName? named)
  let next ← rest.head?
  if isNameStart next then some ([], rest) else none

/-- The separator in the name of an explicit interface implementation, but not the mark that
begins the name of a constructor. -/
def interfaceMark : Pattern (List Char) := fun before cs => do
  let left ← before
  let rest ← dropStart? ['#'] cs
  let right ← rest.head?
  if (isWord left || left == '`' || left == '\x7d') && isWord right
    then some (['.'], rest) else none

/-- The lower bound of an array dimension, which begins behind a bracket or a comma and ends before
one. -/
def lowerBound : Pattern (List Char) := fun before cs => do
  let left ← before
  let digits := (dropStart? ['-'] cs).getD cs
  let rest ← dropStart? [':'] (digits.dropWhile isDigit)
  let right ← rest.head?
  let first ← digits.head?
  if (left == '[' || left == ',') && isDigit first && (right == ',' || right == ']') then
    some ([], rest)
  else none

def dotted (c : Char) : Char := if c == '+' || c == '/' then '.' else c

def countArguments (tick : List Char) (segment : List Char) : List Char :=
  match Text.cutAt? ['<'] segment with
  | some (name, inner) =>
    if hasEnd ['>'] segment then
      name ++ tick ++ (toString (splitTop ',' 0 inner.dropLast).length).toList
    else segment
  | none => segment

def mapWithLast (init last : α → β) : List α → List β
  | [] => []
  | [x] => [last x]
  | x :: rest => init x :: mapWithLast init last rest

/-- The name part. The generic arguments of a method are counted behind two ticks. -/
def canonicalName (method : Bool) (name : List Char) : List Char :=
  let counted := mapWithLast (countArguments ['`'])
    (countArguments (if method then ['`', '`'] else ['`'])) (splitTop '.' 0 (name.map dotted))
  replaceAll interfaceMark (joinWith ['.'] counted)

def argumentChar : Char → Char
  | '<' => '\x7b'
  | '>' => '\x7d'
  | '&' => '@'
  | c => dotted c

def canonicalArguments (arguments : List Char) : List Char :=
  replaceAll lowerBound (arguments.map argumentChar)

/-- Everything before the first round bracket, and the rest. -/
def splitSignature (cs : List Char) : List Char × List Char := cs.span (· != '(')

def canonicalBody (method : Bool) (cs : List Char) : List Char :=
  let (name, arguments) :=
    splitSignature (replaceAll assemblyBrackets (replaceAll assemblySuffix cs))
  canonicalName method name ++ canonicalArguments arguments

def splitKind (cs : List Char) : List Char × List Char :=
  match kindLetter? cs with
  | some (letter, rest) => ([letter.toUpper, ':'], rest)
  | none => ([], cs)

def keyOf (cs : List Char) : Key :=
  if cs.isEmpty || !balanced cs then .malformed (String.ofList cs)
  else
    let (kind, body) := splitKind cs
    if body.isEmpty then .malformed (String.ofList kind)
    else .canonical (String.ofList (kind ++ canonicalBody (kind == ['M', ':']) body))

/-- The key of a DocId. Every text has one. -/
def Key.ofDocId (raw : String) : Key := keyOf (Text.withoutBlanks raw.toList)

def Key.ofContainingType (raw : String) : Key :=
  let cs := Text.withoutBlanks raw.toList
  let (kind, body) := splitKind cs
  if kind == ['T', ':'] then keyOf cs
  else
    match splitTop '.' 0 (splitSignature body).1 with
    | first :: second :: more =>
      keyOf ('T' :: ':' :: joinWith ['.'] (first :: second :: more).dropLast)
    | _ => .malformed (String.ofList body)

/-- A missing DocId has a key that agrees with nothing. -/
def Key.ofDocId? (raw : Option String) : Key := raw.elim (.malformed "") Key.ofDocId

def Key.ofContainingType? (raw : Option String) : Key :=
  raw.elim (.malformed "") Key.ofContainingType

end DocMerge.DocId

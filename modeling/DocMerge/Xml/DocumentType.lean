import DocMerge.Xml.Token
import DocMerge.Xml.Uri

/-!
# Document types

A document type declares entities and says which attributes elements have. Declarations of elements
and notations are checked and have no further effect. What is kept elsewhere is not read.
-/

namespace DocMerge.Xml

open Text (cutAt? dropStart?)

/-! ## Comments and instructions outside the root -/

def skipMiscellaneousWithin? : Nat → List Char → Option (List Char)
  | 0, _ => none
  | fuel + 1, cs =>
    match skipSpaces cs with
    | '<' :: '!' :: '-' :: '-' :: rest => do
      let (_, rest) ← readComment? rest
      skipMiscellaneousWithin? fuel rest
    | '<' :: '?' :: rest => do
      let (_, _, rest) ← readInstruction? rest
      skipMiscellaneousWithin? fuel rest
    | rest => some rest

/-- What follows blanks, comments and instructions, which must be well-formed. -/
def skipMiscellaneous? (cs : List Char) : Option (List Char) :=
  skipMiscellaneousWithin? (cs.length + 1) cs

/-! ## Parts of declarations -/

def startsWithSpace (cs : List Char) : Bool := cs.head?.any isSpace

def behindSpaces? (cs : List Char) : Option (List Char) :=
  if startsWithSpace cs then some (skipSpaces cs) else none

def behindEnd? (cs : List Char) : Option (List Char) := dropStart? ['>'] (skipSpaces cs)

def readLiteral? : List Char → Option (List Char × List Char)
  | '"' :: rest => cutAt? ['"'] rest
  | '\'' :: rest => cutAt? ['\''] rest
  | _ => none

def isPublicChar (c : Char) : Bool :=
  c.isAlphanum || " \n\r-'()+,./:=?;!*#@$_%".toList.contains c

def readPublic? (cs : List Char) : Option (List Char × List Char) := do
  let (literal, rest) ← readLiteral? cs
  if literal.all isPublicChar then some (literal, rest) else none

def readSystem? (cs : List Char) : Option (List Char × List Char) := do
  let (literal, rest) ← readLiteral? cs
  if literal.all isAllowed then some (literal, rest) else none

/-- Where something is kept that is not read, if such a place is named. -/
def readPlace? (cs : List Char) : Option (Option (List Char) × List Char) :=
  match dropStart? "SYSTEM".toList cs, dropStart? "PUBLIC".toList cs with
  | some rest, _ => do
    let (place, rest) ← readSystem? (← behindSpaces? rest)
    some (some place, rest)
  | none, some rest => do
    let (_, rest) ← readPublic? (← behindSpaces? rest)
    let (place, rest) ← readSystem? (← behindSpaces? rest)
    some (some place, rest)
  | none, none => some (none, cs)

def readWord? (words : List String) (cs : List Char) : Option (String × List Char) :=
  words.findSome? (fun word => (dropStart? word.toList cs).map (word, ·))

def readChoice? (readWord : List Char → Option (List Char)) : Nat → List Char → Option (List Char)
  | 0, _ => none
  | fuel + 1, cs => do
    match skipSpaces (← readWord (skipSpaces cs)) with
    | '|' :: rest => readChoice? readWord fuel rest
    | ')' :: rest => some rest
    | _ => none

def behindName? (cs : List Char) : Option (List Char) := (readName? cs).map (·.2)

def behindWord? (cs : List Char) : Option (List Char) :=
  let isWordChar := fun c => isNameChar c || c == ':'
  if cs.head?.any isWordChar then some (cs.dropWhile isWordChar) else none

/-! ## Entities -/

/-- The text that a declaration gives to an entity. Numbers of characters are resolved at once, and
references to other entities are left. -/
def entityText? : Nat → List Char → Option (List Char)
  | 0, _ => none
  | fuel + 1, cs =>
    match cs with
    | [] => some []
    | '&' :: '#' :: rest => do
      match ← readReference? {} ('#' :: rest) with
      | (.character c, rest) => (entityText? fuel rest).map (c :: ·)
      | (.entity _, _) => none
    | '&' :: rest => do
      let (name, rest) ← readName? rest
      let rest ← dropStart? [';'] rest
      (entityText? fuel rest).map ('&' :: name.toList ++ ';' :: ·)
    | c :: rest => if c == '%' || !isAllowed c then none else (entityText? fuel rest).map (c :: ·)

/-- What an entity is declared to be. The place of one that is kept elsewhere is a URI without a
fragment. -/
def readDefinition? (cs : List Char) : Option (Definition × List Char) :=
  match readLiteral? cs with
  | some (literal, rest) =>
    (entityText? (literal.length + 1) literal).map (fun text => (.text text, rest))
  | none => do
    let (place, rest) ← readPlace? cs
    let place ← place
    if Uri.isReference place && !place.contains '#' then some (.external, rest) else none

def readNotation? (cs : List Char) : Option (List Char) := do
  behindName? (← behindSpaces? (← dropStart? "NDATA".toList (← behindSpaces? cs)))

/-! ## Attributes -/

inductive AttributeType
  | text
  /-- The value consists of words, so that blanks only separate. -/
  | words
  /-- The value is one word, which no other element has. -/
  | identifier
  deriving DecidableEq, Repr

structure AttributeRule where
  element : QName
  name : QName
  type : AttributeType
  default : Option Value

def AttributeType.ofWord (word : String) : AttributeType :=
  if word == "CDATA" then text else if word == "ID" then identifier else words

def readAttributeType? (cs : List Char) : Option (AttributeType × List Char) :=
  match readWord? ["CDATA", "IDREFS", "IDREF", "ID", "ENTITY", "ENTITIES", "NMTOKENS",
    "NMTOKEN"] cs with
  | some (word, rest) => some (.ofWord word, rest)
  | none =>
    match dropStart? "NOTATION".toList cs, cs with
    | some rest, _ => do
      let rest ← dropStart? ['('] (← behindSpaces? rest)
      some (.words, ← readChoice? behindName? rest.length rest)
    | none, '(' :: rest => (readChoice? behindWord? rest.length rest).map (.words, ·)
    | _, _ => none

def readDefault? (entities : Entities) (cs : List Char) : Option (Option Value × List Char) :=
  match readWord? ["#REQUIRED", "#IMPLIED"] cs with
  | some (_, rest) => some (none, rest)
  | none => do
    let rest ← match dropStart? "#FIXED".toList cs with
      | some rest => behindSpaces? rest
      | none => some cs
    let (value, rest) ← readQuoted? entities (rest.length + entities.size + 1) rest
    some (some value, rest)

def readRules? (entities : Entities) (element : QName) :
    Nat → List Char → Option (List AttributeRule × List Char)
  | 0, _ => none
  | fuel + 1, cs =>
    match behindEnd? cs with
    | some rest => some ([], rest)
    | none => do
      let (name, rest) ← readQName? (← behindSpaces? cs)
      let (type, rest) ← readAttributeType? (← behindSpaces? rest)
      let (default, rest) ← readDefault? entities (← behindSpaces? rest)
      let (rules, rest) ← readRules? entities element fuel rest
      some (⟨element, name, type, default⟩ :: rules, rest)

/-- A value of words without blanks at its ends and with single spaces between them. -/
def Value.squeeze (v : Value) : Value :=
  (v.splitOn (.char ' ')).filter (!·.isEmpty) |>.intersperse [.char ' '] |>.flatten

def AttributeRule.apply (r : AttributeRule) (v : Value) : Value :=
  if r.type = .text then v else v.squeeze

/-- The rule for an attribute. Of several the first counts. -/
def ruleFor? (rules : List AttributeRule) (element name : QName) : Option AttributeRule :=
  rules.find? (fun r => r.element == element && r.name == name)

/-- Applies the rules for the attributes of an element. One that is missing takes its default. -/
def complete (rules : List AttributeRule) (element : QName) (given : List RawAttribute) :
    List RawAttribute :=
  let apply := fun (name, value) =>
    (name, ((ruleFor? rules element name).map (·.apply value)).getD value)
  let missing :=
    (rules.filter (fun r => r.element == element && !given.any (·.1 == r.name))).map (·.name)
  let defaults := missing.eraseDups.filterMap (fun name => do
    some (name, ← (← ruleFor? rules element name).default))
  (given ++ defaults).map apply

def Token.complete (rules : List AttributeRule) : Token → Token
  | .opening name attributes => .opening name (Xml.complete rules name attributes)
  | token => token

def identifierName : QName := ⟨"xml", "id"⟩

/-- What identifies an element, if the attribute does. A value with references does not. -/
def identifier? (rules : List AttributeRule) (element : QName) (a : RawAttribute) :
    Option (List Char) :=
  if a.1 == identifierName || (ruleFor? rules element a.1).any
    (·.type == .identifier) then a.2.plain?
  else none

def Token.identifiers (rules : List AttributeRule) : Token → List (List Char)
  | .opening name attributes => attributes.filterMap (identifier? rules name)
  | _ => []

def isName (cs : List Char) : Bool := cs.head?.any isNameStart && cs.all isNameChar

/-- Whether the attribute that identifies elements without any rule holds a name. -/
def Token.hasNamedIdentifier : Token → Bool
  | .opening _ attributes => attributes.all (fun a =>
      a.1 != identifierName || (a.2.squeeze.plain?.map isName).getD true)
  | _ => true

def identifiersDiffer (rules : List AttributeRule) (tokens : List Token) : Bool :=
  (tokens.flatMap (·.identifiers rules)).Pairwise (· ≠ ·)

/-! ## Elements and notations -/

def skipRepetition (cs : List Char) : List Char :=
  match cs with
  | '?' :: rest | '*' :: rest | '+' :: rest => rest
  | cs => cs

mutual
def readPart? : Nat → List Char → Option (List Char)
  | 0, _ => none
  | fuel + 1, cs =>
    match cs with
    | '(' :: rest => readGroup? fuel none rest
    | cs => (readQName? cs).map (fun (_, rest) => skipRepetition rest)

def readGroup? : Nat → Option Char → List Char → Option (List Char)
  | 0, _, _ => none
  | fuel + 1, mark, cs => do
    match skipSpaces (← readPart? fuel (skipSpaces cs)) with
    | ')' :: rest => some (skipRepetition rest)
    | c :: rest =>
      if (c == '|' || c == ',') && (mark.isNone || mark == some c)
        then readGroup? fuel (some c) rest
      else none
    | [] => none
end

def readMixed? (cs : List Char) : Option (List Char) :=
  match skipSpaces cs with
  | ')' :: '*' :: rest | ')' :: rest => some rest
  | '|' :: rest => do
    dropStart? ['*'] (← readChoice? (fun cs => (readQName? cs).map (·.2)) rest.length rest)
  | _ => none

def readContent? (cs : List Char) : Option (List Char) :=
  match readWord? ["EMPTY", "ANY"] cs, cs with
  | some (_, rest), _ => some rest
  | none, '(' :: rest =>
    match dropStart? "#PCDATA".toList (skipSpaces rest) with
    | some rest => readMixed? rest
    | none => readGroup? (2 * rest.length) none rest
  | none, _ => none

def behindElement? (cs : List Char) : Option (List Char) := do
  let (_, rest) ← readQName? (← behindSpaces? cs)
  behindEnd? (← readContent? (← behindSpaces? rest))

/-- A notation may have a public name alone. -/
def behindNotation? (cs : List Char) : Option (List Char) := do
  let rest ← behindSpaces? (← behindName? (← behindSpaces? cs))
  match dropStart? "PUBLIC".toList rest with
  | none =>
    let (place, rest) ← readPlace? rest
    if place.isSome then behindEnd? rest else none
  | some rest =>
    let (_, rest) ← readPublic? (← behindSpaces? rest)
    match behindEnd? rest with
    | some rest => some rest
    | none =>
      let (_, rest) ← readSystem? (← behindSpaces? rest)
      behindEnd? rest

/-! ## The whole -/

structure DocumentType where
  entities : Entities := {}
  rules : List AttributeRule := []
  /-- The entities that hold declarations. -/
  parameters : List (String × Definition) := []

namespace DocumentType

/-- Takes a declaration unless there is one already. -/
def addParameter (d : DocumentType) (name : String) (definition : Definition) : DocumentType :=
  { d with parameters := d.parameters ++ [(name, definition)] }

def addEntity (d : DocumentType) (name : String) (definition : Definition) : DocumentType :=
  { d with entities := { d.entities with declared := d.entities.declared ++ [(name, definition)] } }

/-- What a document type stands for once something has been left unread. A document that stands
alone needs none of it. -/
def opened (d : DocumentType) (standalone : Bool) : DocumentType :=
  { d with entities := { d.entities with isOpen := !standalone } }

end DocumentType

def readEntity? (d : DocumentType) (cs : List Char) : Option (DocumentType × List Char) := do
  match ← behindSpaces? cs with
  | '%' :: rest =>
    let (name, rest) ← readName? (← behindSpaces? rest)
    let (definition, rest) ← readDefinition? (← behindSpaces? rest)
    some (d.addParameter name definition, ← behindEnd? rest)
  | rest =>
    let (name, rest) ← readName? rest
    let (definition, rest) ← readDefinition? (← behindSpaces? rest)
    match behindEnd? rest with
    | some rest => some (d.addEntity name definition, rest)
    | none =>
      if definition == .external then
        some (d.addEntity name .unparsed, ← behindEnd? (← readNotation? rest))
      else none

/-- Declarations one after another, up to a closing square bracket. The text of a parameter, which
has none, is read where it is referred to. -/
def readDeclarations? (standalone inParameter : Bool) :
    Nat → DocumentType → List Char → Option (DocumentType × List Char)
  | 0, _, _ => none
  | fuel + 1, d, cs => do
    match ← skipMiscellaneous? cs with
    | [] => if inParameter then some (d, []) else none
    | ']' :: rest => if inParameter then none else some (d, rest)
    | '%' :: rest =>
      let (name, rest) ← readName? rest
      let rest ← dropStart? [';'] rest
      let d := d.opened standalone
      match d.parameters.lookup name with
      | some (.text text) =>
        let (d, _) ← readDeclarations? standalone true fuel d text
        readDeclarations? standalone inParameter fuel d rest
      | some _ => readDeclarations? standalone inParameter fuel d rest
      | none => if standalone then none else readDeclarations? standalone inParameter fuel d rest
    | '<' :: '!' :: rest =>
      match ← readWord? ["ENTITY", "ATTLIST", "ELEMENT", "NOTATION"] rest with
      | ("ENTITY", rest) =>
        let (d, rest) ← readEntity? d rest
        readDeclarations? standalone inParameter fuel d rest
      | ("ATTLIST", rest) =>
        let (element, rest) ← readQName? (← behindSpaces? rest)
        let (rules, rest) ← readRules? d.entities element (rest.length + 1) rest
        readDeclarations? standalone inParameter fuel { d with rules := d.rules ++ rules } rest
      | ("ELEMENT", rest) => readDeclarations? standalone inParameter fuel d (← behindElement? rest)
      | (_, rest) => readDeclarations? standalone inParameter fuel d (← behindNotation? rest)
    | _ => none

def readSubset? (standalone : Bool) (d : DocumentType) (cs : List Char) :
    Option (DocumentType × List Char) :=
  match cs with
  | '[' :: rest => do
    let (d, rest) ← readDeclarations? standalone false (rest.length * rest.length + 1) d rest
    some (d, ← behindEnd? rest)
  | rest => do some (d, ← behindEnd? rest)

/-- The document type, behind its first word. -/
def readDocumentType? (standalone : Bool) (cs : List Char) : Option (DocumentType × List Char) := do
  let (_, rest) ← readQName? (← behindSpaces? cs)
  let (place, rest) ← readPlace? (skipSpaces rest)
  let d : DocumentType := if place.isSome then ({} : DocumentType).opened standalone else {}
  readSubset? standalone d (skipSpaces rest)

end DocMerge.Xml

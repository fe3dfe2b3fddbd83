import DocMerge.Files.Store
import DocMerge.Text.Blank
import DocMerge.Xml.DocumentType
import DocMerge.Xml.Encoding
import DocMerge.Xml.Tree

/-!
# Documents

Before the root a document may have a declaration, comments, instructions and a document type.
-/

namespace DocMerge.Xml

open Text (cutAt? dropStart?)

/-! ## The declaration -/

def readSetting? (word cs : List Char) : Option (List Char × List Char) := do
  let rest ← dropStart? word cs
  let rest ← dropStart? ['='] (skipSpaces rest)
  match skipSpaces rest with
  | '"' :: rest => cutAt? ['"'] rest
  | '\'' :: rest => cutAt? ['\''] rest
  | _ => none

def readOptionalSetting? (word cs : List Char) : Option (Option (List Char) × List Char) :=
  if Text.hasStart word (skipSpaces cs) then
    if (cs.head?.map isSpace).getD false then
      (readSetting? word (skipSpaces cs)).map (fun (value, rest) => (some value, rest))
    else none
  else some (none, cs)

def isVersion (cs : List Char) : Bool :=
  match cs with
  | '1' :: '.' :: rest => rest.all Char.isDigit
  | _ => false

def isEncodingName (cs : List Char) : Bool :=
  (cs.head?.map Char.isAlpha).getD false && cs.all
    (fun c => c.isAlphanum || "._-".toList.contains c)

/-- What a declaration says that matters for reading on. -/
structure Prologue where
  encoding : Option String := none
  standalone : Bool := false

def readDeclaration? (cs : List Char) : Option (Prologue × List Char) :=
  match dropStart? "<?xml".toList cs with
  | none => some ({}, cs)
  | some rest =>
    if !(rest.head?.map isSpace).getD false then some ({}, cs)
    else do
      let (version, rest) ← readSetting? "version".toList (skipSpaces rest)
      let (encoding, rest) ← readOptionalSetting? "encoding".toList rest
      let (standalone, rest) ← readOptionalSetting? "standalone".toList rest
      let rest ← dropStart? ['?', '>'] (skipSpaces rest)
      if isVersion version && encoding.all isEncodingName &&
          standalone.all (fun s => s == "yes".toList || s == "no".toList) then
        some ({ encoding := encoding.map String.ofList
                standalone := standalone == some "yes".toList }, rest)
      else none

/-! ## Whole documents -/

def readProlog? (standalone : Bool) (cs : List Char) : Option (DocumentType × List Char) := do
  let rest ← skipMiscellaneous? cs
  match dropStart? "<!DOCTYPE".toList rest with
  | none => some ({}, rest)
  | some rest => do
    let (d, rest) ← readDocumentType? standalone rest
    some (d, ← skipMiscellaneous? rest)

/-- Whether what tokens refer to is sound, and what identifies elements as well. -/
def areSound (d : DocumentType) (tokens : List Token) : Bool :=
  tokens.all (d.entities.isSound (d.entities.declared.length + 1)) &&
  tokens.all Token.hasNamedIdentifier &&
    identifiersDiffer d.rules tokens

/-- The root that a text holds. Nothing but comments, instructions and blanks may follow it. -/
def root? (d : DocumentType) (cs : List Char) : Option Element := do
  let tokens := (← tokens? d.entities cs).map (Token.complete d.rules)
  let (root, rest) ← assemble? [] tokens
  if rest.all Token.isMiscellaneous && areSound d tokens then root.element? else none

/-- The root of a document whose characters are known. All line ends are read as newlines. -/
def readDocument? (cs : List Char) : Option Element := do
  let (prologue, rest) ← readDeclaration? (Files.plainLines cs)
  let (d, rest) ← readProlog? prologue.standalone rest
  root? d rest

def byteOrderMark : Char := '\ufeff'

def parse? (text : String) : Option Element :=
  match text.toList with
  | c :: rest => readDocument? (if c == byteOrderMark then rest else c :: rest)
  | [] => none

/-- The characters of a document that is UTF-8 and may declare another encoding, in which its bytes
are then read. A byte order mark overrules the declaration. -/
def charactersOf? (content : ByteArray) (text : String) : Option (List Char) :=
  match text.toList with
  | [] => none
  | c :: rest =>
    if c == byteOrderMark then some rest
    else do
      let (prologue, _) ← readDeclaration? (Files.plainLines (c :: rest))
      match prologue.encoding with
      | none => some (c :: rest)
      | some name =>
        match ← Encoding.ofName? name with
        | .utf8 => some (c :: rest)
        | encoding => encoding.decode? content

def parseBytes? (content : ByteArray) (text : String) : Option Element :=
  (charactersOf? content text).bind readDocument?

end DocMerge.Xml

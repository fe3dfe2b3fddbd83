import DocMerge.Fault
import DocMerge.Text.Blank
import DocMerge.Xml.Adopt
import DocMerge.Xml.Document
import DocMerge.Xml.Printer

/-!
# Texts in elements

A documentation text is the markup inside an element, on one line. Remarks may lie in a block of
markdown under a heading, which is no part of the text.
-/

namespace DocMerge.Content

open Xml (Element Node Scope)

/-- What a markup may not hold in text; a carriage return is left as it is. -/
def escapeText (c : Char) : List Char := if c == '\r' then [c] else Xml.escapeText c

def inner (outer : Scope) (e : Element) : String :=
  String.ofList (((e.text?.getD "").toList.flatMap escapeText) ++
    (Node.behindText e.children).flatMap (Node.printAlone (e.scope outer)))

def text (outer : Scope) (e : Element) : String := collapsed (inner outer e)

/-! ## Remarks -/

/-- Letters that count as one of the heading's word, whatever their case. -/
def isLetter (lower : Char) (c : Char) : Bool :=
  c == lower || c == lower.toUpper || (lower == 'k' && c == '\u212a') ||
  (lower == 's' && c == '\u017f')

def dropWord? : List Char → List Char → Option (List Char)
  | [], cs => some cs
  | w :: ws, c :: cs => if isLetter w c then dropWord? ws cs else none
  | _ :: _, [] => none

def behindHeading? (cs : List Char) : Option (List Char) := do
  let level := cs.takeWhile (· == '#')
  if level.isEmpty then none
  else
    let rest ← dropWord? "remarks".toList (Text.trimStart (cs.dropWhile (· == '#')))
    if (rest.takeWhile Text.isBlank).contains '\n' then some (Text.trimStart rest) else none

/-- A block of markdown without blanks at its ends and without its heading. -/
def withoutHeading (block : String) : String :=
  let cs := Text.trim block.toList
  String.ofList ((behindHeading? cs).getD cs)

def remarks (outer : Scope) (e : Element) : String :=
  match e.find? "format" with
  | some format => withoutHeading (format.text?.getD "")
  | none => text outer e

/-! ## Writing -/

def isWritable (s : String) : Bool := s.toList.all Xml.isAllowed

/-- What is left of an edit: the element, and the fault that ended it. -/
abbrev Edited := Element × Option Fault

/-- Replaces the markup inside an element. What is no markup is written as text. -/
def setInner (outer : Scope) (e : Element) (markup : String) : Edited :=
  match Xml.parse? ("<wrapper>" ++ markup ++ "</wrapper>") with
  | some wrapper =>
    ({ e with children := (wrapper.text?.map Node.text).toList ++
        Node.adoptAll (e.scope outer) [] (Node.behindText wrapper.children) }, none)
  | none =>
    if isWritable markup then ({ e with children := [.text markup] }, none)
    else ({ e with children := [] }, some .forbiddenCharacter)

def remarksBlock (text : String) : String := "\n\n## Remarks\n\n" ++ text ++ "\n\n"

def emptyFormat : Node :=
  .element { name := Xml.Name.plain "format", attributes := [.plain "type" "text/markdown"] } []

def setBlock (text : String) : List Node → List Node
  | [] => []
  | n :: rest =>
    match n.element? with
    | some format =>
      if format.tag.name.is "format" then
        .element format.tag (.cdata (remarksBlock text) :: Node.behindText format.children) :: rest
      else n :: setBlock text rest
    | none => n :: setBlock text rest

/-- Replaces the remarks in an element. One without a block of markdown receives one. -/
def setRemarks (e : Element) (text : String) : Edited :=
  let e := if (e.find? "format").isSome then e else { e with children := [emptyFormat] }
  if isWritable text then ({ e with children := setBlock text e.children }, none)
  else (e, some .forbiddenCharacter)

end DocMerge.Content

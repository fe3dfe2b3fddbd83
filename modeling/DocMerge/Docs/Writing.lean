import DocMerge.Docs.Reading

/-!
# Writing documentation files

The documentation of a type goes back into the tree of its file. Only elements whose text differs
are written, so what has not changed keeps its markup. A fault ends the writing, and what was
written before it stays.
-/

namespace DocMerge.Writing

open Content (Edited)
open Xml (Element Node Scope)

def editNamed (name : String) (edit : σ → Element → σ × Edited) :
    σ → List Node → σ × List Node × Option Fault
  | state, [] => (state, [], none)
  | state, n :: rest =>
    match n.element?.filter (·.tag.name.is name) with
    | none =>
      let (state, rest, fault) := editNamed name edit state rest
      (state, n :: rest, fault)
    | some e =>
      match edit state e with
      | (state, e, some fault) => (state, e.toNode :: rest, some fault)
      | (state, e, none) =>
        let (state, rest, fault) := editNamed name edit state rest
        (state, e.toNode :: rest, fault)

def editChildren (name : String) (edit : σ → Element → σ × Edited) (state : σ) (e : Element) :
    σ × Edited :=
  let (state, children, fault) := editNamed name edit state e.children
  (state, { e with children }, fault)

def editFirst (name : String) (edit : Element → Edited) (e : Element) : Edited :=
  (editChildren name
    (fun done child => if done then (true, child, none) else (true, edit child)) false e).2

def andThen (edited : Edited) (next : Element → Edited) : Edited :=
  match edited with
  | (e, some fault) => (e, some fault)
  | (e, none) => next e

def writeText (outer : Scope) (text : String) (e : Element) : Edited :=
  if Content.text outer e == text then (e, none) else Content.setInner outer e text

def writeRemarks (outer : Scope) (text : String) (e : Element) : Edited :=
  if Content.remarks outer e == text then (e, none) else Content.setRemarks e text

def writeScalar (outer : Scope) (name : String) (text : Option String) (docs : Element) : Edited :=
  match text with
  | some text => editFirst name (writeText outer text) docs
  | none => (docs, none)

def writeRemarksOf (outer : Scope) (text : Option String) (docs : Element) : Edited :=
  match text with
  | some text => editFirst "remarks" (writeRemarks outer text) docs
  | none => (docs, none)

def writeNamed (outer : Scope) (kind : String) (texts : NamedTexts) (docs : Element) : Edited :=
  (editChildren kind (fun _ e =>
    match texts.lookup (e.value "name") with
    | some text => ((), writeText outer text e)
    | none => ((), e, none)) () docs).2

/-! ## Exceptions -/

def writeExceptions (outer : Scope) (exceptions : List ExceptionDoc) (docs : Element) :
    List ExceptionDoc × Edited :=
  editChildren "exception" (fun left e =>
    match left with
    | x :: left => (left, writeText outer x.text e)
    | [] => ([], e, none)) exceptions docs

def anchorNames : List String := ["exception", "remarks", "value", "returns", "param"]

def lastPlace? (isWanted : Node → Bool) (nodes : List Node) : Option Nat :=
  (nodes.zipIdx.filter (fun n => isWanted n.1)).getLast?.map (·.2)

/-- The place of the node behind which a new exception goes: the last of the wanted elements, else
the last node that is not text. -/
def anchor? (nodes : List Node) : Option Nat :=
  (anchorNames.findSome? (fun name => lastPlace? (Node.isNamed name) nodes)).or
    (lastPlace? (fun n => !n.isText) nodes)

def indentOf (nodes : List Node) : List Node :=
  match Node.leadingText? nodes with
  | some text => if text != "" && Text.allBlank text.toList then [.text text] else []
  | none => []

/-- Puts a node behind the one in a place, with the indentation between them. The text behind that
node comes to stand behind the new one. The answer has the place of the new node. -/
def insertBehind (place : Nat) (new : Node) (nodes : List Node) : List Node × Nat :=
  let indent := indentOf nodes
  let rest := nodes.drop (place + 1)
  (nodes.take (place + 1) ++ indent ++ new :: ((Node.leadingText? rest).map Node.text).toList ++
    Node.behindText rest, place + 1 + indent.length)

/-- Puts a node behind the anchor or, if there is none, behind the text, which is repeated. -/
def insertAt (anchor : Option Nat) (new : Node) (nodes : List Node) : List Node × Nat :=
  match anchor with
  | some place => insertBehind place new nodes
  | none => (nodes ++ new :: ((Node.leadingText? nodes).map Node.text).toList, nodes.length)

def exceptionElement (x : ExceptionDoc) : Except Fault Element :=
  let start : Element :=
    { tag := { name := Xml.Name.plain "exception", attributes := [.plain "cref" x.cref] }
      children := [] }
  if !Content.isWritable x.cref then .error .forbiddenCharacter
  else
    match Content.setInner [] start x.text with
    | (e, none) => .ok e
    | (_, some fault) => .error fault

def addExceptions (inside : Scope) :
    Option Nat → List ExceptionDoc → List Node → List Node × Option Fault
  | _, [], nodes => (nodes, none)
  | anchor, x :: rest, nodes =>
    match exceptionElement x with
    | .error fault => (nodes, some fault)
    | .ok e =>
      let (nodes, place) := insertAt anchor (e.toNode.adopt inside []) nodes
      addExceptions inside (some place) rest nodes

def writeAllExceptions (inside : Scope) (exceptions : List ExceptionDoc) (docs : Element) :
    Edited :=
  let (left, edited) := writeExceptions inside exceptions docs
  andThen edited (fun docs =>
    let (children, fault) := addExceptions inside (anchor? docs.children) left docs.children
    ({ docs with children }, fault))

/-! ## Entries and files -/

def writeDocs (outer : Scope) (fields : DocFields) (docs : Element) : Edited :=
  let inside := docs.scope outer
  let edited := writeScalar inside "summary" fields.summary docs
  let edited := andThen edited (writeScalar inside "returns" fields.returns)
  let edited := andThen edited (writeScalar inside "value" fields.value)
  let edited := andThen edited (writeRemarksOf inside fields.remarks)
  let edited := andThen edited (writeNamed inside "param" fields.params)
  let edited := andThen edited (writeNamed inside "typeparam" fields.typeparams)
  andThen edited (writeAllExceptions inside fields.exceptions)

def writeEntry (outer : Scope) (entry : Entry) (holder : Element) : Edited :=
  if entry.docs.changed then editFirst "Docs" (writeDocs (holder.scope outer) entry.docs) holder
  else (holder, none)

def writeMembers (outer : Scope) (members : List Entry) (holder : Element) : List Entry × Edited :=
  editChildren "Member" (fun left e =>
    match left with
    | member :: left => (left, writeEntry (holder.scope outer) member e)
    | [] => ([], e, none)) members holder

def writeType (type : ApiType) (root : Element) : Edited :=
  andThen (writeEntry [] type.entry root) (fun root =>
    (editChildren "Members" (writeMembers (root.scope [])) type.members root).2)

def render (type : ApiType) (file : Xml.File) : Xml.File × Except Fault String :=
  match writeType type file.root with
  | (root, none) =>
    let file := { file with root }
    (file, .ok file.toString)
  | (root, some fault) => ({ file with root }, .error fault)

end DocMerge.Writing

/-!
# Trees

An element has a tag and children. Text and CDATA sections are children of their own, so the way in
which a document writes its texts is kept.
-/

namespace DocMerge.Xml

/-- A name as a document writes it. A name without a prefix has the empty one. -/
structure QName where
  nsPrefix : String
  localName : String
  deriving DecidableEq, Repr, Inhabited

/-- A name and the namespace it belongs to. A name without a namespace has the empty one. -/
structure Name where
  uri : String
  written : QName
  deriving DecidableEq, Repr, Inhabited

def Name.plain (s : String) : Name := ⟨"", "", s⟩

def Name.is (n : Name) (s : String) : Bool := n.uri == "" && n.written.localName == s

/-- A namespace under the prefix that stands for it. The empty prefix makes it the default. -/
structure Declaration where
  nsPrefix : String
  uri : String
  deriving DecidableEq, Repr

abbrev Scope := List Declaration

/-- A piece of the value of an attribute: a character, or a reference to an entity together with
what the entity stands for. -/
inductive ValuePiece
  | char (c : Char)
  | reference (name : String) (meaning : List Char)
  deriving DecidableEq, Repr

abbrev Value := List ValuePiece

namespace Value

def plain (s : String) : Value := s.toList.map .char

def characters (v : Value) : List Char :=
  v.flatMap (fun
    | .char c => [c]
    | .reference _ meaning => meaning)

def text (v : Value) : String := String.ofList v.characters

def plain? (v : Value) : Option (List Char) :=
  v.mapM (fun
    | .char c => some c
    | .reference .. => none)

@[simp] theorem text_plain (s : String) : (plain s).text = s := by
  have : (plain s).characters = s.toList := by
    unfold plain characters
    induction s.toList with
    | nil => rfl
    | cons c cs ih => simp_all
  rw [text, this, String.ofList_toList]

end Value

structure Attribute where
  name : Name
  value : Value
  deriving DecidableEq, Repr

/-- An attribute without a namespace and without references. -/
def Attribute.plain (name value : String) : Attribute := ⟨.plain name, .plain value⟩

structure Tag where
  name : Name
  declarations : List Declaration := []
  attributes : List Attribute := []
  deriving DecidableEq, Repr, Inhabited

inductive Node
  | text (s : String)
  | cdata (s : String)
  | comment (s : String)
  | instruction (target : String) (data : Option String)
  /-- A reference to an entity that the document type declares. -/
  | reference (name : String)
  | element (tag : Tag) (children : List Node)
  deriving Repr, Inhabited

structure Element where
  tag : Tag
  children : List Node
  deriving Repr, Inhabited

def Tag.attribute? (t : Tag) (name : String) : Option String :=
  (t.attributes.find? (·.name.is name)).map (·.value.text)

namespace Node

def isText : Node → Bool
  | text _ | cdata _ => true
  | _ => false

def characters : Node → String
  | text s | cdata s => s
  | _ => ""

def element? : Node → Option Element
  | element tag children => some ⟨tag, children⟩
  | _ => none

def isNamed (name : String) : Node → Bool
  | element tag _ => tag.name.is name
  | _ => false

/-- The text with which a list of nodes begins, if it begins with one. -/
def leadingText? (nodes : List Node) : Option String :=
  match nodes.takeWhile isText with
  | [] => none
  | texts => some (String.join (texts.map characters))

def behindText (nodes : List Node) : List Node := nodes.dropWhile isText

end Node

namespace Element

def toNode (e : Element) : Node := .element e.tag e.children

def named (e : Element) (name : String) : List Element :=
  (e.children.filter (Node.isNamed name)).filterMap Node.element?

def find? (e : Element) (name : String) : Option Element := (e.named name).head?

/-- The text before the first child that is not text. -/
def text? (e : Element) : Option String := Node.leadingText? e.children

def scope (outer : Scope) (e : Element) : Scope := e.tag.declarations ++ outer

end Element

end DocMerge.Xml

import DocMerge.Xml.Node

/-!
# Writing trees

A node is written with double quotes around values and with a compact end for an element without
children. What a document may not hold as it is, and the blanks that reading would change, are
escaped.
-/

namespace DocMerge.Xml

def escapeText (c : Char) : List Char :=
  match c with
  | '<' => "&lt;".toList
  | '>' => "&gt;".toList
  | '&' => "&amp;".toList
  | '\r' => "&#13;".toList
  | c => [c]

def escapeValue (c : Char) : List Char :=
  match c with
  | '"' => "&quot;".toList
  | '\n' => "&#10;".toList
  | '\t' => "&#9;".toList
  | c => escapeText c

def QName.print (q : QName) : List Char :=
  if q.nsPrefix == "" then q.localName.toList else q.nsPrefix.toList ++ ':' :: q.localName.toList

def printReference (name : String) : List Char := '&' :: name.toList ++ [';']

def ValuePiece.print : ValuePiece → List Char
  | .char c => escapeValue c
  | .reference name _ => printReference name

def Value.print (v : Value) : List Char := '"' :: v.flatMap ValuePiece.print ++ ['"']

def Declaration.print (d : Declaration) : List Char :=
  (if d.nsPrefix == "" then "xmlns".toList else "xmlns:".toList ++ d.nsPrefix.toList) ++
    '=' :: (Value.plain d.uri).print

def Attribute.print (a : Attribute) : List Char := a.name.written.print ++ '=' :: a.value.print

def Tag.print (t : Tag) : List Char :=
  t.name.written.print ++ t.declarations.flatMap (fun d => ' ' :: d.print) ++
    t.attributes.flatMap (fun a => ' ' :: a.print)

/-- A CDATA section. One that holds the mark of its end is written as two. -/
def printSection (s : String) : List Char :=
  "<![CDATA[".toList ++ body s.toList ++ "]]>".toList
where
  body : List Char → List Char
    | ']' :: ']' :: '>' :: rest => "]]]]><![CDATA[>".toList ++ body rest
    | c :: rest => c :: body rest
    | [] => []

def printInstruction (target : String) (data : Option String) : List Char :=
  "<?".toList ++ target.toList ++ (match data with
    | some data => ' ' :: data.toList
    | none => []) ++ "?>".toList

mutual
def Node.print : Node → List Char
  | .text s => s.toList.flatMap escapeText
  | .cdata s => printSection s
  | .comment s => "<!--".toList ++ s.toList ++ "-->".toList
  | .instruction target data => printInstruction target data
  | .reference name => printReference name
  | .element tag children =>
    match children with
    | [] => '<' :: tag.print ++ "/>".toList
    | child :: rest =>
      '<' :: tag.print ++ '>' :: (child.print ++ Node.printAll rest) ++
        '<' :: '/' :: tag.name.written.print ++ ['>']

def Node.printAll : List Node → List Char
  | [] => []
  | n :: rest => n.print ++ Node.printAll rest
end

/-- A tag with the declarations of its surroundings added to its own, those excepted whose prefix it
declares itself or that a nearer one hides. -/
def Tag.carrying (outer : Scope) (t : Tag) : Tag :=
  { t with declarations := outer.foldl (fun known d =>
      if known.any (·.nsPrefix == d.nsPrefix) then known else known ++ [d]) t.declarations }

/-- A node written for itself: an element carries the declarations in force around it. -/
def Node.printAlone (outer : Scope) : Node → List Char
  | .element tag children => Node.print (.element (tag.carrying outer) children)
  | n => n.print

end DocMerge.Xml

import DocMerge.Xml.Token
import DocMerge.Xml.Uri

/-!
# Namespaces

The attributes of a tag that declare namespaces are told from the others, and every name gets the
namespace of its prefix.
-/

namespace DocMerge.Xml

def xmlUri : String := "http://www.w3.org/XML/1998/namespace"

def xmlnsUri : String := "http://www.w3.org/2000/xmlns/"

namespace Scope

/-- The namespace of a prefix. The prefix `xml` needs no declaration, and without a declared default
a name without a prefix has no namespace. -/
def resolve? (scope : Scope) (nsPrefix : String) : Option String :=
  if nsPrefix == "xml" then some xmlUri
  else
    match scope.find? (·.nsPrefix == nsPrefix) with
    | some d => some d.uri
    | none => if nsPrefix == "" then some "" else none

/-- The nearest prefix that stands for a namespace where it is asked for. -/
def prefixOf? (scope : Scope) (uri : String) : Option String :=
  (scope.find? (fun d => d.uri == uri && scope.resolve? d.nsPrefix == some uri)).map (·.nsPrefix)

end Scope

def QName.isDeclaration (q : QName) : Bool :=
  q.nsPrefix == "xmlns" || (q.nsPrefix == "" && q.localName == "xmlns")

/-- The declaration that an attribute makes: none for the standing prefix `xml`. A declaration of
another prefix for a standing namespace, of `xmlns`, of no namespace for a prefix, or of something
that is no URI is an error. -/
def declaration? (a : RawAttribute) : Option (Option Declaration) :=
  let nsPrefix := if a.1.nsPrefix == "xmlns" then a.1.localName else ""
  let uri := a.2.text
  if nsPrefix == "xml" then (if uri == xmlUri then some none else none)
  else if nsPrefix == "xmlns" || uri == xmlUri || uri == xmlnsUri then none
  else if nsPrefix != "" && uri == "" then none
  else if !Uri.isReference uri.toList then none
  else some (some ⟨nsPrefix, uri⟩)

/-- The namespace of an attribute. The default does not apply to attributes. -/
def attributeName? (scope : Scope) (q : QName) : Option Name :=
  if q.nsPrefix == "" then some ⟨"", q⟩ else (scope.resolve? q.nsPrefix).map (⟨·, q⟩)

def elementName? (scope : Scope) (q : QName) : Option Name :=
  (scope.resolve? q.nsPrefix).map (⟨·, q⟩)

/-- Whether no name occurs twice. Names with the same namespace and local name are the same. -/
def distinct : List Name → Bool
  | [] => true
  | n :: rest =>
    rest.all (fun m => !(n.uri == m.uri && n.written.localName == m.written.localName)) &&
    distinct rest

def Tag.ofRaw? (outer : Scope) (name : QName) (attributes : List RawAttribute) : Option Tag := do
  let (declaring, others) := attributes.partition (·.1.isDeclaration)
  if !declaring.Pairwise (fun a b => a.1 ≠ b.1) then none
  else
    let declarations := (← declaring.mapM declaration?).filterMap id
    let scope := declarations ++ outer
    let name ← elementName? scope name
    let named ← others.mapM (fun a => (attributeName? scope a.1).map (Attribute.mk · a.2))
    if distinct (named.map (·.name)) then some { name, declarations, attributes := named } else none

end DocMerge.Xml

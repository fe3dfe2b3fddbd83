import DocMerge.Docs.Content
import DocMerge.Docs.Entry
import DocMerge.Xml.File

/-!
# Reading documentation files

A type file declares one type with its members. An assembly file lists entries with the
documentation that was extracted from source code.
-/

namespace DocMerge

open Xml (Element Scope)

namespace Xml.Element

def follow (e : Element) : List String → List Element
  | [] => [e]
  | name :: names => (e.named name).flatMap (fun child => follow child names)

/-- The text of the first element that a path leads to; an element without text has the empty
one. -/
def textAt? (e : Element) (names : List String) : Option String :=
  (e.follow names).head?.map (fun found => found.text?.getD "")

def attribute? (e : Element) (name : String) : Option String := e.tag.attribute? name

def value (e : Element) (name : String) : String := (e.attribute? name).getD ""

end Xml.Element

namespace DocFields

def namedTexts (e : Element) (kind : String) (outer : Scope) : List (String × String) :=
  (e.named kind).map (fun x => (x.value "name", Content.text outer x))

def exceptionsOf (e : Element) (outer : Scope) : List ExceptionDoc :=
  (e.named "exception").map (fun x => ⟨x.value "cref", Content.text outer x⟩)

/-- The documentation in an element of a type file, which lies where declarations are in force. -/
def ofDocs (outer : Scope) (e : Element) : DocFields :=
  let inside := e.scope outer
  let text := fun name => (e.find? name).map (Content.text inside)
  { summary := text "summary"
    remarks := (e.find? "remarks").map (Content.remarks inside)
    returns := text "returns"
    value := text "value"
    params := NamedTexts.ofList (namedTexts e "param" inside)
    typeparams := NamedTexts.ofList (namedTexts e "typeparam" inside)
    exceptions := exceptionsOf e inside }

/-- The documentation in an entry of an assembly file. Its remarks keep their lines, and what has no
name is left out. -/
def ofMember (outer : Scope) (e : Element) : DocFields :=
  let inside := e.scope outer
  let text := fun name => (e.find? name).map (Content.text inside)
  let named := fun kind => (namedTexts e kind inside).filter (·.1 != "")
  { summary := text "summary"
    remarks := (e.find? "remarks").map (fun x => trimmed (Content.inner inside x))
    returns := text "returns"
    value := text "value"
    params := NamedTexts.ofList (named "param")
    typeparams := NamedTexts.ofList (named "typeparam")
    exceptions := (exceptionsOf e inside).filter (·.cref != "") }

def ofDocs? (outer : Scope) (e : Option Element) : DocFields :=
  match e with
  | some e => ofDocs outer e
  | none => { present := false }

end DocFields

def docIdOf (e : Element) (kind : String) : String :=
  match (e.named kind).find? (fun s => s.attribute? "Language" == some "DocId") with
  | some signature => signature.value "Value"
  | none => ""

def namespaceOf (fullName name : String) : String :=
  match Text.dropStart? (name.toList.reverse ++ ['.']) fullName.toList.reverse with
  | some rest => String.ofList rest.reverse
  | none => ""

namespace ApiType

def assemblyName : List String := ["AssemblyInfo", "AssemblyName"]

def nodeOf (path : String) (root : Element) : ApiNode :=
  let name := root.value "Name"
  let fullName := if root.value "FullName" == "" then name else root.value "FullName"
  let docId := docIdOf root "TypeSignature"
  { kind := .type, docId, key := DocId.Key.ofDocId docId, name
    assembly := trimmed ((root.textAt? assemblyName).getD "")
    namespaceName := namespaceOf fullName name
    sourcePath := path }

def memberNodeOf (type : ApiNode) (member : Element) : ApiNode :=
  let docId := docIdOf member "MemberSignature"
  { kind := .member, docId, key := DocId.Key.ofDocId docId
    name := member.value "MemberName"
    assembly := trimmed (((member.textAt? assemblyName).filter (· != "")).getD type.assembly)
    namespaceName := type.namespaceName
    memberType := trimmed ((member.textAt? ["MemberType"]).getD "")
    typeDocId := type.docId
    interfaceMembers := ((member.follow ["Implements", "InterfaceMember"]).map
      (fun x => trimmed (x.text?.getD ""))).filter (· != "")
    sourcePath := type.sourcePath }

def memberElements (root : Element) : List (Scope × Element) :=
  (root.named "Members").flatMap (fun members =>
    (members.named "Member").map (fun member => (members.scope (root.scope []), member)))

def ofRoot? (path : String) (root : Element) : Option ApiType :=
  if root.tag.name.is "Type" then
    let node := nodeOf path root
    some {
      entry := { node, docs := DocFields.ofDocs? (root.scope []) (root.find? "Docs") }
      members := (memberElements root).map (fun (outer, member) =>
        { node := memberNodeOf node member
          docs := DocFields.ofDocs? (member.scope outer) (member.find? "Docs") }) }
  else none

end ApiType

namespace Entry

def nameOf (docId : String) : String :=
  match docId.toList with
  | _ :: ':' :: rest => String.ofList rest
  | _ => docId

def ofMember (path assembly : String) (outer : Scope) (member : Element) : Entry :=
  let docId := member.value "name"
  { node := {
      kind := if Text.hasStart ['T', ':'] docId.toList then .type else .member
      docId, key := DocId.Key.ofDocId docId, name := nameOf docId, assembly, sourcePath := path }
    docs := DocFields.ofMember outer member }

def ofAssemblyFile (path assembly : String) (root : Element) : List Entry :=
  (root.named "members").flatMap (fun members =>
    (members.named "member").map (ofMember path assembly (members.scope (root.scope []))))

end Entry

end DocMerge

import DocMerge.Xml.Namespace

/-!
# Moving nodes

A node that comes into another tree gives up its declarations of namespaces that the new
surroundings have a prefix for. Names then take that prefix.
-/

namespace DocMerge.Xml

/-- The prefixes that names take, by those that they had; the nearest first. -/
abbrev Renaming := List (String × String)

def Renaming.apply (r : Renaming) (n : Name) : Name :=
  match r.lookup n.written.nsPrefix with
  | some new => { n with written := { n.written with nsPrefix := new } }
  | none => n

/-- The prefix that makes a declaration unnecessary, if the surroundings have one. -/
def replacement? (scope : Scope) (d : Declaration) : Option String :=
  (scope.prefixOf? d.uri).filter (fun p => p != "" || d.nsPrefix == "")

def renamingOf (scope : Scope) (declarations : List Declaration) : Renaming :=
  declarations.map (fun d => (d.nsPrefix, (replacement? scope d).getD d.nsPrefix))

def Tag.adopt (scope : Scope) (r : Renaming) (t : Tag) : Tag where
  name := r.apply t.name
  declarations := t.declarations.filter (fun d => (replacement? scope d).isNone)
  attributes := t.attributes.map (fun a =>
    if a.name.written.nsPrefix == "" then a else { a with name := r.apply a.name })

mutual
def Node.adopt (scope : Scope) (r : Renaming) : Node → Node
  | .element tag children =>
    let r := renamingOf scope tag.declarations ++ r
    let tag := tag.adopt scope r
    .element tag (Node.adoptAll (tag.declarations ++ scope) r children)
  | n => n

def Node.adoptAll (scope : Scope) (r : Renaming) : List Node → List Node
  | [] => []
  | n :: rest => n.adopt scope r :: Node.adoptAll scope r rest
end

end DocMerge.Xml

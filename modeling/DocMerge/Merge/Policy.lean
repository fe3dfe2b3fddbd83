import DocMerge.Docs.Entry

/-!
# What a merge may touch

Assemblies and namespaces are chosen by how their names begin, types by their whole name, and
switches say which texts are carried over.
-/

namespace DocMerge

structure Policy where
  includedAssemblies : List String := []
  excludedAssemblies : List String := []
  includedNamespaces : List String := []
  excludedNamespaces : List String := []
  includedTypes : List String := []
  excludedTypes : List String := []
  /-- Members that implement an interface are left alone. -/
  skipImplementations : Bool := false
  /-- The remarks of interface members are not copied. -/
  skipInterfaceRemarks : Bool := true
  typeRemarks : Bool := true
  memberRemarks : Bool := true
  /-- A documented exception may be given a new text. -/
  replaceExceptions : Bool := false
  addExceptions : Bool := true
  /-- The similarity, in percent, from which on two exceptions count as the same. -/
  collisionThreshold : Int := 70
  /-- Fields that are replaced even where they are documented. -/
  overwritten : List DocField := []
  save : Bool := false
  listUndocumented : Bool := false
  deriving Repr

namespace Policy

/-- Whether a name begins with one of the given texts. The empty text begins every name. -/
def beginsWithAny (starts : List String) (name : String) : Bool :=
  starts.any (fun start => Text.hasStart start.toList name.toList)

def includesAssembly (p : Policy) (assembly : String) : Bool :=
  !beginsWithAny p.excludedAssemblies assembly && beginsWithAny p.includedAssemblies assembly

def includesNamespace (p : Policy) (name : String) : Bool :=
  !beginsWithAny p.excludedNamespaces name &&
    (p.includedNamespaces.isEmpty || beginsWithAny p.includedNamespaces name)

/-- Whether a list of types names the given one, alone or with its namespace. -/
def names (types : List String) (node : ApiNode) : Bool :=
  let fullName := if node.namespaceName == "" then node.name
    else node.namespaceName ++ "." ++ node.name
  types.contains node.name || types.contains fullName

def includesType (p : Policy) (node : ApiNode) : Bool :=
  p.includesAssembly node.assembly && p.includesNamespace node.namespaceName &&
    !names p.excludedTypes node && (p.includedTypes.isEmpty || names p.includedTypes node)

end Policy

end DocMerge

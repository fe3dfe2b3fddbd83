import DocMerge.Docs.Entry
import DocMerge.Text.Lines

/-!
# Sample files

Small documentation files, built from their parts.
-/

namespace DocMerge.Sample

def block (margin : String) (markup : String) : String :=
  String.ofList (Text.indent margin.toList (Text.trim (Text.dedent markup.toList)))

def joinLines (lines : List String) : String := "\n".intercalate lines

def entryLines (entry : String × String) : List String :=
  ["    <member name=\"" ++ entry.1 ++ "\">", block "      " entry.2, "    </member>"]

/-- An assembly file. Of several entries with one DocId the last counts. -/
def assemblyFile (assembly : String) (entries : List (String × String)) : String :=
  joinLines (
    ["<?xml version=\"1.0\" encoding=\"utf-8\"?>", "<doc>", "  <assembly>",
      "    <name>" ++ assembly ++ "</name>",
      "  </assembly>", "  <members>"] ++
    (NamedTexts.ofList entries).toList.flatMap entryLines ++ ["  </members>", "</doc>", ""])

def interfaceLines (interfaceMembers : List String) : List String :=
  if interfaceMembers.isEmpty then []
  else
    ["  <Implements>"] ++
      interfaceMembers.map (fun m => "    <InterfaceMember>" ++ m ++ "</InterfaceMember>") ++
      ["  </Implements>"]

def member (name docId docs memberType : String) (interfaceMembers : List String) : String :=
  joinLines (
    ["<Member MemberName=\"" ++ name ++ "\">",
      "  <MemberSignature Language=\"DocId\" Value=\"" ++ docId ++ "\"/>",
      "  <MemberType>" ++ memberType ++ "</MemberType>"] ++
    interfaceLines interfaceMembers ++ ["  <Docs>", block "    " docs, "  </Docs>", "</Member>"])

def shortName (fullName : String) : String :=
  String.ofList ((fullName.toList.reverse.takeWhile (· != '.')).reverse)

/-- A type file. A type without a DocId has the one that its full name gives. -/
def typeFile (fullName assembly docs : String) (members : List String) (docId : String) : String :=
  let docId := if docId == "" then "T:" ++ fullName else docId
  joinLines (
    ["<Type Name=\"" ++ shortName fullName ++ "\" FullName=\"" ++ fullName ++ "\">",
      "  <TypeSignature Language=\"DocId\" Value=\"" ++ docId ++ "\"/>", "  <AssemblyInfo>",
      "    <AssemblyName>" ++ assembly ++ "</AssemblyName>", "  </AssemblyInfo>", "  <Docs>",
      block "    " docs,
      "  </Docs>", "  <Members>"] ++
    members.map (fun m => String.ofList (Text.indent "    ".toList m.toList)) ++
    ["  </Members>", "</Type>", ""])

end DocMerge.Sample

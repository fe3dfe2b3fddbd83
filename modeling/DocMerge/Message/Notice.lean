import DocMerge.Text.Quoted

/-!
# Notices

Everything the program tells its user while it works. A notice has a level, an address under which
catalogs hold its wording, and arguments that the wording may use.
-/

namespace DocMerge.Message

inductive Level
  | debug | info | success | warning | error
  deriving DecidableEq, Repr

def Level.name : Level → String
  | debug => "debug"
  | info => "info"
  | success => "success"
  | warning => "warning"
  | error => "error"

inductive Argument
  | text (s : String)
  | count (n : Int)
  /-- Something else, with what it is shown as and its quoted form. -/
  | object (shown quotedForm : String)
  deriving DecidableEq, Repr

def Argument.path (path : String) : Argument := .object path ("PosixPath(" ++ quote path ++ ")")

def Argument.complaint (kind message : String) : Argument :=
  .object message (kind ++ "(" ++ quote message ++ ")")

/-- An error, of which no more than a name or a message is known. -/
def Argument.error (shown : String) : Argument := .object shown shown

abbrev Arguments := List (String × Argument)

inductive Notice
  | configurationError (kind message : String)
  | unreadable (path error : String)
  | notDocumentation (path : String)
  | assemblyExcluded (path assembly : String)
  | entriesLoaded (path : String) (count : Nat)
  | docsLoaded (count : Nat)
  | noDocs
  | sourceIndexed (count : Nat)
  | malformedKey (key path : String)
  | duplicateKey (key previous path : String)
  | unresolvedInterface (member interfaceMember : String)
  | runStarted
  | runSummary (merged unchanged unmatched : Nat)
  | runMisses (members orphans : Nat)
  | dryRun (count : Nat)
  | runComplete (count : Nat)
  | runFailed (count : Nat)
  | typeMerged (type : String) (count : Nat)
  | typeUnmatched (type : String)
  | typeExcluded (type : String)
  | fieldUpdated (api field : String)
  | fieldOrphaned (api field : String)
  | fileSaved (path : String)
  | writeFailed (path error : String)
  | undocumentedSection (field : String) (count : Nat)
  | undocumentedItem (api : String)
  | undocumentedTotal (count : Nat)
  | allDocumented
  deriving DecidableEq, Repr

namespace Notice

def level : Notice → Level
  | configurationError .. | unreadable .. | runFailed .. | writeFailed .. => .error
  | noDocs | malformedKey .. | duplicateKey .. | unresolvedInterface .. | fieldOrphaned ..
  | undocumentedSection .. | undocumentedTotal .. => .warning
  | runComplete .. | allDocumented => .success
  | docsLoaded .. | sourceIndexed .. | runStarted | runSummary .. | runMisses .. | dryRun ..
  | typeMerged .. | undocumentedItem .. => .info
  | notDocumentation .. | assemblyExcluded .. | entriesLoaded .. | typeUnmatched ..
  | typeExcluded .. | fieldUpdated .. | fileSaved .. => .debug

def address : Notice → String
  | configurationError .. => "config.error"
  | unreadable .. => "load.unreadable"
  | notDocumentation .. => "load.skipped"
  | assemblyExcluded .. => "load.assembly_excluded"
  | entriesLoaded .. => "load.file"
  | docsLoaded .. => "load.docs_done"
  | noDocs => "load.docs_empty"
  | sourceIndexed .. => "load.source_done"
  | malformedKey .. => "match.malformed"
  | duplicateKey .. => "match.duplicate"
  | unresolvedInterface .. => "interface.unresolved"
  | runStarted => "port.run.start"
  | runSummary .. => "port.run.summary"
  | runMisses .. => "port.run.misses"
  | dryRun .. => "port.run.dry_run"
  | runComplete .. => "port.run.complete"
  | runFailed .. => "port.run.failed"
  | typeMerged .. => "port.type.merged"
  | typeUnmatched .. => "port.type.unmatched"
  | typeExcluded .. => "port.type.excluded"
  | fieldUpdated .. => "port.field.updated"
  | fieldOrphaned .. => "port.field.orphan"
  | fileSaved .. => "write.saved"
  | writeFailed .. => "write.failed"
  | undocumentedSection field _ => "undoc.section." ++ field
  | undocumentedItem .. => "undoc.item"
  | undocumentedTotal .. => "undoc.total"
  | allDocumented => "undoc.clean"

def arguments : Notice → Arguments
  | configurationError kind message => [("error", .complaint kind message)]
  | unreadable path error | writeFailed path error =>
    [("path", .path path), ("error", .error error)]
  | notDocumentation path | fileSaved path => [("path", .path path)]
  | assemblyExcluded path assembly => [("path", .path path), ("assembly", .text assembly)]
  | entriesLoaded path count => [("path", .path path), ("count", .count count)]
  | docsLoaded count | sourceIndexed count | dryRun count | runComplete count | runFailed count
  | undocumentedSection _ count | undocumentedTotal count => [("count", .count count)]
  | malformedKey key path => [("key", .text key), ("path", .text path)]
  | duplicateKey key previous path =>
    [("key", .text key), ("previous", .text previous), ("path", .text path)]
  | unresolvedInterface member interfaceMember =>
    [("member", .text member), ("interface", .text interfaceMember)]
  | runSummary merged unchanged unmatched =>
    [("merged", .count merged), ("unchanged", .count unchanged), ("unmatched", .count unmatched)]
  | runMisses members orphans => [("members", .count members), ("orphans", .count orphans)]
  | typeMerged type count => [("type", .text type), ("count", .count count)]
  | typeUnmatched type | typeExcluded type => [("type", .text type)]
  | fieldUpdated api field | fieldOrphaned api field => [("api", .text api), ("field", .text field)]
  | undocumentedItem api => [("api", .text api)]
  | noDocs | runStarted | allDocumented => []

end Notice

end DocMerge.Message

import DocMerge.Files.Store
import DocMerge.Message.Notice

/-!
# Standard wordings

The catalogs that come with the program, in English, file by file.
-/

namespace DocMerge.Message

abbrev Wordings := List (String × String)

namespace Standard

def commands : Wordings := [
  ("cli.app.description", "Port IntelliSense xml documentation into a Docs xml repository."),
  ("cli.command.port.help", "Merge IntelliSense documentation into the Docs files."),
  ("cli.command.undoc.help", "List Docs entries that are still undocumented."),
  ("cli.option.verbose.help", "Show debug messages."),
  ("cli.option.docs.help", "Comma-separated folders holding the Docs xml files."),
  ("cli.option.intellisense.help", "Comma-separated folders holding IntelliSense xml files."),
  ("cli.option.include_assemblies.help", "Comma-separated assembly name prefixes to port."),
  ("cli.option.exclude_assemblies.help", "Comma-separated assembly name prefixes to leave alone."),
  ("cli.option.include_namespaces.help", "Comma-separated namespace prefixes to port."),
  ("cli.option.exclude_namespaces.help", "Comma-separated namespace prefixes to leave alone."),
  ("cli.option.include_types.help", "Comma-separated type names to port."),
  ("cli.option.exclude_types.help", "Comma-separated type names to leave alone."),
  ("cli.option.overwrite_fields.help",
    "Comma-separated fields (summary, remarks, returns, value, param, typeparam) to overwrite " ++
      "even when documented."),
  ("cli.option.threshold.help",
    "Similarity percentage (0-100) at which two exceptions count as the same."),
  ("cli.option.skip_interface_implementations.help",
    "Leave members that implement an interface untouched."),
  ("cli.option.skip_interface_remarks.help",
    "Do not copy interface remarks into implementing members."),
  ("cli.option.port_type_remarks.help", "Port remarks of types."),
  ("cli.option.port_member_remarks.help", "Port remarks of members."),
  ("cli.option.port_exceptions_existing.help", "Rewrite exceptions that are already documented."),
  ("cli.option.port_exceptions_new.help", "Add exceptions that are not documented yet."),
  ("cli.option.save.help", "Write the changed Docs files. Without it nothing is written."),
  ("cli.option.print_undoc.help", "List undocumented entries after porting.")]

def loading : Wordings := [
  ("config.error", "Configuration error: \x7berror\x7d"),
  ("load.unreadable", "Skipping \x7bpath\x7d: \x7berror\x7d"),
  ("load.skipped", "Not a documentation file: \x7bpath\x7d"),
  ("load.assembly_excluded", "Skipping \x7bpath\x7d: assembly '\x7bassembly\x7d' is not included."),
  ("load.file", "Loaded \x7bcount\x7d entries from \x7bpath\x7d"),
  ("load.docs_done", "Loaded \x7bcount\x7d Docs type file(s)."),
  ("load.docs_empty", "No Docs type files were found."),
  ("load.source_done", "Indexed \x7bcount\x7d IntelliSense entries.")]

def merging : Wordings := [
  ("match.malformed", "Malformed signature '\x7bkey\x7d' in \x7bpath\x7d; it will not be matched."),
  ("match.duplicate", "Duplicate entry '\x7bkey\x7d': \x7bpath\x7d replaces \x7bprevious\x7d."),
  ("interface.unresolved",
    "Could not find interface member '\x7binterface\x7d' implemented by '\x7bmember\x7d'."),
  ("port.run.start", "Porting documentation..."),
  ("port.run.summary",
    "Types: \x7bmerged\x7d merged, \x7bunchanged\x7d matched with nothing to merge, " ++
      "\x7bunmatched\x7d unmatched."),
  ("port.run.misses",
    "Unmatched members: \x7bmembers\x7d. Orphaned source params: \x7borphans\x7d."),
  ("port.run.dry_run", "\x7bcount\x7d type(s) changed. Run with --save to write them."),
  ("port.run.complete", "Saved \x7bcount\x7d Docs file(s)."),
  ("port.run.failed", "\x7bcount\x7d file(s) could not be written."),
  ("port.type.merged", "\x7btype\x7d: \x7bcount\x7d field(s) updated."),
  ("port.type.unmatched", "\x7btype\x7d: no IntelliSense documentation."),
  ("port.type.excluded", "\x7btype\x7d: excluded by configuration."),
  ("port.field.updated", "  \x7bapi\x7d: \x7bfield\x7d"),
  ("port.field.orphan", "\x7bapi\x7d: source \x7bfield\x7d has no counterpart in Docs."),
  ("write.saved", "Saved \x7bpath\x7d"),
  ("write.failed", "Could not write \x7bpath\x7d: \x7berror\x7d")]

def reporting : Wordings := [
  ("undoc.section.summary", "Undocumented summaries: \x7bcount\x7d"),
  ("undoc.section.remarks", "Undocumented remarks: \x7bcount\x7d"),
  ("undoc.section.returns", "Undocumented returns: \x7bcount\x7d"),
  ("undoc.section.value", "Undocumented values: \x7bcount\x7d"),
  ("undoc.section.param", "Undocumented params: \x7bcount\x7d"),
  ("undoc.section.typeparam", "Undocumented typeparams: \x7bcount\x7d"),
  ("undoc.section.exception", "Undocumented exceptions: \x7bcount\x7d"),
  ("undoc.item", "  \x7bapi\x7d"),
  ("undoc.total", "\x7bcount\x7d undocumented item(s) in total."),
  ("undoc.clean", "Everything is documented.")]

def files : List (Files.Place × Wordings) := [
  (["needle", "en", "cli.json"], commands),
  (["needle", "en", "load.json"], loading),
  (["needle", "en", "port.json"], merging),
  (["needle", "en", "undoc.json"], reporting)]

def tree : Files.Store := files.foldl (fun store file => store.addFile file.1 .empty) {}

end Standard

end DocMerge.Message

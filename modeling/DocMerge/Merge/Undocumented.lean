import DocMerge.Merge.Policy
import DocMerge.Message.Notice

/-!
# What is still undocumented

The report lists, field by field, the entries whose texts are empty. A summary that is absent counts
too; of the other fields only those that are there.
-/

namespace DocMerge.Merge

open Message (Notice)

structure Undocumented where
  summaries : List String := []
  remarks : List String := []
  returns : List String := []
  values : List String := []
  params : List String := []
  typeparams : List String := []
  exceptions : List String := []
  deriving DecidableEq, Repr

namespace Undocumented

def append (a b : Undocumented) : Undocumented :=
  { summaries := a.summaries ++ b.summaries
    remarks := a.remarks ++ b.remarks
    returns := a.returns ++ b.returns
    values := a.values ++ b.values
    params := a.params ++ b.params
    typeparams := a.typeparams ++ b.typeparams
    exceptions := a.exceptions ++ b.exceptions }

def ifEmpty (docId : String) (text : Option String) : List String :=
  if text.any isUndocumented then [docId] else []

def emptyNames (docId : String) (texts : List (String × String)) : List String :=
  (texts.filter (fun t => isUndocumented t.2)).map (fun t => docId ++ " (" ++ t.1 ++ ")")

def ofEntry (e : Entry) : Undocumented :=
  { summaries := if lacksText e.docs.summary then [e.docId] else []
    remarks := ifEmpty e.docId e.docs.remarks
    returns := ifEmpty e.docId e.docs.returns
    values := ifEmpty e.docId e.docs.value
    params := emptyNames e.docId e.docs.params
    typeparams := emptyNames e.docId e.docs.typeparams
    exceptions := emptyNames e.docId (e.docs.exceptions.map (fun x => (x.cref, x.text))) }

/-- The report on the types that the policy includes, and on their members. -/
def collect (policy : Policy) (types : List ApiType) : Undocumented :=
  ((types.filter (fun t => policy.includesType t.entry.node)).flatMap
    (fun t => t.entry :: t.members)).foldl (fun report e => report.append (ofEntry e)) {}

def total (u : Undocumented) : Nat :=
  u.summaries.length + u.remarks.length + u.returns.length + u.values.length + u.params.length +
    u.typeparams.length + u.exceptions.length

def sectionNotices (field : String) (items : List String) : List Notice :=
  if items.isEmpty then []
  else .undocumentedSection field items.length :: items.map .undocumentedItem

def notices (u : Undocumented) : List Notice :=
  sectionNotices "summary" u.summaries ++ sectionNotices "remarks" u.remarks ++
  sectionNotices "returns" u.returns ++
    sectionNotices "value" u.values ++ sectionNotices "param" u.params ++
    sectionNotices "typeparam" u.typeparams ++
    sectionNotices "exception" u.exceptions ++
    [if u.total = 0 then .allDocumented else .undocumentedTotal u.total]

end Undocumented

end DocMerge.Merge

import DocMerge.Proofs.Runs
import DocMerge.Proofs.Tokens

/-!
# Remarks can be told

The one fault of a merge is a text that names a code block which does not exist, and no text without
null characters does. So with a plain index the remarks of interface members can be taken down,
every source makes an offer, no merge ends in a fault, and a run has a result.
-/

namespace DocMerge.Merge

open DocId (Key)

-- ---------------------------------------------------------------------------
-- Plain texts
-- ---------------------------------------------------------------------------

def IsPlain (e : Entry) : Prop := ∀ text, e.docs.remarks = some text → '\x00' ∉ text.toList

def SourceIndex.entries (index : SourceIndex) : List Entry := index.types ++ index.members.map (·.2)

theorem SourceIndex.mem_of_findType? {index : SourceIndex} (h : index.findType? key = some e) :
    e ∈ index.entries :=
  List.mem_append_left _ (List.mem_of_find?_eq_some h)

theorem SourceIndex.mem_of_findMember? {index : SourceIndex}
    (h : index.findMember? typeKey key = some e) : e ∈ index.entries := by
  unfold findMember? at h
  obtain ⟨m, hm, rfl⟩ := Option.map_eq_some_iff.mp h
  exact List.mem_append_right _ (List.mem_map_of_mem (List.mem_of_find?_eq_some hm))

theorem mem_of_matchMember (h : matchMember policy index key m = .matched source) :
    source ∈ index.entries := by
  unfold matchMember at h
  split at h
  · simp at h
  · split at h
    · simp at h
    · split at h
      · rename_i hfound
        obtain rfl : _ = source := by simpa using h
        exact SourceIndex.mem_of_findMember? hfound
      · simp at h

theorem markdownOf_ok (h : '\x00' ∉ text.toList) : ∃ markdown, markdownOf text = .ok markdown := by
  obtain ⟨markdown, hmarkdown⟩ := Option.isSome_iff_exists.mp (markdown?_isSome h)
  exact ⟨markdown, by rw [markdownOf, hmarkdown]⟩

theorem ownRemarks_ok (h : IsPlain source) : ∃ own, ownRemarks source.docs = .ok own := by
  unfold ownRemarks
  refine markdownOf_ok ?_
  cases hremarks : source.docs.remarks with
  | none => simp
  | some text => exact h text hremarks

-- ---------------------------------------------------------------------------
-- Remarks of interface members
-- ---------------------------------------------------------------------------

namespace InterfaceRemarks

def Answers (r : InterfaceRemarks) : Prop := ∀ docId, ∃ found, r.lookup docId = .ok found

theorem remarksOf_ok (h : IsPlain source) : ∃ remarks, remarksOf source = .ok remarks := by
  unfold remarksOf
  split
  · rename_i text hremarks
    split
    · exact ⟨none, rfl⟩
    · obtain ⟨markdown, hmarkdown⟩ := markdownOf_ok (h text hremarks)
      exact ⟨some markdown, by rw [hmarkdown]; rfl⟩
  · exact ⟨none, rfl⟩

theorem findSource?_plain {r : InterfaceRemarks} {index : SourceIndex}
    (hindex : r.index = some index)
    (hplain : ∀ e ∈ index.entries, IsPlain e) (h : r.findSource? docId = some source) :
    IsPlain source := by
  rw [findSource?, hindex, Option.bind_some] at h
  exact hplain source (SourceIndex.mem_of_findMember? h)

theorem answers_of_plain {r : InterfaceRemarks} {index : SourceIndex}
    (hindex : r.index = some index)
    (hplain : ∀ e ∈ index.entries, IsPlain e) : r.Answers := by
  intro docId
  unfold lookup
  split
  · exact ⟨_, rfl⟩
  · split
    · rename_i source hfound
      obtain ⟨remarks, hremarks⟩ := remarksOf_ok (findSource?_plain hindex hplain hfound)
      exact ⟨_, by rw [hremarks]; rfl⟩
    · exact ⟨none, rfl⟩

theorem settledRemarks_ok {r : InterfaceRemarks} {index : SourceIndex}
    (hindex : r.index = some index) (hplain : ∀ e ∈ index.entries, IsPlain e) (member : Entry) :
    ∃ remarks, r.settledRemarks member = .ok remarks := by
  unfold settledRemarks
  split
  · unfold sourceRemarks
    split
    · rename_i source hfound
      obtain ⟨remarks, hremarks⟩ := remarksOf_ok (findSource?_plain hindex hplain hfound)
      exact ⟨_, by rw [hremarks]; rfl⟩
    · exact ⟨_, rfl⟩
  · exact ⟨_, rfl⟩

def takenDown (r : InterfaceRemarks) (members : List Entry) : List (Key × Option String) :=
  ((members.filter (·.key.isValid)).map fun m =>
    (m.key, (r.settledRemarks m).toOption.getD none)).reverse

theorem foldlM_addMember_eq_ok_iff {r s : InterfaceRemarks} {members : List Entry}
    {known : List (Key × Option String)} :
    members.foldlM addMember { r with known } = .ok s ↔
      (∀ m ∈ members, m.key.isValid = true → ∃ remarks, r.settledRemarks m = .ok remarks) ∧
        s = { r with known := r.takenDown members ++ known } := by
  induction members generalizing known with
  | nil => simpa [takenDown, pure, Except.pure] using eq_comm
  | cons m rest ih =>
    rw [List.foldlM_cons]
    cases hkey : m.key.isValid with
    | false =>
      have hstep : addMember { r with known } m = .ok { r with known } := by
        simp [addMember, hkey, pure, Except.pure]
      rw [hstep, show ((Except.ok { r with known } : Except Fault InterfaceRemarks) >>= fun s' =>
        rest.foldlM addMember s') = rest.foldlM addMember { r with known } from rfl, ih]
      simp [takenDown, hkey]
    | true =>
      cases hremarks : r.settledRemarks m with
      | error fault =>
        have hsame : settledRemarks { r with known } m = .error fault := hremarks
        simp [addMember, hkey, hsame, hremarks, bind, Except.bind]
      | ok remarks =>
        have hsame : settledRemarks { r with known } m = .ok remarks := hremarks
        have hstep : addMember { r with known } m =
            .ok { r with known := (m.key, remarks) :: known } := by
          simp [addMember, hkey, hsame, bind, Except.bind, pure, Except.pure]
        rw [hstep, show ((Except.ok { r with known := (m.key, remarks) :: known } :
          Except Fault InterfaceRemarks) >>= fun s' => rest.foldlM addMember s') =
            rest.foldlM addMember { r with known := (m.key, remarks) :: known } from rfl, ih]
        simp [takenDown, hkey, hremarks, Except.toOption]

theorem ofTypes_ok (policy : Policy) {source : SourceIndex}
    (hplain : ∀ e ∈ source.entries, IsPlain e) (types : List ApiType) :
    ofTypes policy (some source) types = .ok {
      policy
      index := some source
      known := takenDown { policy, index := some source } (types.flatMap (·.members)) } := by
  have h : (types.flatMap (·.members)).foldlM addMember
      { policy, index := some source, known := [] } = .ok _ :=
    (foldlM_addMember_eq_ok_iff (r := { policy, index := some source })).mpr
      ⟨fun m _ _ => settledRemarks_ok rfl hplain m, rfl⟩
  rwa [List.append_nil] at h

theorem blocks_ok {r : InterfaceRemarks} (h : r.Answers) (memberId : String)
    (docIds : List String) : ∃ texts, (r.blocks memberId docIds).2 = .ok texts := by
  induction docIds with
  | nil => exact ⟨[], rfl⟩
  | cons docId rest ih =>
    obtain ⟨found, hfound⟩ := h docId
    obtain ⟨texts, htexts⟩ := ih
    rw [blocks, hfound]
    cases found with
    | none => exact ⟨texts, htexts⟩
    | some remarks =>
      cases remarks with
      | none => exact ⟨texts, htexts⟩
      | some text =>
        dsimp only
        split
        · exact ⟨texts, htexts⟩
        · exact ⟨_, by rw [htexts]; rfl⟩

theorem resolve_ok {r : InterfaceRemarks} (h : r.Answers) (member : ApiNode) :
    ∃ text, (r.resolve member).2 = .ok text := by
  unfold resolve
  split
  · exact ⟨"", rfl⟩
  · obtain ⟨texts, htexts⟩ := blocks_ok h member.docId member.interfaceMembers
    exact ⟨_, by dsimp only; rw [htexts]; rfl⟩

end InterfaceRemarks

-- ---------------------------------------------------------------------------
-- Offers
-- ---------------------------------------------------------------------------

theorem composeRemarks_ok (h : IsPlain source)
    (hinterfaces : policy.skipInterfaceRemarks = true ∨ interfaces.Answers) (ownerId : String)
    (node : ApiNode) :
    ∃ text, (composeRemarks policy interfaces ownerId node source.docs).2 = .ok text := by
  obtain ⟨own, hown⟩ := ownRemarks_ok h
  unfold composeRemarks interfaceBlocks
  rw [hown]
  dsimp only
  split
  · rename_i hcopy
    rcases hinterfaces with hskip | hanswers
    · simp [hskip] at hcopy
    · obtain ⟨text, htext⟩ := InterfaceRemarks.resolve_ok hanswers node
      exact ⟨_, by dsimp only; rw [htext]; rfl⟩
  · exact ⟨_, rfl⟩

theorem typeOffer_ok (policy : Policy) (h : IsPlain source) :
    ∃ offer, typeOffer policy source.docs = .ok offer := by
  obtain ⟨own, hown⟩ := ownRemarks_ok h
  unfold typeOffer
  split
  · exact ⟨_, by rw [hown]; rfl⟩
  · exact ⟨_, rfl⟩

theorem memberOffer_ok (h : IsPlain source)
    (hinterfaces : policy.skipInterfaceRemarks = true ∨ interfaces.Answers) (ownerId : String)
    (node : ApiNode) :
    ∃ offer, memberOffer policy interfaces ownerId node source.docs = .ok offer := by
  unfold memberOffer memberRemarks
  split
  · obtain ⟨text, htext⟩ := composeRemarks_ok h hinterfaces ownerId node
    exact ⟨_, by dsimp only; rw [htext]; rfl⟩
  · exact ⟨_, rfl⟩

theorem entries_fault_eq_none (hplain : ∀ e ∈ index.entries, IsPlain e)
    (hinterfaces : policy.skipInterfaceRemarks = true ∨ interfaces.Answers) (type : ApiType) :
    (∀ source, index.findType? type.key = some source →
      (mergeTypeEntry policy type.entry source).fault = none) ∧
    ∀ m ∈ pairedMembers policy index type,
      (mergePaired policy interfaces type.docId m).fault = none := by
  constructor
  · intro source hsource
    obtain ⟨offer, hoffer⟩ :=
      typeOffer_ok policy (hplain source (SourceIndex.mem_of_findType? hsource))
    exact (mergeTypeEntry_of_ok hoffer).fault
  · intro m hm
    obtain ⟨member, -, rfl⟩ := List.mem_map.mp hm
    cases hfound : matchMember policy index type.key member with
    | matched source =>
      obtain ⟨offer, hoffer⟩ := memberOffer_ok (hplain source (mem_of_matchMember hfound))
        hinterfaces type.docId member.node
      exact (mergeMember_of_ok hoffer).fault
    | skipped | malformed | unmatched => rfl

theorem mergeType_ok (hplain : ∀ e ∈ index.entries, IsPlain e)
    (hinterfaces : policy.skipInterfaceRemarks = true ∨ interfaces.Answers) (type : ApiType) :
    (mergeType policy interfaces index type).fault = none := by
  obtain ⟨hown, hmembers⟩ := entries_fault_eq_none hplain hinterfaces type
  cases hsource : index.findType? type.key with
  | none => rw [mergeType_of_unmatched policy interfaces index type hsource]
  | some source =>
    rw [mergeType_of_ok policy interfaces index type hsource (hown source hsource) hmembers]
    rfl

-- ---------------------------------------------------------------------------
-- A run
-- ---------------------------------------------------------------------------

section
variable {α : Type} (setting : Setting α)

theorem renderAll_ok (hrender : ∀ d, ∃ content, setting.render d = .ok content)
    (documents : List (Document α)) (docIds : List String) :
    ∃ writes, renderAll setting documents docIds = .ok writes := by
  induction docIds with
  | nil => exact ⟨[], rfl⟩
  | cons docId rest ih =>
    obtain ⟨writes, hwrites⟩ := ih
    rw [renderAll]
    cases documentFor? documents docId with
    | none => exact ⟨writes, hwrites⟩
    | some d =>
      obtain ⟨content, hcontent⟩ := hrender d
      exact ⟨⟨d.path, content⟩ :: writes, by dsimp only; rw [hcontent, hwrites]; rfl⟩

/-- With a plain index, and if documents can be rendered, a run has a result. -/
theorem run_returns (hplain : ∀ e ∈ setting.index.entries, IsPlain e)
    (hinterfaces : setting.policy.skipInterfaceRemarks = true ∨ setting.interfaces.Answers)
    (hrender : ∀ d, ∃ content, setting.render d = .ok content) (root : Files.Path)
    (store : Files.Store) (documents : List (Document α)) :
    ∃ result, (run setting root store documents).result = .ok result := by
  have hfault : (Merges.ofDocuments setting documents).fault = none := by
    rw [Merges.ofDocuments_eq, Merges.foldl_fault]
    exact ⟨rfl, fun d _ _ => mergeType_ok hplain hinterfaces d.type⟩
  obtain ⟨_, hresult⟩ :=
    run_of_ok setting root store documents hfault (renderAll_ok setting hrender _ _)
  exact ⟨_, hresult⟩

end

-- ---------------------------------------------------------------------------
-- A small corpus
-- ---------------------------------------------------------------------------

namespace Small

def node (kind : ApiKind) (docId : String) (interfaceMembers : List String) : ApiNode :=
  { kind, docId, key := Key.ofDocId docId, interfaceMembers }

def index : SourceIndex where
  types := [
    { node := node .type "T:Stack" [], docs := { summary := some "Last in, first out." } },
    { node := node .type "T:Queue" [], docs := { summary := some "First in, first out." } }]
  members := [
    (Key.ofDocId "T:Stack", {
      node := node .member "M:Stack.Take" []
      docs := { remarks := some "Never waits.", exceptions := [⟨"T:Empty", "There is none."⟩] } }),
    (Key.ofDocId "T:Queue", {
      node := node .member "M:Queue.Take" []
      docs := { remarks := some "Takes the oldest." } })]

def setting (skipInterfaceRemarks : Bool) : Setting String where
  policy := { includedAssemblies := [""], skipInterfaceRemarks }
  interfaces := { policy := {}, index := none }
  index := index
  render d := .ok d.body

def document (name : String) (interfaceMembers : List String) : Document String where
  path := ⟨false, [name ++ ".xml"]⟩
  type := {
    entry := { node := node .type ("T:" ++ name) [], docs := { summary := some placeholder } }
    members := [{
      node := node .member ("M:" ++ name ++ ".Take") interfaceMembers
      docs := { remarks := some placeholder } }] }
  body := ""

def stack : Document String := document "Stack" []

def queue : Document String := document "Queue" ["M:Stack.Take"]

theorem index_plain : ∀ e ∈ index.entries, IsPlain e := by
  simp [SourceIndex.entries, index, IsPlain]

end Small

end DocMerge.Merge

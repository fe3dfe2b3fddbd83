import DocMerge.Proofs.Remarks

/-!
# How remarks are composed

Remarks composed for a member count unless its source has none that count, it receives no note, and
no interface member provides any. What an interface member provides is what was taken down for the
last member with its key, or what the index has.
-/

namespace DocMerge.Merge

open DocId (Key)

-- ---------------------------------------------------------------------------
-- Texts that count
-- ---------------------------------------------------------------------------

theorem mem_trim {c : Char} (h : c ∈ cs) (hc : Text.isBlank c = false) : c ∈ Text.trim cs := by
  have hstart : c ∈ Text.trimStart cs := by
    rw [← List.takeWhile_append_dropWhile (p := Text.isBlank) (l := cs), List.mem_append] at h
    rcases h with h | h
    · exact absurd (List.mem_takeWhile_imp h) (by simp [hc])
    · exact h
  obtain ⟨blanks, hblank, hend⟩ := Markdown.trimEnd_append (Text.trimStart cs)
  rw [hend, List.mem_append] at hstart
  rcases hstart with hstart | hstart
  · exact hstart
  · exact absurd (hblank c hstart) (by simp [hc])

theorem isUndocumented_of_mem {text : String} (h : '<' ∈ text.toList) :
    isUndocumented text = false := by
  have hmem : '<' ∈ (trimmed text).toList := by
    rw [trimmed, String.toList_ofList]
    exact mem_trim h (by decide)
  simp only [isUndocumented, Bool.or_eq_false_iff, beq_eq_false_iff_ne]
  constructor <;> intro heq <;> rw [heq] at hmem
  · simp at hmem
  · exact absurd hmem (by decide)

theorem mem_append_of_mem {c : Char} {text more : String} (h : c ∈ text.toList) :
    c ∈ (text ++ more).toList := by
  rw [String.toList_append]
  exact List.mem_append_left _ h

theorem mem_intercalate {c : Char} {separator text : String} {texts : List String}
    (h : text ∈ texts)
    (hc : c ∈ text.toList) : c ∈ (separator.intercalate texts).toList := by
  rw [String.toList_intercalate]
  induction texts with
  | nil => simp at h
  | cons first rest ih =>
    cases rest with
    | nil =>
      obtain rfl := List.mem_singleton.mp h
      simpa using hc
    | cons second rest =>
      rw [List.map_cons, List.map_cons, List.intercalate_cons_cons,
        List.mem_append, List.mem_append]
      rcases List.mem_cons.mp h with rfl | h
      · exact .inl (.inl hc)
      · exact .inr (ih h)

-- ---------------------------------------------------------------------------
-- Blocks
-- ---------------------------------------------------------------------------

namespace InterfaceRemarks

variable {r : InterfaceRemarks}

def Provides (r : InterfaceRemarks) (docId : String) : Prop :=
  ∃ text, r.lookup docId = .ok (some (some text)) ∧ text ≠ ""

theorem mem_block (docId remarks : String) : '<' ∈ (block docId remarks).toList :=
  mem_append_of_mem (mem_append_of_mem (mem_append_of_mem (by decide)))

/-- The blocks that a list of interface members makes up: none at all if none of them has
remarks. -/
theorem blocks_of_ok (h : (r.blocks memberId docIds).2 = .ok texts) :
    (∀ docId ∈ docIds, ∃ found, r.lookup docId = .ok found) ∧
      (texts = [] ↔ ∀ docId ∈ docIds, ¬ r.Provides docId) ∧ ∀ text ∈ texts, '<' ∈ text.toList := by
  induction docIds generalizing texts with
  | nil =>
    obtain rfl : [] = texts := by simpa [blocks] using h
    simp
  | cons docId rest ih =>
    rw [blocks] at h
    cases hlookup : r.lookup docId with
    | error fault => simp [hlookup] at h
    | ok found =>
      rw [hlookup] at h
      have hfirst : ∃ found, r.lookup docId = .ok found := ⟨found, hlookup⟩
      have hnone : (∀ text, found = some (some text) → text = "") → ¬ r.Provides docId := by
        rintro hempty ⟨text, htext, hne⟩
        rw [hlookup, Except.ok.injEq] at htext
        exact hne (hempty text htext)
      simp only [List.forall_mem_cons, hfirst, true_and]
      rcases found with _ | _ | text
      · obtain ⟨hall, hnil, hmem⟩ := ih h
        exact ⟨hall, by simp [hnil, hnone], hmem⟩
      · obtain ⟨hall, hnil, hmem⟩ := ih h
        exact ⟨hall, by simp [hnil, hnone], hmem⟩
      · dsimp only at h
        split at h
        · rename_i hempty
          obtain ⟨hall, hnil, hmem⟩ := ih h
          exact ⟨hall, by simp_all, hmem⟩
        · rename_i hne
          cases hmore : (r.blocks memberId rest).2 with
          | error fault => simp [hmore, Except.map] at h
          | ok more =>
            obtain rfl : block docId text :: more = texts := by simpa [hmore, Except.map] using h
            obtain ⟨hall, -, hmem⟩ := ih hmore
            have hprovides : r.Provides docId := ⟨text, hlookup, by simpa using hne⟩
            refine ⟨hall, by simp [hprovides], fun other hother => ?_⟩
            rcases List.mem_cons.mp hother with rfl | hother
            · exact mem_block docId text
            · exact hmem other hother

theorem blocks_isOk (h : ∀ docId ∈ docIds, ∃ found, r.lookup docId = .ok found)
    (memberId : String) :
    ∃ texts, (r.blocks memberId docIds).2 = .ok texts := by
  induction docIds with
  | nil => exact ⟨[], rfl⟩
  | cons docId rest ih =>
    obtain ⟨found, hfound⟩ := h docId List.mem_cons_self
    obtain ⟨texts, htexts⟩ := ih fun docId hdocId => h docId (List.mem_cons_of_mem _ hdocId)
    rw [blocks, hfound]
    rcases found with _ | _ | text
    · exact ⟨texts, htexts⟩
    · exact ⟨texts, htexts⟩
    · dsimp only
      split
      · exact ⟨texts, htexts⟩
      · exact ⟨_, by rw [htexts]; rfl⟩

end InterfaceRemarks

-- ---------------------------------------------------------------------------
-- Composed remarks
-- ---------------------------------------------------------------------------

/-- A policy under which members receive the remarks of interface members, and no text that counts
is replaced. -/
structure CopiesRemarks (policy : Policy) : Prop where
  copies : policy.skipInterfaceRemarks = false
  implementations : policy.skipImplementations = false
  members : policy.memberRemarks = true
  overwritten : policy.overwritten = []

theorem mem_explicitNotes (h : note ∈ explicitNotes policy ownerId node) : '<' ∈ note.toList := by
  unfold explicitNotes at h
  split at h
  · split at h
    · obtain rfl := List.mem_singleton.mp h
      exact mem_append_of_mem
        (mem_append_of_mem (mem_append_of_mem (mem_append_of_mem (by decide))))
    · simp at h
  · simp at h

section
variable {policy : Policy} (h : CopiesRemarks policy) {r : InterfaceRemarks}
  (hr : r.policy = policy)
include h hr

theorem interfaceBlocks_eq (node : ApiNode) :
    (interfaceBlocks policy r node).2 =
    (r.blocks node.docId node.interfaceMembers).2.map fun texts =>
      [InterfaceRemarks.separator.intercalate texts].filter (· != "") := by
  unfold interfaceBlocks InterfaceRemarks.resolve
  rw [hr, h.implementations, h.copies]
  cases hnone : node.interfaceMembers with
  | nil => simp [ApiNode.implementsInterface, hnone, InterfaceRemarks.blocks, Except.map]
  | cons first rest =>
    have himplements : node.implementsInterface = true := by
      simp [ApiNode.implementsInterface, hnone]
    simp only [himplements, Bool.not_false, Bool.and_self, if_true, Bool.false_eq_true, if_false]
    cases (r.blocks node.docId (first :: rest)).2 <;> rfl

/-- Composed remarks count unless the source has none that count and nothing is added to them. -/
theorem composeRemarks_of_ok {source : DocFields}
    (hok : (composeRemarks policy r ownerId node source).2 = .ok text) :
    (∀ docId ∈ node.interfaceMembers, ∃ found, r.lookup docId = .ok found) ∧
      ∃ own, ownRemarks source = .ok own ∧
        (isUndocumented text = true ↔ isUndocumented own = true ∧
          explicitNotes policy ownerId node = [] ∧
          ∀ docId ∈ node.interfaceMembers, ¬ r.Provides docId) := by
  unfold composeRemarks at hok
  cases hown : ownRemarks source with
  | error fault => simp [hown] at hok
  | ok own =>
    rw [hown] at hok
    dsimp only at hok
    rw [interfaceBlocks_eq h hr] at hok
    cases hblocks : (r.blocks node.docId node.interfaceMembers).2 with
    | error fault => simp [hblocks, Except.map] at hok
    | ok texts =>
      obtain ⟨hall, hnil, hmem⟩ := InterfaceRemarks.blocks_of_ok hblocks
      simp only [hblocks, Except.map, Except.ok.injEq] at hok
      refine ⟨hall, own, rfl, ?_⟩
      subst hok
      rw [← hnil]
      by_cases hnotes : explicitNotes policy ownerId node = []
      · cases texts with
        | nil =>
          have hjoined : InterfaceRemarks.separator.intercalate [] = "" := rfl
          have hsingle : InterfaceRemarks.separator.intercalate [own] = own := rfl
          by_cases hempty : own = "" <;> simp [hnotes, hjoined, hempty, hsingle]
        | cons first rest =>
          -- A block has markup in it, and so has the whole.
          have hfirst : '<' ∈ (InterfaceRemarks.separator.intercalate (first :: rest)).toList :=
            mem_intercalate List.mem_cons_self (hmem first List.mem_cons_self)
          have hne : (InterfaceRemarks.separator.intercalate (first :: rest) != "") = true := by
            simp only [bne_iff_ne]
            intro heq
            simp [heq] at hfirst
          rw [isUndocumented_of_mem (mem_intercalate _ hfirst)]
          · simp
          · simp [hne]
      · obtain ⟨note, hnote⟩ := List.exists_mem_of_ne_nil _ hnotes
        rw [isUndocumented_of_mem (mem_intercalate _ (mem_explicitNotes hnote))]
        · simp [hnotes]
        · simp [hnote]

theorem composeRemarks_isOk_iff {source : DocFields} :
    (∃ text, (composeRemarks policy r ownerId node source).2 = .ok text) ↔
      (∃ own, ownRemarks source = .ok own) ∧
        ∀ docId ∈ node.interfaceMembers, ∃ found, r.lookup docId = .ok found := by
  constructor
  · rintro ⟨text, hok⟩
    obtain ⟨hall, own, hown, -⟩ := composeRemarks_of_ok h hr hok
    exact ⟨⟨own, hown⟩, hall⟩
  · rintro ⟨⟨own, hown⟩, hall⟩
    obtain ⟨texts, htexts⟩ := InterfaceRemarks.blocks_isOk hall node.docId
    unfold composeRemarks
    simp only [hown, interfaceBlocks_eq h hr, htexts, Except.map]
    exact ⟨_, rfl⟩

end

-- ---------------------------------------------------------------------------
-- Remarks as they are taken down
-- ---------------------------------------------------------------------------

section
variable {α : Type}

/-- The last member with the key of a DocId, and its document. -/
def holder? (documents : List (Document α)) (docId : String) : Option (Document α × Entry) :=
  (documents.flatMap fun d => d.type.members.map (d, ·)).reverse.find?
    fun m => m.2.key.agrees (Key.ofDocId docId)

namespace InterfaceRemarks

variable {r s : InterfaceRemarks}

variable {documents : List (Document α)}

theorem ofTypes_eq_ok_iff {policy : Policy} {index : Option SourceIndex} :
    ofTypes policy index (documents.map (·.type)) = .ok s ↔
      (∀ d ∈ documents, ∀ m ∈ d.type.members, m.key.isValid = true →
        ∃ remarks, settledRemarks { policy, index } m = .ok remarks) ∧
      s = {
        policy, index
        known := takenDown { policy, index } (documents.flatMap (·.type.members)) } := by
  have h : (documents.flatMap (·.type.members)).foldlM addMember
      { policy, index, known := [] } = .ok s ↔ _ :=
    foldlM_addMember_eq_ok_iff (r := { policy, index })
  simp only [List.append_nil, List.mem_flatMap, forall_exists_index, and_imp] at h
  rw [ofTypes, List.flatMap_map]
  exact h.trans (and_congr_left fun _ =>
    ⟨fun h d hd m hm => h m d hd hm, fun h m d hd hm => h d hd m hm⟩)

theorem takenDown_find? (r : InterfaceRemarks) (key : Key) (members : List Entry) :
    (r.takenDown members).find? (fun k => k.1.agrees key) =
      (members.reverse.find? (·.key.agrees key)).map fun m =>
        (m.key, (r.settledRemarks m).toOption.getD none) := by
  rw [takenDown, ← List.map_reverse, List.find?_map, ← List.filter_reverse, List.find?_filter]
  congr 2
  funext m
  rw [Bool.eq_iff_iff, Function.comp_apply, decide_eq_true_iff, and_iff_right_iff_imp]
  exact fun h => (Key.agrees_iff.mp h).1

/-- An interface member is looked up where it was taken down last, or else in the index. -/
theorem lookup_of_ofTypes {policy : Policy} {index : Option SourceIndex}
    (h : ofTypes policy index (documents.map (·.type)) = .ok s) (docId : String) :
    s.lookup docId =
      match holder? documents docId with
      | some (_, m) => (s.settledRemarks m).map some
      | none =>
        match s.findSource? docId with
        | some source => (remarksOf source).map some
        | none => .ok none := by
  obtain ⟨hok, rfl⟩ := ofTypes_eq_ok_iff.mp h
  have hmembers : documents.flatMap (·.type.members) =
      (documents.flatMap fun d => d.type.members.map (d, ·)).map (·.2) := by
    simp [List.map_flatMap, Function.comp_def]
  rw [lookup, takenDown_find?, hmembers, ← List.map_reverse, List.find?_map, Option.map_map]
  unfold holder?
  simp only [Function.comp_def]
  cases hholder : (documents.flatMap fun d => d.type.members.map (d, ·)).reverse.find?
      fun m => m.2.key.agrees (Key.ofDocId docId) with
  | none => rfl
  | some found =>
    have hkey : found.2.key.agrees (Key.ofDocId docId) = true :=
      List.find?_some (p := fun m : Document α × Entry =>
        m.2.key.agrees (Key.ofDocId docId)) hholder
    have hmem := List.mem_of_find?_eq_some hholder
    rw [List.mem_reverse, List.mem_flatMap] at hmem
    obtain ⟨d, hd, hmem⟩ := hmem
    obtain ⟨m, hm, rfl⟩ := List.mem_map.mp hmem
    obtain ⟨remarks, hremarks⟩ := hok d hd m hm (Key.agrees_iff.mp hkey).1
    have hsame (known : List (Key × Option String)) :
        settledRemarks { policy, index, known } m = .ok remarks := hremarks
    simp [hremarks, hsame, Except.map, Except.toOption]

theorem settledRemarks_ne_empty {m : Entry} (h : s.settledRemarks m = .ok (some text)) :
    text ≠ "" := by
  have hcounts : ∀ known : Option String,
      (if lacksText known then none else known.map trimmed) = some text → text ≠ "" := by
    rintro known hknown rfl
    cases known with
    | none => simp [lacksText] at hknown
    | some known => grind [lacksText, isUndocumented]
  unfold settledRemarks at h
  split at h
  · cases hsource : s.sourceRemarks m.docId with
    | error fault => simp [hsource, bind, Except.bind] at h
    | ok known =>
      exact hcounts known (by simpa [hsource, bind, Except.bind, pure, Except.pure] using h)
  · exact hcounts m.docs.remarks (by simpa [bind, Except.bind, pure, Except.pure] using h)

theorem settledRemarks_of_documented {m : Entry} (hremarks : m.docs.remarks = some text)
    (hdoc : isUndocumented text = false) : s.settledRemarks m = .ok (some (trimmed text)) := by
  simp [settledRemarks, hremarks, lacksText, hdoc, bind, Except.bind, pure, Except.pure]

theorem settledRemarks_congr {m m' : Entry} (hindex : r.index = s.index)
    (hdocId : m'.docId = m.docId)
    (hremarks : m'.docs.remarks = m.docs.remarks) : r.settledRemarks m' = s.settledRemarks m := by
  simp only [settledRemarks, sourceRemarks, findSource?, hindex, hdocId, hremarks]

end InterfaceRemarks

end

end DocMerge.Merge

import DocMerge.Merge.SourceIndex

/-!
# What an index finds

`build_indexes`: an index is built from entries in the order of their files and DocIds, and what it
finds under a key is the last entry that has the key. No entry gets lost: each is found, or has been
replaced by a later one, or has no place. In which order the entries were given matters only among
those of one file and one DocId, since their order is kept.
-/

namespace DocMerge.Merge

open DocId (Key)

-- ---------------------------------------------------------------------------
-- The order of entries
-- ---------------------------------------------------------------------------

def Entry.isFrom (path docId : String) (e : Entry) : Bool :=
  e.node.sourcePath == path && e.docId == docId

/-- The same entries, where those of one file and one DocId come in the same order. -/
structure Rearranges (entries others : List Entry) : Prop where
  perm : others.Perm entries
  kept : ∀ path docId, others.filter (Entry.isFrom path docId) =
    entries.filter (Entry.isFrom path docId)

structure IsOrdered (entries ordered : List Entry) : Prop extends Rearranges entries ordered where
  sorted : ordered.Pairwise fun a b =>
    a.node.sourcePath < b.node.sourcePath ∨ a.node.sourcePath =
    b.node.sourcePath ∧ a.docId ≤ b.docId

theorem Rearranges.trans (h : Rearranges a b) (h' : Rearranges b c) : Rearranges a c :=
  ⟨h'.perm.trans h.perm, fun path docId => (h'.kept path docId).trans (h.kept path docId)⟩

theorem Rearranges.swap (h : a.node.sourcePath ≠ b.node.sourcePath) (rest : List Entry) :
    Rearranges (a :: b :: rest) (b :: a :: rest) where
  perm := List.Perm.swap a b rest
  kept path docId := by
    have hone : Entry.isFrom path docId a = true → Entry.isFrom path docId b = false := by
      simp only [Entry.isFrom, Bool.and_eq_true, beq_iff_eq, Bool.and_eq_false_iff,
        beq_eq_false_iff_ne]
      rintro ⟨rfl, -⟩
      exact .inl h.symm
    cases ha : Entry.isFrom path docId a <;> simp_all [List.filter_cons]

namespace SourceIndex

theorem entryLE_iff {a b : Entry} :
    entryLE a b = true ↔ a.node.sourcePath < b.node.sourcePath ∨
      a.node.sourcePath = b.node.sourcePath ∧ a.docId ≤ b.docId := by
  simp [entryLE]

theorem entryLE_trans (a b c : Entry) (hab : entryLE a b = true) (hbc : entryLE b c = true) :
    entryLE a c = true := by
  rw [entryLE_iff] at *
  rcases hab with hab | ⟨hab, hid⟩ <;> rcases hbc with hbc | ⟨hbc, hid'⟩
  · exact .inl (String.lt_trans hab hbc)
  · exact .inl (hbc ▸ hab)
  · exact .inl (hab ▸ hbc)
  · exact .inr ⟨hab.trans hbc, String.le_trans hid hid'⟩

theorem entryLE_total (a b : Entry) : (entryLE a b || entryLE b a) = true := by
  rw [Bool.or_eq_true, entryLE_iff, entryLE_iff]
  by_cases hlt : a.node.sourcePath < b.node.sourcePath
  · exact .inl (.inl hlt)
  · by_cases hgt : b.node.sourcePath < a.node.sourcePath
    · exact .inr (.inl hgt)
    · have hpath := String.le_antisymm (String.not_lt.mp hgt) (String.not_lt.mp hlt)
      exact (String.le_total a.docId b.docId).imp (fun h => .inr ⟨hpath, h⟩)
        fun h => .inr ⟨hpath.symm, h⟩

theorem entryLE_antisymm {a b : Entry} (hab : entryLE a b = true) (hba : entryLE b a = true) :
    a.node.sourcePath = b.node.sourcePath ∧ a.docId = b.docId := by
  rw [entryLE_iff] at *
  rcases hab with hab | ⟨hab, hid⟩ <;> rcases hba with hba | ⟨hba, hid'⟩
  · exact absurd (String.lt_trans hab hba) (String.lt_irrefl _)
  · exact absurd (hba ▸ hab) (String.lt_irrefl _)
  · exact absurd (hab ▸ hba) (String.lt_irrefl _)
  · exact ⟨hab, String.le_antisymm hid hid'⟩

end SourceIndex

open SourceIndex (entryLE entryLE_iff entryLE_trans entryLE_total entryLE_antisymm)

theorem mergeSort_isOrdered (entries : List Entry) :
    IsOrdered entries (entries.mergeSort entryLE) where
  perm := List.mergeSort_perm entries entryLE
  kept path docId := by
    -- Entries of one file and one DocId are sorted already, so that the sort keeps them in a row.
    have hsame : (entries.filter (Entry.isFrom path docId)).Pairwise fun a b =>
        entryLE a b = true := by
      refine List.pairwise_filter.mpr (List.pairwise_of_forall fun a b ha hb => ?_)
      simp only [Entry.isFrom, Bool.and_eq_true, beq_iff_eq] at ha hb
      exact entryLE_iff.mpr (.inr ⟨ha.1.trans hb.1.symm, (ha.2.trans hb.2.symm) ▸ String.le_refl _⟩)
    have hsub := (List.sublist_mergeSort entryLE_trans entryLE_total hsame
      List.filter_sublist).filter (Entry.isFrom path docId)
    simp only [List.filter_filter, Bool.and_self] at hsub
    exact (hsub.eq_of_length
      ((List.mergeSort_perm entries entryLE).filter _).length_eq.symm).symm
  sorted := (List.pairwise_mergeSort entryLE_trans entryLE_total entries).imp entryLE_iff.mp

theorem IsOrdered.unique (h : IsOrdered entries first) (h' : IsOrdered entries second) :
    first = second := by
  have hperm : first.Perm second := h.perm.trans h'.perm.symm
  have hkept : ∀ path docId,
      first.filter (Entry.isFrom path docId) = second.filter (Entry.isFrom path docId) :=
    fun path docId => (h.kept path docId).trans (h'.kept path docId).symm
  have hsorted := h.sorted
  have hsorted' := h'.sorted
  clear h h'
  induction first generalizing second with
  | nil => exact hperm.nil_eq
  | cons x first ih =>
    cases second with
    | nil => simp at hperm
    | cons y second =>
      rw [List.pairwise_cons] at hsorted hsorted'
      -- Both heads are least, so they come from one file under one DocId.
      have hplace : x.node.sourcePath = y.node.sourcePath ∧ x.docId = y.docId := by
        rcases List.mem_cons.mp (hperm.mem_iff.mpr List.mem_cons_self) with hy | hy
        · exact ⟨by rw [hy], by rw [hy]⟩
        · rcases List.mem_cons.mp (hperm.mem_iff.mp List.mem_cons_self) with hx | hx
          · exact ⟨by rw [hx], by rw [hx]⟩
          · exact entryLE_antisymm (entryLE_iff.mpr (hsorted.1 y hy))
              (entryLE_iff.mpr (hsorted'.1 x hx))
      have hx : Entry.isFrom x.node.sourcePath x.docId x = true := by simp [Entry.isFrom]
      have hy : Entry.isFrom x.node.sourcePath x.docId y = true := by
        simp [Entry.isFrom, hplace]
      have hheads := hkept x.node.sourcePath x.docId
      rw [List.filter_cons_of_pos hx, List.filter_cons_of_pos hy] at hheads
      obtain rfl : x = y := (List.cons.inj hheads).1
      rw [ih hperm.cons_inv (fun path docId => ?_) hsorted.2 hsorted'.2]
      have htail := hkept path docId
      rw [List.filter_cons, List.filter_cons] at htail
      split at htail
      · exact (List.cons.inj htail).2
      · exact htail

-- ---------------------------------------------------------------------------
-- Replacing the first
-- ---------------------------------------------------------------------------

theorem replaceFirst_old (replaces : β → Bool) (x : β) (ys : List β) :
    (replaceFirst replaces x ys).1 = ys.find? replaces := by
  induction ys with
  | nil => rfl
  | cons y rest ih =>
    rw [replaceFirst, List.find?_cons]
    cases replaces y with
    | true => rfl
    | false => exact ih

theorem replaceFirst_length (replaces : β → Bool) (x : β) (ys : List β) :
    (replaceFirst replaces x ys).2.length + (ys.find? replaces).toList.length = ys.length + 1 := by
  induction ys with
  | nil => rfl
  | cons y rest ih =>
    rw [replaceFirst, List.find?_cons]
    cases replaces y with
    | true => rfl
    | false =>
      simp only [Bool.false_eq_true, if_false, List.length_cons] at ih ⊢
      omega

/-- What is found after a replacement, where exactly those are replaced that are found with the new
one. -/
theorem replaceFirst_find? (replaces p : β → Bool) (x : β) (ys : List β)
    (h : ∀ y, (p x = true → replaces y = p y) ∧ (p x = false → replaces y = true → p y = false)) :
    (replaceFirst replaces x ys).2.find? p = if p x then some x else ys.find? p := by
  induction ys with
  | nil => cases hx : p x <;> simp [replaceFirst, hx]
  | cons y rest ih =>
    rw [replaceFirst]
    cases hx : p x with
    | true =>
      have hy := (h y).1 hx
      rw [hx] at ih
      cases hr : replaces y <;> rw [hr] at hy <;> simp [← hy, hx, ih]
    | false =>
      have hy := (h y).2 hx
      rw [hx] at ih
      cases hr : replaces y with
      | true => simp [hx, hy hr]
      | false => simp [List.find?_cons, ih]

-- ---------------------------------------------------------------------------
-- One entry
-- ---------------------------------------------------------------------------

def isTypeUnder (key : Key) (e : Entry) : Bool := e.node.kind == .type && e.key.agrees key

def isMemberUnder (typeKey key : Key) (e : Entry) : Bool :=
  e.node.kind == .member && (Key.ofContainingType e.docId).agrees typeKey && e.key.agrees key

namespace SourceIndex

theorem agrees_of_agrees (a b key : Key) :
    (b.agrees key = true → a.agrees b = a.agrees key) ∧
      (b.agrees key = false → a.agrees b = true → a.agrees key = false) := by
  constructor
  · intro h
    rw [(Key.agrees_iff.mp h).2]
  · intro h hab
    rw [(Key.agrees_iff.mp hab).2, h]

def given (index : SourceIndex) : Nat :=
  index.size + index.duplicates.length + index.malformed.length

structure Adds (index : SourceIndex) (e : Entry) (after : SourceIndex) : Prop where
  type : ∀ key, after.findType? key = if isTypeUnder key e then some e else index.findType? key
  member : ∀ typeKey key, after.findMember? typeKey key =
    if isMemberUnder typeKey key e then some e else index.findMember? typeKey key
  given : after.given = index.given + 1

theorem addType_findType? (index : SourceIndex) (e : Entry) (key : Key) :
    (index.addType e).2.findType? key = if e.key.agrees key then some e
      else index.findType? key := by
  rw [findType?, addType, findType?]
  exact replaceFirst_find? (·.key.agrees e.key) (·.key.agrees key) e index.types
    fun t => agrees_of_agrees t.key e.key key

theorem addType_size (index : SourceIndex) (e : Entry) :
    (index.addType e).2.size + (index.addType e).1.toList.length = index.size + 1 := by
  have hlength := replaceFirst_length (fun t => t.key.agrees e.key) e index.types
  simp only [addType, size, replaceFirst_old]
  omega

theorem addMember_findMember? (index : SourceIndex) (place : Key) (e : Entry) (typeKey key : Key) :
    (index.addMember place e).2.findMember? typeKey key =
      if place.agrees typeKey && e.key.agrees key then some e
      else index.findMember? typeKey key := by
  have hfind := replaceFirst_find? (fun m => m.1.agrees place && m.2.key.agrees e.key)
    (fun m => m.1.agrees typeKey && m.2.key.agrees key) (place, e) index.members fun m => by
      obtain ⟨hsame, hother⟩ := agrees_of_agrees m.1 place typeKey
      obtain ⟨hsame', hother'⟩ := agrees_of_agrees m.2.key e.key key
      simp only [Bool.and_eq_true, Bool.and_eq_false_iff]
      constructor
      · rintro ⟨h, h'⟩
        rw [hsame h, hsame' h']
      · rintro (h | h) ⟨hm, hm'⟩
        · exact .inl (hother h hm)
        · exact .inr (hother' h hm')
  rw [findMember?, addMember, hfind, findMember?]
  split <;> simp_all

theorem addMember_size (index : SourceIndex) (place : Key) (e : Entry) :
    (index.addMember place e).2.size + (index.addMember place e).1.toList.length =
    index.size + 1 := by
  have hlength := replaceFirst_length (fun m => m.1.agrees place && m.2.key.agrees e.key) (place, e)
    index.members
  simp only [addMember, size, replaceFirst_old, Option.toList_map, List.length_map]
  omega

theorem isUnder_eq (e : Entry) :
    (∀ key, isTypeUnder key e = (placeOf? e == some none && e.key.agrees key)) ∧
      ∀ typeKey key, isMemberUnder typeKey key e =
        ((placeOf? e).any (·.any (·.agrees typeKey)) && e.key.agrees key) := by
  have hinvalid : ∀ {a b : Key}, a.isValid = false → a.agrees b = false := by
    intro a b ha
    cases a <;> simp_all [Key.isValid, Key.agrees]
  have hmember : (ApiKind.member == ApiKind.type) = false := rfl
  have htype : (ApiKind.type == ApiKind.member) = false := rfl
  unfold isTypeUnder isMemberUnder placeOf?
  cases hkey : e.key.isValid with
  | false => simp [hinvalid hkey]
  | true =>
    cases hkind : e.node.kind with
    | type => simp [htype]
    | member =>
      cases howner : (Key.ofContainingType e.docId).isValid with
      | false => simp [hmember, howner, hinvalid howner]
      | true => simp [hmember, howner]

structure Stores (index : SourceIndex) (e : Entry) (stored : Option Entry × SourceIndex) :
    Prop where
  type : ∀ key, stored.2.findType? key = if isTypeUnder key e then some e else index.findType? key
  member : ∀ typeKey key, stored.2.findMember? typeKey key =
    if isMemberUnder typeKey key e then some e else index.findMember? typeKey key
  size : stored.2.size + stored.1.toList.length = index.size + 1
  duplicates : stored.2.duplicates = index.duplicates
  malformed : stored.2.malformed = index.malformed

theorem add_stores (index : SourceIndex) (h : placeOf? e = some place) :
    Stores index e (index.add e place) := by
  obtain ⟨htype, hmember⟩ := isUnder_eq e
  simp only [h] at htype hmember
  cases place with
  | none =>
    refine ⟨fun key => ?_, fun typeKey key => ?_, addType_size index e, rfl, rfl⟩
    · simpa [htype, add] using addType_findType? index e key
    · simp [hmember, add, addType, findMember?]
  | some typeKey =>
    refine ⟨fun key => ?_, fun owner key => ?_, addMember_size index typeKey e, rfl, rfl⟩
    · simp [htype, add, addMember, findType?]
    · simpa [hmember, add] using addMember_findMember? index typeKey e owner key

theorem record_adds (index : SourceIndex) (e : Entry) : Adds index e (index.record e).1 := by
  unfold record
  cases hplace : placeOf? e with
  | none =>
    obtain ⟨htype, hmember⟩ := isUnder_eq e
    simp only [hplace] at htype hmember
    refine ⟨fun key => ?_, fun typeKey key => ?_, ?_⟩
    · rw [htype]; rfl
    · rw [hmember]; rfl
    · simp only [given, size, List.length_append, List.length_singleton]
      omega
  | some place =>
    have hstores := add_stores index hplace
    revert hstores
    dsimp only
    generalize index.add e place = stored
    obtain ⟨old, after⟩ := stored
    intro hstores
    have hsize := hstores.size
    have hduplicates := congrArg List.length hstores.duplicates
    have hmalformed := congrArg List.length hstores.malformed
    cases old with
    | none =>
      refine ⟨hstores.type, hstores.member, ?_⟩
      simp only [given, Option.toList_none, List.length_nil] at *
      omega
    | some old =>
      refine ⟨hstores.type, hstores.member, ?_⟩
      simp only [given, size, Option.toList_some, List.length_append, List.length_singleton] at *
      omega

-- ---------------------------------------------------------------------------
-- All entries
-- ---------------------------------------------------------------------------

/-- What an index finds once entries have been added to it, and how many it has been given. -/
structure AddsAll (index : SourceIndex) (entries : List Entry) (after : SourceIndex) : Prop where
  type : ∀ key, after.findType? key =
    (entries.filter (isTypeUnder key)).getLast?.or (index.findType? key)
  member : ∀ typeKey key, after.findMember? typeKey key =
    (entries.filter (isMemberUnder typeKey key)).getLast?.or (index.findMember? typeKey key)
  given : after.given = index.given + entries.length

theorem getLast?_filter_cons (p : Entry → Bool) (e : Entry) (rest : List Entry)
    (found : Option Entry) :
    ((e :: rest).filter p).getLast?.or found =
      (rest.filter p).getLast?.or (if p e then some e else found) := by
  cases hp : p e with
  | false => simp [hp]
  | true => cases hlast : (rest.filter p).getLast? <;> simp [hp, List.getLast?_cons, hlast]

theorem recordAll_adds (index : SourceIndex) (entries : List Entry) :
    AddsAll index entries (index.recordAll entries).1 := by
  induction entries generalizing index with
  | nil => exact ⟨fun _ => rfl, fun _ _ => rfl, rfl⟩
  | cons e rest ih =>
    have hfirst := record_adds index e
    have hrest := ih (index.record e).1
    rw [recordAll]
    refine ⟨fun key => ?_, fun typeKey key => ?_, ?_⟩
    · rw [getLast?_filter_cons, ← hfirst.type]
      exact hrest.type key
    · rw [getLast?_filter_cons, ← hfirst.member]
      exact hrest.member typeKey key
    · rw [List.length_cons, Nat.add_comm rest.length, ← Nat.add_assoc, ← hfirst.given]
      exact hrest.given

theorem find_eq_none_iff (h : IsOrdered entries ordered) (p : Entry → Bool) :
    (ordered.filter p).getLast? = none ↔ ∀ e ∈ entries, p e = false := by
  simp [h.perm.mem_iff]

/-- An index finds under a key the last entry that has it, in the order of files and DocIds, and it
accounts for every entry. Another arrangement of the entries that keeps those of one file and one
DocId in their order makes the same index. -/
theorem build_indexes (entries : List Entry) :
    (∀ others, Rearranges entries others → build others = build entries) ∧
    ∃ ordered, IsOrdered entries ordered ∧
      let index := (build entries).1
      (∀ key, index.findType? key = (ordered.filter (isTypeUnder key)).getLast?) ∧
      (∀ typeKey key, index.findMember? typeKey key =
        (ordered.filter (isMemberUnder typeKey key)).getLast?) ∧
      (∀ key, index.findType? key = none ↔ ∀ e ∈ entries, isTypeUnder key e = false) ∧
      (∀ typeKey key, index.findMember? typeKey key = none ↔
        ∀ e ∈ entries, isMemberUnder typeKey key e = false) ∧
      index.size + index.duplicates.length + index.malformed.length = entries.length := by
  have hordered := mergeSort_isOrdered entries
  have hadds := recordAll_adds {} (entries.mergeSort entryLE)
  have htype : ∀ key, (build entries).1.findType? key =
      ((entries.mergeSort entryLE).filter (isTypeUnder key)).getLast? :=
    fun key => (hadds.type key).trans Option.or_none
  have hmember : ∀ typeKey key, (build entries).1.findMember? typeKey key =
      ((entries.mergeSort entryLE).filter (isMemberUnder typeKey key)).getLast? :=
    fun typeKey key => (hadds.member typeKey key).trans Option.or_none
  constructor
  · intro others hothers
    have hsorted := mergeSort_isOrdered others
    have hsame : others.mergeSort entryLE = entries.mergeSort entryLE :=
      IsOrdered.unique ⟨hothers.trans hsorted.toRearranges, hsorted.sorted⟩ hordered
    rw [build, build, hsame]
  · refine ⟨_, hordered, htype, hmember, fun key => ?_, fun typeKey key => ?_, ?_⟩
    · rw [htype]
      exact find_eq_none_iff hordered _
    · rw [hmember]
      exact find_eq_none_iff hordered _
    · have hgiven := hadds.given
      rw [List.length_mergeSort] at hgiven
      exact hgiven.trans (Nat.zero_add _)

theorem build_indexes_small :
    let stack (path : String) : Entry :=
      { node :=
          { kind := .type, docId := "T:Stack", key := Key.ofDocId "T:Stack", sourcePath := path } }
    Rearranges [stack "a.xml", stack "b.xml"] [stack "b.xml", stack "a.xml"] ∧
      build [stack "b.xml", stack "a.xml"] = build [stack "a.xml", stack "b.xml"] := by
  intro stack
  have hmoved : Rearranges [stack "a.xml", stack "b.xml"] [stack "b.xml", stack "a.xml"] :=
    Rearranges.swap (by decide) []
  exact ⟨hmoved, (build_indexes _).1 _ hmoved⟩

end SourceIndex

end DocMerge.Merge

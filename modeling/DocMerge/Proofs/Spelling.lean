import DocMerge.Merge.Corpus
import DocMerge.Merge.Pairing
import DocMerge.Proofs.Indexing

/-!
# What matching reads of a DocId

An index is built of entries whose DocIds may be spelled in several ways.
`respelling_keeps_matches`: a source entry may be replaced by one with the same canonical key
exactly if both have the same place among the others, as a type or as a member of a type that they
declare. The canonical key does not tell the place: `spelling_decides` has two spellings of a type
and two of a member with the same key, of which one is matched and the other is not.
-/

namespace DocMerge

open DocId (Key)

-- ---------------------------------------------------------------------------
-- Entries with the kind and the key that their DocIds give them
-- ---------------------------------------------------------------------------

def ApiKind.ofDocId (docId : String) : ApiKind :=
  if Text.hasStart ['T', ':'] docId.toList then .type else .member

/-- Whether an entry has the kind and the key that its DocId gives to an entry of a source. -/
structure Entry.IsNamed (e : Entry) : Prop where
  kind : e.node.kind = .ofDocId e.docId
  key : e.key = Key.ofDocId e.docId

theorem Entry.ofMember_isNamed (path assembly : String) (outer : Xml.Scope) (member : Xml.Element) :
    (Entry.ofMember path assembly outer member).IsNamed :=
  ⟨rfl, rfl⟩

/-- Whatever entries are read from assembly files are named. -/
theorem Merge.Found.entries_isNamed (policy : Policy) (store : Files.Store)
    (directories : List Files.Path) :
    ∀ e ∈ (Found.entries policy store directories).items, e.IsNamed := by
  intro e he
  simp only [Found.entries, Found.collect, List.mem_flatMap, List.mem_map] at he
  obtain ⟨_, ⟨path, -, rfl⟩, he⟩ := he
  unfold Found.entriesAt at he
  cases hread : Xml.File.read store path with
  | error => simp [hread] at he
  | ok file =>
    simp only [hread] at he
    split at he
    · simp at he
    split at he
    · simp only [Entry.ofAssemblyFile, List.mem_flatMap, List.mem_map] at he
      obtain ⟨members, -, member, -, rfl⟩ := he
      exact Entry.ofMember_isNamed path.toString _ _ member
    · simp at he

structure ApiType.IsNamed (t : ApiType) : Prop where
  type : t.key = Key.ofDocId t.docId
  members : ∀ m ∈ t.members, m.key = Key.ofDocId m.docId

namespace Merge

-- ---------------------------------------------------------------------------
-- What is matched
-- ---------------------------------------------------------------------------

/-- The members of a matched type that are not skipped, each with whether it has a source; nothing
for a type that is not matched. -/
def matches? (policy : Policy) (index : SourceIndex) (type : ApiType) :
    Option (List (Entry × Bool)) :=
  (Pairing.of? policy index type).map fun p => p.paired.map fun m => (m.1, m.2.isSome)

theorem matchMember_eq_skipped_iff :
    matchMember policy index typeKey m = .skipped ↔
      (policy.skipImplementations && m.node.implementsInterface) = true := by
  unfold matchMember
  split
  · simp [*]
  · split
    · simp [*]
    · split <;> simp [*]

theorem matchMember_isSome
    (h : (policy.skipImplementations && m.node.implementsInterface) = false) :
    (matchMember policy index typeKey m).source?.isSome =
      (m.key.isValid && (index.findMember? typeKey m.key).isSome) := by
  unfold matchMember
  rw [h]
  cases hvalid : m.key.isValid with
  | false => simp [MemberMatch.source?]
  | true => cases index.findMember? typeKey m.key <;> simp [MemberMatch.source?]

/-- What is matched depends only on what is found, and not on the entries that are found. -/
theorem matches?_eq (policy : Policy) (index : SourceIndex) (type : ApiType) :
    matches? policy index type =
      if (index.findType? type.key).isSome then
        some ((type.members.filter fun m =>
          !(policy.skipImplementations && m.node.implementsInterface)).map fun m =>
            (m, m.key.isValid && (index.findMember? type.key m.key).isSome))
      else none := by
  have hskipped : ∀ m, (matchMember policy index type.key m != .skipped) =
      !(policy.skipImplementations && m.node.implementsInterface) := by
    intro m
    rw [Bool.eq_iff_iff, bne_iff_ne, ne_eq, matchMember_eq_skipped_iff, Bool.not_eq_true',
      Bool.not_eq_true]
  unfold matches? Pairing.of? Pairing.paired
  cases index.findType? type.key with
  | none => rfl
  | some source =>
    simp only [Option.map_some, Option.isSome_some, if_true, List.filter_map, List.map_map,
      Option.some.injEq, Function.comp_def, hskipped]
    refine List.map_congr_left fun m hm => ?_
    have hmerged := (List.mem_filter.mp hm).2
    rw [matchMember_isSome (by rwa [Bool.not_eq_true'] at hmerged)]

-- ---------------------------------------------------------------------------
-- What an index finds
-- ---------------------------------------------------------------------------

namespace SourceIndex

theorem findType?_isSome (entries : List Entry) (key : Key) :
    ((build entries).1.findType? key).isSome = entries.any (isTypeUnder key) := by
  have hadds := (recordAll_adds {} (entries.mergeSort entryLE)).type key
  have hnone := find_eq_none_iff (mergeSort_isOrdered entries) (isTypeUnder key)
  rw [build, hadds, Bool.eq_iff_iff, Option.isSome_iff_ne_none, ne_eq, findType?, List.find?_nil,
    Option.or_none, hnone]
  simp

theorem findMember?_isSome (entries : List Entry) (typeKey key : Key) :
    ((build entries).1.findMember? typeKey key).isSome =
    entries.any (isMemberUnder typeKey key) := by
  have hadds := (recordAll_adds {} (entries.mergeSort entryLE)).member typeKey key
  have hnone := find_eq_none_iff (mergeSort_isOrdered entries) (isMemberUnder typeKey key)
  rw [build, hadds, Bool.eq_iff_iff, Option.isSome_iff_ne_none, ne_eq, findMember?, List.find?_nil,
    Option.map_none, Option.or_none, hnone]
  simp

/-- The place of an entry among others: that of a type, or that of a member of a type that one of
the others declares. A member of any other type is not found. -/
def placeAmong (others : List Entry) (e : Entry) : Option (Option Key) :=
  (placeOf? e).filter fun place => place.all fun typeKey => others.any (isTypeUnder typeKey)

theorem isTypeUnder_eq (others : List Entry) (key : Key) (e : Entry) :
    isTypeUnder key e = (placeAmong others e == some none && e.key.agrees key) := by
  rw [(isUnder_eq e).1, placeAmong]
  rcases placeOf? e with _ | _ | typeKey
  · rfl
  · rfl
  · cases others.any (isTypeUnder typeKey) <;> simp

/-- Under a type that one of the others declares, an entry is found by its place among them. -/
theorem isMemberUnder_eq {others : List Entry} {typeKey : Key}
    (h : others.any (isTypeUnder typeKey) = true) (key : Key) (e : Entry) :
    isMemberUnder typeKey key e =
      ((placeAmong others e).any (·.any (·.agrees typeKey)) && e.key.agrees key) := by
  rw [(isUnder_eq e).2, placeAmong]
  rcases placeOf? e with _ | _ | owner
  · rfl
  · rfl
  · cases howner : owner.agrees typeKey with
    | false => cases others.any (isTypeUnder owner) <;> simp [howner]
    | true =>
      obtain ⟨-, rfl⟩ := Key.agrees_iff.mp howner
      simp [h, howner]

end SourceIndex

open SourceIndex

-- ---------------------------------------------------------------------------
-- Spellings that keep the place
-- ---------------------------------------------------------------------------

/-- The kind of a DocId and the name behind it as it is spelled, up to the arguments and without
blanks. -/
def spelledName (docId : String) : List Char × List Char :=
  let split := DocId.splitKind (Text.withoutBlanks docId.toList)
  (split.1, (DocId.splitSignature split.2).1)

theorem ofContainingType_congr {first second : String}
    (hname : spelledName first = spelledName second)
    (hkey : Key.ofDocId first = Key.ofDocId second) :
    Key.ofContainingType first = Key.ofContainingType second ∨
      (Key.ofContainingType first).isValid = false ∧
      (Key.ofContainingType second).isValid = false := by
  have hkind : (DocId.splitKind (Text.withoutBlanks first.toList)).1 =
      (DocId.splitKind (Text.withoutBlanks second.toList)).1 := (Prod.ext_iff.mp hname).1
  have hname : (DocId.splitSignature (DocId.splitKind (Text.withoutBlanks first.toList)).2).1 =
      (DocId.splitSignature (DocId.splitKind (Text.withoutBlanks second.toList)).2).1 :=
    (Prod.ext_iff.mp hname).2
  unfold Key.ofContainingType
  simp only [hkind, hname]
  split
  · exact .inl hkey
  · split
    · exact .inl rfl
    · exact .inr ⟨rfl, rfl⟩

theorem placeOf?_congr {a b : Entry} (ha : a.IsNamed) (hb : b.IsNamed) (hkey : a.key = b.key)
    (hkind : a.node.kind = b.node.kind) (hname : spelledName a.docId = spelledName b.docId) :
    placeOf? a = placeOf? b := by
  have howner := ofContainingType_congr hname (ha.key ▸ hb.key ▸ hkey)
  unfold placeOf?
  rw [hkey, hkind]
  split
  · rfl
  · split
    · rfl
    · rcases howner with howner | ⟨hfirst, hsecond⟩
      · rw [howner]
      · simp [hfirst, hsecond]

-- ---------------------------------------------------------------------------
-- One entry for another
-- ---------------------------------------------------------------------------

theorem any_insert (p : β → Bool) (first last : List β) (x : β) :
    (first ++ x :: last).any p = (p x || (first ++ last).any p) := by
  simp [Bool.or_left_comm]

section
variable {first last : List Entry} {a b : Entry}

/-- Entries with one key and one place are found alike. -/
theorem matches?_of_place (hkey : a.key = b.key)
    (hplace : placeAmong (first ++ last) a = placeAmong (first ++ last) b) (policy : Policy)
    (type : ApiType) :
    matches? policy (build (first ++ a :: last)).1 type =
      matches? policy (build (first ++ b :: last)).1 type := by
  have htype : ∀ key, isTypeUnder key a = isTypeUnder key b := fun key => by
    rw [isTypeUnder_eq (first ++ last), isTypeUnder_eq (first ++ last), hplace, hkey]
  simp only [matches?_eq, findType?_isSome, findMember?_isSome, any_insert, htype]
  split
  · rename_i hfound
    -- The type is one of the others, or it is the entry itself, which then is no member.
    have hmember : ∀ key, isMemberUnder type.key key a =
        isMemberUnder type.key key b := fun key => by
      cases hdeclared : (first ++ last).any (isTypeUnder type.key) with
      | true => rw [isMemberUnder_eq hdeclared, isMemberUnder_eq hdeclared, hplace, hkey]
      | false =>
        rw [hdeclared, Bool.or_false] at hfound
        have hnone : ∀ e : Entry, isTypeUnder type.key e = true →
            isMemberUnder type.key key e = false := by
          intro e he
          simp only [isTypeUnder, Bool.and_eq_true, beq_iff_eq] at he
          simp [isMemberUnder, he.1, show (ApiKind.type == ApiKind.member) = false from rfl]
        rw [hnone a (htype type.key ▸ hfound), hnone b hfound]
    simp only [hmember]
  · rfl

def probeMember (member : Entry) : Entry :=
  { node := { kind := .member, docId := member.docId, key := member.key } }

def probe (type member : Entry) : ApiType where
  entry := { node := { kind := .type, docId := type.docId, key := type.key } }
  members := [probeMember member]

theorem probe_isNamed (htype : type.IsNamed) (hmember : member.IsNamed) :
    (probe type member).IsNamed where
  type := htype.key
  members := List.forall_mem_singleton.mpr hmember.key

theorem matches?_probe (entries : List Entry) (type : Entry) {member : Entry}
    (hvalid : member.key.isValid = true) :
    matches? {} (build entries).1 (probe type member) =
      if entries.any (isTypeUnder type.key) then
        some [(probeMember member, entries.any (isMemberUnder type.key member.key))]
      else none := by
  have hmember : (probeMember member).key = member.key := rfl
  have htype : (probe type member).key = type.key := rfl
  rw [matches?_eq, htype, findType?_isSome]
  simp [probe, hmember, hvalid, findMember?_isSome]

theorem probe_misses_type (hvalid : a.key.isValid = true)
    (hmiss : ∀ e ∈ first ++ last, e.key.agrees a.key = false)
    (hplace : placeAmong (first ++ last) a = some none)
    (hne : placeAmong (first ++ last) b ≠ some none) :
    matches? {} (build (first ++ a :: last)).1 (probe a a) ≠
    matches? {} (build (first ++ b :: last)).1 (probe a a) := by
  have hself : a.key.agrees a.key = true := by rw [Key.agrees_self, hvalid]
  have hothers : (first ++ last).any (isTypeUnder a.key) = false :=
    List.any_eq_false.mpr fun e he => by simp [isTypeUnder, hmiss e he]
  have hfound : (first ++ a :: last).any (isTypeUnder a.key) = true := by
    rw [any_insert, isTypeUnder_eq (first ++ last), hplace, hself]
    rfl
  have hlost : (first ++ b :: last).any (isTypeUnder a.key) = false := by
    rw [any_insert, hothers, isTypeUnder_eq (first ++ last), beq_false_of_ne hne]
    rfl
  simp [matches?_probe _ a hvalid, hfound, hlost]

theorem probe_misses_member {type : Entry}
    (hdeclared : (first ++ last).any (isTypeUnder type.key) = true)
    (htype : type.key.isValid = true) (hvalid : a.key.isValid = true)
    (hmiss : ∀ e ∈ first ++ last, e.key.agrees a.key = false)
    (hplace : placeAmong (first ++ last) a = some (some type.key))
    (hne : placeAmong (first ++ last) b ≠ some (some type.key)) :
    matches? {} (build (first ++ a :: last)).1 (probe type a) ≠
      matches? {} (build (first ++ b :: last)).1 (probe type a) := by
  have hself : a.key.agrees a.key = true := by rw [Key.agrees_self, hvalid]
  have hothers : (first ++ last).any (isMemberUnder type.key a.key) = false :=
    List.any_eq_false.mpr fun e he => by simp [isMemberUnder, hmiss e he]
  have hfound : (first ++ a :: last).any (isMemberUnder type.key a.key) = true := by
    rw [any_insert, isMemberUnder_eq hdeclared, hplace, hself]
    simp [Key.agrees_self, htype]
  have hlost : (first ++ b :: last).any (isMemberUnder type.key a.key) = false := by
    have hplaces : ((placeAmong (first ++ last) b).any (·.any (·.agrees type.key))) = false := by
      rcases hp : placeAmong (first ++ last) b with _ | _ | owner
      · rfl
      · rfl
      · refine Bool.eq_false_iff.mpr fun hagrees => hne ?_
        have howner : owner.agrees type.key = true := by simpa using hagrees
        rw [hp, (Key.agrees_iff.mp howner).2]
    rw [any_insert, hothers, isMemberUnder_eq hdeclared, hplaces]
    rfl
  have hmatched : ∀ e, (first ++ e :: last).any (isTypeUnder type.key) = true := fun e => by
    rw [any_insert, hdeclared, Bool.or_true]
  simp [matches?_probe _ type hvalid, hmatched, hfound, hlost]

/-- Some type misses an entry that is found in its place if another takes its key to another
place. -/
theorem exists_matches?_ne {p : Option Key} (hnamed : ∀ e ∈ a :: (first ++ last), e.IsNamed)
    (hvalid : a.key.isValid = true) (hother : ∀ e ∈ first ++ last, e.key ≠ a.key)
    (hplace : placeAmong (first ++ last) a = some p) (hne : placeAmong (first ++ last) b ≠ some p) :
    ∃ type : ApiType, type.IsNamed ∧ matches? {} (build (first ++ a :: last)).1 type ≠
      matches? {} (build (first ++ b :: last)).1 type := by
  have ha := hnamed a List.mem_cons_self
  have hmiss : ∀ e ∈ first ++ last, e.key.agrees a.key = false := fun e he =>
    Bool.eq_false_iff.mpr fun hagrees => hother e he (Key.agrees_iff.mp hagrees).2
  cases p with
  | none => exact ⟨probe a a, probe_isNamed ha ha, probe_misses_type hvalid hmiss hplace hne⟩
  | some typeKey =>
    -- The place is that of a member, and one of the others declares its type.
    have hdeclared : (first ++ last).any (isTypeUnder typeKey) = true := by
      rw [placeAmong, Option.filter_eq_some_iff] at hplace
      exact hplace.2
    obtain ⟨type, hmem, htype⟩ := List.any_eq_true.mp hdeclared
    simp only [isTypeUnder, Bool.and_eq_true] at htype
    obtain ⟨htypeValid, rfl⟩ := Key.agrees_iff.mp htype.2
    exact ⟨probe type a, probe_isNamed (hnamed type (List.mem_cons_of_mem a hmem)) ha,
      probe_misses_member hdeclared htypeValid hvalid hmiss hplace hne⟩

end

/-- Of source entries with the kinds and keys of their DocIds, one that alone has its key may be
replaced by another with that key: no type and no member is matched or missed for it if both have
the same place among the others, and some type tells them apart if they have not. The place is the
same where only blanks, the case of the kind of a member or anything in its arguments is spelled in
another way. -/
theorem respelling_keeps_matches {first last : List Entry} {a b : Entry}
    (hnamed : ∀ e ∈ a :: b :: (first ++ last), e.IsNamed) (hvalid : a.key.isValid = true)
    (hkey : a.key = b.key) (hother : ∀ e ∈ first ++ last, e.key ≠ a.key) :
    let before := (build (first ++ a :: last)).1
    let after := (build (first ++ b :: last)).1
    (placeAmong (first ++ last) a = placeAmong (first ++ last) b →
      ∀ policy type, matches? policy before type = matches? policy after type) ∧
    (placeAmong (first ++ last) a ≠ placeAmong (first ++ last) b →
      ∃ type : ApiType, type.IsNamed ∧ matches? {} before type ≠ matches? {} after type) ∧
    (a.node.kind = b.node.kind → spelledName a.docId = spelledName b.docId →
      placeAmong (first ++ last) a = placeAmong (first ++ last) b) := by
  refine ⟨matches?_of_place hkey, fun hne => ?_, fun hkind hname => ?_⟩
  · have hrest : ∀ e ∈ first ++ last, e.IsNamed := fun e he =>
      hnamed e (List.mem_cons_of_mem a (List.mem_cons_of_mem b he))
    cases ha : placeAmong (first ++ last) a with
    | some p =>
      exact exists_matches?_ne (List.forall_mem_cons.mpr ⟨hnamed a (by simp), hrest⟩) hvalid hother
        ha fun hb => hne (ha.trans hb.symm)
    | none =>
      obtain ⟨p, hb⟩ := Option.ne_none_iff_exists'.mp fun hb => hne (ha.trans hb.symm)
      obtain ⟨type, htype, hdiffers⟩ := exists_matches?_ne
        (List.forall_mem_cons.mpr ⟨hnamed b (by simp), hrest⟩) (hkey ▸ hvalid) (hkey ▸ hother) hb
        (b := a) (by simp [ha])
      exact ⟨type, htype, hdiffers.symm⟩
  · have hplace := placeOf?_congr (hnamed a (by simp)) (hnamed b (by simp)) hkey hkind hname
    rw [placeAmong, placeAmong, hplace]

-- ---------------------------------------------------------------------------
-- Spellings
-- ---------------------------------------------------------------------------

def sourceNamed (docId : String) : Entry :=
  { node := { kind := .ofDocId docId, docId, key := Key.ofDocId docId } }

theorem sourceNamed_isNamed (docId : String) : (sourceNamed docId).IsNamed := ⟨rfl, rfl⟩

/-- The kind of a member in lower case, a blank and another mark for a reference do not matter. -/
theorem respelling_keeps_matches_small :
    let stack := sourceNamed "T:Stack"
    let take := sourceNamed "M:Stack.Take(System.Int32@)"
    let other := sourceNamed "m: Stack.Take(System.Int32&)"
    (∀ e ∈ [take, other, stack], e.IsNamed) ∧ take.key.isValid = true ∧ take.key = other.key ∧
      (∀ e ∈ [stack], e.key ≠ take.key) ∧ placeAmong [stack] take = placeAmong [stack] other ∧
      ∀ policy type,
        matches? policy (build [stack, take]).1 type =
        matches? policy (build [stack, other]).1 type := by
  intro stack take other
  have hnamed : ∀ e ∈ [take, other, stack], e.IsNamed := by
    simp [take, other, stack, sourceNamed_isNamed]
  have hvalid : take.key.isValid = true := by decide +kernel
  have hkey : take.key = other.key := by decide +kernel
  have hother : ∀ e ∈ [stack], e.key ≠ take.key := by decide +kernel
  have hkeeps := @respelling_keeps_matches [stack] [] take other hnamed hvalid hkey hother
  have hplace : placeAmong [stack] take = placeAmong [stack] other :=
    hkeeps.2.2 (by decide +kernel) (by decide +kernel)
  exact ⟨hnamed, hvalid, hkey, hother, hplace, hkeeps.1 hplace⟩

/-- Spellings with one key of which one is matched and the other is not: of a type whose kind is
written in lower case, and of a member behind the mark of a nested type. -/
theorem spelling_decides :
    (let upper := sourceNamed "T:Stack"
      let lower := sourceNamed "t:Stack"
      upper.key = lower.key ∧ upper.key.isValid = true ∧
        matches? {} (build [upper]).1 (probe upper upper) ≠
          matches? {} (build [lower]).1 (probe upper upper)) ∧
    (let stack := sourceNamed "T:Stack"
      let dot := sourceNamed "M:Stack.Take"
      let plus := sourceNamed "M:Stack+Take"
      dot.key = plus.key ∧ dot.key.isValid = true ∧ stack.key ≠ dot.key ∧
        matches? {} (build [stack, dot]).1 (probe stack dot) ≠
          matches? {} (build [stack, plus]).1 (probe stack dot)) := by
  constructor
  · intro upper lower
    have hvalid : upper.key.isValid = true := by decide +kernel
    rw [matches?_probe _ upper hvalid, matches?_probe _ upper hvalid]
    decide +kernel
  · intro stack dot plus
    have hvalid : dot.key.isValid = true := by decide +kernel
    rw [matches?_probe _ stack hvalid, matches?_probe _ stack hvalid]
    decide +kernel

end Merge

end DocMerge

import DocMerge.Proofs.Lexing
import DocMerge.Xml.Namespace
import Mathlib.Data.List.Forall2

/-!
# Tags that are written again

A tag is written with its declarations first and then its other attributes. Read where the same
declarations are in force, it is the same tag.
-/

namespace DocMerge.Xml

theorem mapM_eq_some_iff {f : α → Option β} {xs : List α} {ys : List β} :
    xs.mapM f = some ys ↔ List.Forall₂ (fun x y => f x = some y) xs ys := by
  induction xs generalizing ys with
  | nil => simp [eq_comm]
  | cons x xs ih =>
    simp only [List.mapM_cons, Option.bind_eq_bind, Option.bind_eq_some_iff, Option.pure_def,
      Option.some.injEq, List.forall₂_cons_left_iff, ih]
    constructor
    · rintro ⟨y, hy, ys, hys, rfl⟩
      exact ⟨y, ys, hy, hys, rfl⟩
    · rintro ⟨y, ys, hy, hys, rfl⟩
      exact ⟨y, hy, ys, hys, rfl⟩

-- ---------------------------------------------------------------------------
-- Values
-- ---------------------------------------------------------------------------

theorem isAllowed_of_isNameChar (h : isNameChar c = true) : isAllowed c = true := by
  simp only [isNameChar, isNameStart, Text.inRanges, nameStarts, nameParts,
    List.any_cons, List.any_nil,
    Bool.or_eq_true, Bool.and_eq_true, decide_eq_true_eq, Bool.or_false] at h
  simp only [isAllowed, Bool.or_eq_true, Bool.and_eq_true, beq_iff_eq,
    decide_eq_true_eq, bne_iff_ne]
  omega

theorem IsForeign.allAllowed (h : IsForeign isOpen name) :
    AllAllowed ('&' :: name.toList ++ [';']) := by
  have hname := h.named
  simp only [isName, Bool.and_eq_true, List.all_eq_true] at hname
  simp only [AllAllowed, List.cons_append, List.mem_cons, List.mem_append,
    List.not_mem_nil, or_false]
  rintro c (rfl | hc | rfl)
  · decide
  · exact isAllowed_of_isNameChar (hname.2 c hc)
  · decide

namespace Value

theorem IsPlain.eq_map {v : Value} (h : v.IsPlain) :
    v = v.characters.map .char ∧ AllAllowed v.characters := by
  induction v with
  | nil => exact ⟨rfl, by simp [AllAllowed, characters]⟩
  | cons piece v ih =>
    obtain ⟨⟨c, rfl, hc⟩, hv⟩ := List.forall_mem_cons.mp h
    obtain ⟨heq, hall⟩ := ih hv
    have hcons : characters (.char c :: v) = c :: characters v := rfl
    rw [hcons]
    exact ⟨by rw [List.map_cons, ← heq], List.forall_mem_cons.mpr ⟨hc, hall⟩⟩

theorem isHeld_plain (h : AllAllowed s.toList) : ∀ piece ∈ plain s, piece.IsHeld isOpen := by
  intro piece hpiece
  obtain ⟨c, hc, rfl⟩ := List.mem_map.mp hpiece
  exact h c hc

theorem allAllowed_text {v : Value} (h : ∀ piece ∈ v, piece.IsHeld isOpen) :
    AllAllowed v.text.toList := by
  simp only [text, String.toList_ofList, characters, AllAllowed, List.mem_flatMap]
  rintro c ⟨piece, hpiece, hc⟩
  have hheld := h piece hpiece
  cases piece with
  | char d =>
    obtain rfl := List.mem_singleton.mp hc
    exact hheld
  | reference name meaning =>
    obtain ⟨hname, rfl⟩ := hheld
    exact hname.allAllowed c hc

end Value

-- ---------------------------------------------------------------------------
-- Declarations
-- ---------------------------------------------------------------------------

def Declaration.raw (d : Declaration) : RawAttribute :=
  (if d.nsPrefix == "" then ⟨"", "xmlns"⟩ else ⟨"xmlns", d.nsPrefix⟩, .plain d.uri)

theorem Declaration.raw_isDeclaration (d : Declaration) : d.raw.1.isDeclaration = true := by
  unfold raw QName.isDeclaration
  split <;> rfl

theorem Declaration.raw_print (d : Declaration) : d.raw.print = d.print := by
  unfold raw RawAttribute.print Declaration.print QName.print
  by_cases h : d.nsPrefix = "" <;> simp [h]

def QName.declares (q : QName) : String := if q.nsPrefix == "xmlns" then q.localName else ""

theorem declaration?_eq_some (h : declaration? a = some (some d)) :
    d = ⟨a.1.declares, a.2.text⟩ := by
  simp only [declaration?, QName.declares] at h ⊢
  grind

theorem declaration?_congr (hns : a.1.declares = b.1.declares) (htext : a.2.text = b.2.text) :
    declaration? a = declaration? b := by
  unfold QName.declares at hns
  simp only [declaration?, hns, htext]

theorem declaration?_raw {a : RawAttribute} (h : declaration? a = some (some d))
    (ha : a.IsHeld isOpen)
    (hdeclaration : a.1.isDeclaration = true) :
    d.raw.1 = a.1 ∧ d.raw.IsHeld isOpen ∧ declaration? d.raw = some (some d) := by
  obtain ⟨⟨nsPrefix, localName⟩, value⟩ := a
  have hd := declaration?_eq_some h
  have hlocal := isName_ne_empty ha.name.localName
  have hname : d.raw.1 = ⟨nsPrefix, localName⟩ := by
    rw [hd, Declaration.raw, QName.declares]
    simp only [QName.isDeclaration, Bool.or_eq_true, Bool.and_eq_true, beq_iff_eq] at hdeclaration
    rcases hdeclaration with rfl | ⟨rfl, rfl⟩
    · simp [hlocal]
    · rfl
  have htext : d.raw.2 = .plain value.text := by rw [hd]; rfl
  refine ⟨hname, ⟨?_, ?_⟩, ?_⟩
  · rw [hname]
    exact ha.name
  · rw [htext]
    exact Value.isHeld_plain (Value.allAllowed_text ha.value)
  · rw [← h]
    refine declaration?_congr (by rw [hname]) (by rw [htext, Value.text_plain])

/-- What a list of attributes declares is declared again by the attributes that the declarations are
written as, which have the same names. -/
theorem declarations_raw {attributes : List RawAttribute} {found : List (Option Declaration)}
    (hfound : List.Forall₂ (fun a o => declaration? a = some o) attributes found)
    (hsound : ∀ a ∈ attributes, a.IsHeld isOpen)
    (hdeclaring : ∀ a ∈ attributes, a.1.isDeclaration = true) :
    let declarations := found.filterMap id
    (declarations.map (·.raw.1)).Sublist (attributes.map (·.1)) ∧
      ∀ d ∈ declarations, d.raw.IsHeld isOpen ∧ declaration? d.raw = some (some d) := by
  induction hfound with
  | nil => simp
  | @cons a o attributes found ha _ ih =>
    rw [List.forall_mem_cons] at hsound hdeclaring
    obtain ⟨hnames, hall⟩ := ih hsound.2 hdeclaring.2
    cases o with
    | none => exact ⟨hnames.cons _, hall⟩
    | some d =>
      obtain ⟨hname, hd⟩ := declaration?_raw ha hsound.1 hdeclaring.1
      refine ⟨?_, List.forall_mem_cons.mpr ⟨hd, hall⟩⟩
      simpa [hname] using hnames

-- ---------------------------------------------------------------------------
-- Tags
-- ---------------------------------------------------------------------------

def Tag.raw (t : Tag) : List RawAttribute :=
  t.declarations.map Declaration.raw ++ t.attributes.map fun a => (a.name.written, a.value)

theorem Tag.print_append (t : Tag) (stop : List Char) :
    t.print ++ stop = printOpening t.name.written t.raw stop := by
  have hattribute : ∀ a : Attribute, RawAttribute.print (a.name.written, a.value) =
      a.print := fun _ => rfl
  simp [Tag.print, printOpening, Tag.raw, List.flatMap_map, Declaration.raw_print, hattribute]

/-- A tag that can be written where declarations are in force. -/
structure Tag.IsSound (outer : Scope) (t : Tag) : Prop where
  name : t.name.written.IsWritten
  attributes : ∀ a ∈ t.raw, RawAttribute.IsSound a
  read : Tag.ofRaw? outer t.name.written t.raw = some t

/-- The same where nothing is declared, with references to what may be declared elsewhere. -/
structure Tag.IsHeld (isOpen : Bool) (outer : Scope) (t : Tag) : Prop where
  name : t.name.written.IsWritten
  attributes : ∀ a ∈ t.raw, RawAttribute.IsHeld isOpen a
  read : Tag.ofRaw? outer t.name.written t.raw = some t

theorem Tag.isHeld_false {outer : Scope} {t : Tag} : t.IsHeld false outer ↔ t.IsSound outer :=
  ⟨fun h => ⟨h.name, fun a ha => RawAttribute.isHeld_false.mp (h.attributes a ha), h.read⟩,
    fun h => ⟨h.name, fun a ha => RawAttribute.isHeld_false.mpr (h.attributes a ha), h.read⟩⟩

theorem Tag.ofRaw?_eq_some_iff {outer : Scope} {written : QName} {attributes : List RawAttribute}
    {t : Tag} :
    Tag.ofRaw? outer written attributes = some t ↔
      (attributes.filter (·.1.isDeclaration)).Pairwise (fun a b => a.1 ≠ b.1) ∧
      (∃ found, List.Forall₂ (fun a o => declaration? a = some o)
        (attributes.filter (·.1.isDeclaration)) found ∧ found.filterMap id = t.declarations) ∧
      elementName? (t.declarations ++ outer) written = some t.name ∧
      List.Forall₂ (fun a b =>
        (attributeName? (t.declarations ++ outer) a.1).map (Attribute.mk · a.2) = some b)
        (attributes.filter (fun a => !a.1.isDeclaration)) t.attributes ∧
      distinct (t.attributes.map (·.name)) = true := by
  obtain ⟨name, declarations, named⟩ := t
  unfold Tag.ofRaw?
  simp only [List.partition_eq_filter_filter, Bool.not_eq_true', decide_eq_false_iff_not,
    Option.bind_eq_bind, Option.ite_none_left_eq_some, not_not, Option.bind_eq_some_iff,
    mapM_eq_some_iff, Option.ite_none_right_eq_some, Option.some.injEq, Tag.mk.injEq]
  refine and_congr_right fun _ => ?_
  constructor
  · rintro ⟨found, hfound, name, hname, named, hnamed, hdistinct, rfl, rfl, rfl⟩
    exact ⟨⟨found, hfound, rfl⟩, hname, hnamed, hdistinct⟩
  · rintro ⟨⟨found, hfound, rfl⟩, hname, hnamed, hdistinct⟩
    exact ⟨found, hfound, name, hname, named, hnamed, hdistinct, rfl, rfl, rfl⟩

theorem Tag.filter_raw (t : Tag)
    (hothers : ∀ a ∈ t.attributes, a.name.written.isDeclaration = false) :
    t.raw.filter (·.1.isDeclaration) = t.declarations.map Declaration.raw ∧
      t.raw.filter (fun a => !a.1.isDeclaration) = t.attributes.map fun a =>
        (a.name.written, a.value) := by
  have hdeclarations : ∀ a ∈ t.declarations.map Declaration.raw, a.1.isDeclaration = true := by
    simp [Declaration.raw_isDeclaration]
  have hattributes : ∀ a ∈ t.attributes.map (fun a => (a.name.written, a.value)),
      QName.isDeclaration a.1 = false := by simpa using hothers
  rw [Tag.raw, List.filter_append, List.filter_append]
  constructor
  · rw [List.filter_eq_self.mpr hdeclarations,
      List.filter_eq_nil_iff.mpr (by simpa using hattributes), List.append_nil]
  · rw [List.filter_eq_nil_iff.mpr (by simpa using hdeclarations),
      List.filter_eq_self.mpr (by simpa using hattributes), List.nil_append]

theorem elementName?_written {scope : Scope} (h : elementName? scope q = some n) :
    n.written = q := by
  obtain ⟨uri, -, rfl⟩ := Option.map_eq_some_iff.mp h
  rfl

theorem attributeName?_written {scope : Scope} (h : attributeName? scope q = some n) :
    n.written = q := by
  unfold attributeName? at h
  split at h
  · obtain rfl : _ = n := by simpa using h
    rfl
  · obtain ⟨uri, -, rfl⟩ := Option.map_eq_some_iff.mp h
    rfl

theorem attributes_raw {given : List RawAttribute} {named : List Attribute}
    (h : List.Forall₂ (fun a b => (attributeName? scope a.1).map (Attribute.mk · a.2) =
      some b) given named) :
    named.map (fun b => (b.name.written, b.value)) = given := by
  induction h with
  | nil => rfl
  | cons hb _ ih =>
    obtain ⟨n, hn, rfl⟩ := Option.map_eq_some_iff.mp hb
    rw [List.map_cons, ih, attributeName?_written hn]

theorem Tag.isHeld_of_ofRaw? {outer : Scope} {t : Tag} {given : List RawAttribute}
    (h : Tag.ofRaw? outer written given = some t) (hwritten : written.IsWritten)
    (hheld : ∀ a ∈ given, RawAttribute.IsHeld isOpen a) :
    t.IsHeld isOpen outer ∧ t.name.written = written := by
  obtain ⟨hdistinct, ⟨found, hfound, hdeclarations⟩, hname, hnamed, hdiffer⟩ :=
    Tag.ofRaw?_eq_some_iff.mp h
  have hsame : t.name.written = written := elementName?_written hname
  have hothers := attributes_raw hnamed
  obtain ⟨hnames, hraw⟩ := declarations_raw hfound (fun a ha => hheld a (List.mem_of_mem_filter ha))
    fun a ha => (List.mem_filter.mp ha).2
  rw [hdeclarations] at hnames hraw
  obtain ⟨hfirst, hsecond⟩ := t.filter_raw fun a ha => by
    have hmem : (a.name.written, a.value) ∈ given.filter (fun a => !a.1.isDeclaration) :=
      hothers ▸ List.mem_map_of_mem ha
    simpa using (List.mem_filter.mp hmem).2
  refine ⟨⟨hsame ▸ hwritten, ?_, Tag.ofRaw?_eq_some_iff.mpr ⟨?_, ⟨t.declarations.map some, ?_, ?_⟩,
    hsame ▸ hname, ?_, hdiffer⟩⟩, hsame⟩
  · intro a ha
    rcases List.mem_append.mp ha with ha | ha
    · obtain ⟨d, hd, rfl⟩ := List.mem_map.mp ha
      exact (hraw d hd).1
    · rw [hothers] at ha
      exact hheld a (List.mem_of_mem_filter ha)
  · rw [hfirst, List.pairwise_map]
    have hnodup := (List.pairwise_map.mpr hdistinct).sublist hnames
    exact List.pairwise_map.mp hnodup
  · rw [hfirst, List.forall₂_map_left_iff, List.forall₂_map_right_iff, List.forall₂_same]
    exact fun d hd => (hraw d hd).2
  · simp
  · rw [hsecond, hothers]
    exact hnamed

-- ---------------------------------------------------------------------------
-- The characters of tags
-- ---------------------------------------------------------------------------

def IsInner (c : Char) : Prop := c ≠ '<' ∧ c ≠ '>' ∧ c ≠ '\r'

theorem isInner_of_isNameChar (h : isNameChar c = true) : IsInner c := by
  have hnot : ∀ d ∈ ['<', '>', '\r'], isNameChar d = false := by decide
  refine ⟨?_, ?_, ?_⟩ <;> rintro rfl <;> simp_all

theorem isInner_escapeText (hd : d ∈ escapeText c) : IsInner d := by
  unfold escapeText at hd
  split at hd
  · have hall : ∀ d ∈ "&lt;".toList, IsInner d := by simp [IsInner]
    exact hall d hd
  · have hall : ∀ d ∈ "&gt;".toList, IsInner d := by simp [IsInner]
    exact hall d hd
  · have hall : ∀ d ∈ "&amp;".toList, IsInner d := by simp [IsInner]
    exact hall d hd
  · have hall : ∀ d ∈ "&#13;".toList, IsInner d := by simp [IsInner]
    exact hall d hd
  · obtain rfl := List.mem_singleton.mp hd
    exact ⟨by assumption, by assumption, by assumption⟩

theorem isInner_escapeValue (hd : d ∈ escapeValue c) : IsInner d := by
  unfold escapeValue at hd
  split at hd
  · have hall : ∀ d ∈ "&quot;".toList, IsInner d := by simp [IsInner]
    exact hall d hd
  · have hall : ∀ d ∈ "&#10;".toList, IsInner d := by simp [IsInner]
    exact hall d hd
  · have hall : ∀ d ∈ "&#9;".toList, IsInner d := by simp [IsInner]
    exact hall d hd
  · exact isInner_escapeText hd

theorem QName.IsWritten.isInner (h : QName.IsWritten q) : ∀ c ∈ q.print, IsInner c := by
  have hname : ∀ {s : String}, isName s.toList = true → ∀ c ∈ s.toList, IsInner c := by
    intro s hs c hc
    simp only [isName, Bool.and_eq_true, List.all_eq_true] at hs
    exact isInner_of_isNameChar (hs.2 c hc)
  intro c hc
  unfold QName.print at hc
  split at hc
  · exact hname h.localName c hc
  · rename_i hns
    have hwritten := h.nsPrefix.resolve_left (by simpa using hns)
    rcases List.mem_append.mp hc with hc | hc
    · exact hname hwritten c hc
    · rcases List.mem_cons.mp hc with rfl | hc
      · exact ⟨by decide, by decide, by decide⟩
      · exact hname h.localName c hc

def ValuePiece.IsWritable : ValuePiece → Prop
  | .char _ => True
  | .reference name _ => isName name.toList = true

structure RawAttribute.IsWritable (a : RawAttribute) : Prop where
  name : a.1.IsWritten
  value : ∀ piece ∈ a.2, piece.IsWritable

structure Tag.IsWritable (t : Tag) : Prop where
  name : t.name.written.IsWritten
  attributes : ∀ a ∈ t.raw, RawAttribute.IsWritable a

theorem ValuePiece.IsHeld.isWritable {piece : ValuePiece} (h : piece.IsHeld isOpen) :
    piece.IsWritable := by
  cases piece with
  | char c => trivial
  | reference name meaning => exact h.1.named

theorem Tag.IsHeld.isWritable {outer : Scope} {t : Tag} (h : t.IsHeld isOpen outer) :
    t.IsWritable where
  name := h.name
  attributes a ha :=
  ⟨(h.attributes a ha).name, fun piece hpiece =>
    ((h.attributes a ha).value piece hpiece).isWritable⟩

theorem isInner_printReference (h : isName name.toList = true) :
    ∀ c ∈ printReference name, IsInner c := by
  simp only [isName, Bool.and_eq_true, List.all_eq_true] at h
  simp only [printReference, List.cons_append, List.mem_cons, List.mem_append,
    List.not_mem_nil, or_false]
  rintro c (rfl | hc | rfl)
  · exact ⟨by decide, by decide, by decide⟩
  · exact isInner_of_isNameChar (h.2 c hc)
  · exact ⟨by decide, by decide, by decide⟩

theorem Value.isInner_print {v : Value} (h : ∀ piece ∈ v, piece.IsWritable) :
    ∀ c ∈ v.print, IsInner c := by
  have hquote : IsInner '"' := ⟨by decide, by decide, by decide⟩
  simp only [Value.print, List.cons_append, List.mem_cons, List.mem_append, List.mem_flatMap,
    List.not_mem_nil, or_false]
  rintro c (rfl | ⟨piece, hpiece, hc⟩ | rfl)
  · exact hquote
  · cases piece with
    | char d => exact isInner_escapeValue hc
    | reference name meaning => exact isInner_printReference (h _ hpiece) c hc
  · exact hquote

theorem Tag.IsWritable.isInner {t : Tag} (h : t.IsWritable) : ∀ c ∈ t.print, IsInner c := by
  intro c hc
  have hprint := t.print_append []
  rw [List.append_nil] at hprint
  simp only [hprint, printOpening, List.append_nil, List.mem_append,
    List.mem_flatMap, List.mem_cons,
    RawAttribute.print] at hc
  rcases hc with hc | ⟨a, ha, rfl | hc | rfl | hc⟩
  · exact h.name.isInner c hc
  · exact ⟨by decide, by decide, by decide⟩
  · exact (h.attributes a ha).name.isInner c hc
  · exact ⟨by decide, by decide, by decide⟩
  · exact Value.isInner_print (h.attributes a ha).value c hc

end DocMerge.Xml

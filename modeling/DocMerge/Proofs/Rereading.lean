import DocMerge.Docs.Identifier
import DocMerge.Proofs.Passes
import DocMerge.Proofs.Projection

/-!
# What is written is read again

`setInner_text_iff`: what an element says is read from the element it is written into exactly if the
identifiers in it are still distinct names on one line. `remarks_setRemarks`: remarks are read as
they were written, without blanks at their ends. Where nothing is left of them the heading of their
block is read.
-/

namespace DocMerge.Content

open Writing (identified twins)
open Xml (Element Node)

-- ---------------------------------------------------------------------------
-- Texts
-- ---------------------------------------------------------------------------

theorem mem_printAll_of_identifiers {nodes : List Node} (h : Node.allIdentifiers nodes ≠ []) :
    '<' ∈ Node.printAll nodes := by
  induction nodes with
  | nil => exact absurd rfl h
  | cons n nodes ih =>
    rw [Node.printAll, List.mem_append]
    cases n with
    | element tag children => exact .inl (by cases children <;> exact List.mem_cons_self)
    | _ => exact .inr (ih h)

theorem mem_collapse {c : Char} (h : c ∈ Text.collapse cs) : c = ' ' ∨ c ∈ cs :=
  Text.mem_squeeze ((Text.isInfix_trim _).subset h)

theorem not_mem_text (tag : Xml.Tag) (cs : List Char) :
    '<' ∉ (text [] ⟨tag, Xml.textNodes cs⟩).toList := by
  have hinner : (inner [] ⟨tag, Xml.textNodes cs⟩).toList = cs.flatMap escapeText := by
    have hnone : ∀ n ∈ ([] : List Node).head?, n.isText = false := by simp
    obtain ⟨hleading, hbehind⟩ := Xml.leadingText?_textNodes hnone cs
    rw [List.append_nil] at hleading hbehind
    have htext : ((Node.leadingText? (Xml.textNodes cs)).getD "").toList = cs := by
      rw [hleading]
      split
      · rename_i hnil
        simp [hnil]
      · simp
    rw [inner, Element.text?, htext, hbehind]
    simp
  intro hmem
  rw [text, collapsed, String.toList_ofList, hinner] at hmem
  rcases mem_collapse hmem with hspace | hmem
  · exact absurd hspace (by decide)
  · obtain ⟨c, -, hc⟩ := List.mem_flatMap.mp hmem
    by_cases hreturn : c = '\r'
    · rw [hreturn] at hc
      exact absurd hc (by decide)
    · rw [Xml.content_escapeText_eq hreturn] at hc
      exact (Xml.isInner_escapeText hc).1 rfl

/-- Without its identifiers what an element says is no markup any more, and is not read again. -/
theorem text_setInner_ne {source t : Element} (h : source.IsPlain)
    (hnot : ¬source.KeepsIdentifiers) :
    text [] (setInner [] t (text [] source)).1 ≠ text [] source := by
  have htidy : Xml.AreTidy source.tidied := h.squeezed.trimEnd
  have hids := h.identifiers_tidied
  have htag : '<' ∈ (text [] source).toList := by
    rw [h.text_eq, String.toList_ofList]
    refine mem_printAll_of_identifiers fun hnone => hnot ?_
    rw [Element.KeepsIdentifiers, ← hids, hnone]
    simp
  have hparse : Xml.parse? ("<wrapper>" ++ text [] source ++ "</wrapper>") = none := by
    rw [Option.eq_none_iff_forall_ne_some]
    intro wrapper hwrapper
    rw [h.text_eq, Xml.parse?_wrapper_iff htidy, hids] at hwrapper
    exact hnot hwrapper.2
  intro hread
  have hwritten : ∃ cs, (setInner [] t (text [] source)).1 = ⟨t.tag, Xml.textNodes cs⟩ := by
    rw [setInner, hparse]
    dsimp only
    split
    · refine ⟨(text [] source).toList, ?_⟩
      rw [Xml.textNodes, if_neg (List.ne_nil_of_mem htag), String.ofList_toList]
    · exact ⟨[], rfl⟩
  obtain ⟨cs, hcs⟩ := hwritten
  rw [← hread, hcs] at htag
  exact not_mem_text t.tag cs htag

/-- What an element says is read from another one that it is written into, unless identifiers in it
are no distinct names on one line. It is not written a second time then. Nothing but the children is
touched. -/
theorem setInner_text_iff {source t : Element} (h : source.IsPlain) (ht : t.tag.declarations = []) :
    (setInner [] t (text [] source)).1.tag = t.tag ∧
      (text [] (setInner [] t (text [] source)).1 = text [] source ↔ source.KeepsIdentifiers) ∧
      (source.KeepsIdentifiers → ∃ t', setInner [] t (text [] source) = (t', none) ∧
        Writing.writeText [] (text [] source) t' = (t', none)) := by
  have hkept : source.KeepsIdentifiers → ∃ t', setInner [] t (text [] source) = (t', none) ∧
      text [] t' = text [] source := by
    intro hkeeps
    obtain ⟨children, hset, -, hread⟩ := IsText.setInner ⟨source, h, hkeeps, rfl⟩ ht
    exact ⟨{ t with children }, hset, hread⟩
  refine ⟨Writing.setInner_tag _ _ _, ⟨fun hread => ?_, fun hkeeps => ?_⟩, fun hkeeps => ?_⟩
  · by_contra hnot
    exact text_setInner_ne h hnot hread
  · obtain ⟨t', hset, hread⟩ := hkept hkeeps
    rw [hset, hread]
  · obtain ⟨t', hset, hread⟩ := hkept hkeeps
    exact ⟨t', hset, if_pos (by simp [hread])⟩

def count : Element where
  tag := { name := Xml.Name.plain "param", attributes := [.plain "name" "count"] }
  children := [.text "To be added."]

def mixed : Element where
  tag := { name := Xml.Name.plain "summary" }
  children := [.cdata "a <b ", .text "\n  of ", .comment " not\tyet ",
    .element
      { name := Xml.Name.plain "c", attributes := [⟨⟨Xml.xmlUri, "xml", "id"⟩, .plain " one "⟩] }
      [.text "1 & 2"],
    .cdata "]  ]"]

theorem setInner_text_iff_mixed :
    mixed.IsPlain ∧ count.tag.declarations = [] ∧ mixed.KeepsIdentifiers ∧
    ∃ t', setInner [] count (text [] mixed) = (t', none) ∧ t'.tag = count.tag ∧
    text [] t' = text [] mixed ∧
      Writing.writeText [] (text [] mixed) t' = (t', none) := by
  have hroot : Xml.root? {}
      ("<summary><![CDATA[a <b ]]>\n  of <!-- not\tyet --><c xml:id=\" one \">1 &amp; 2</c>".toList
        ++
        "<![CDATA[]  ]]]></summary>".toList) = some mixed := by
    rw [String.toList_ofList, String.toList_ofList]
    rfl
  have hplain : mixed.IsPlain := ⟨⟨0, (Xml.root?_sound (by decide) hroot).sound⟩, by decide⟩
  have hkeeps : mixed.KeepsIdentifiers := by
    have hids : Node.allIdentifiers mixed.children = [" one ".toList] := by rfl
    have hnamed : Xml.IsNamed (Xml.squeezeLoose Xml.escapeValue " one ".toList) := by rfl
    rw [Element.KeepsIdentifiers, hids]
    exact ⟨List.forall_mem_singleton.mpr hnamed, List.pairwise_singleton ..⟩
  obtain ⟨htag, hread, hagain⟩ := setInner_text_iff (t := count) hplain rfl
  obtain ⟨t', hset, hsame⟩ := hagain hkeeps
  rw [hset] at htag hread
  exact ⟨hplain, rfl, hkeeps, t', hset, htag, hread.mpr hkeeps, hsame⟩

/-- Two identifiers that differ in a run of blanks are the same on one line. What they stand in is
written as text. -/
theorem twins_not_reread :
    Xml.parse? "<summary><b xml:id=\" a\"/><b xml:id=\"  a\"/></summary>" =
    some twins ∧ twins.IsPlain ∧
      count.tag.declarations = [] ∧ text [] (setInner [] count (text [] twins)).1 ≠
      text [] twins := by
  have hroot : Xml.root? {} "<summary><b xml:id=\" a\"/><b xml:id=\"  a\"/></summary>".toList =
      some twins := by
    rw [String.toList_ofList]
    rfl
  have hparse : Xml.parse? "<summary><b xml:id=\" a\"/><b xml:id=\"  a\"/></summary>" =
      some twins := by
    rw [Xml.parse?, String.toList_ofList]
    rfl
  exact ⟨hparse, ⟨⟨0, (Xml.root?_sound (by decide) hroot).sound⟩, by decide⟩, rfl,
    by decide +kernel⟩

-- ---------------------------------------------------------------------------
-- Remarks
-- ---------------------------------------------------------------------------

/-- A block with nothing below its heading is the heading, which does not end with its line then. -/
theorem withoutHeading_remarksBlock_blank (h : trimmed s = "") :
    withoutHeading (remarksBlock s) = "## Remarks" := by
  have hblank : ∀ c ∈ s.toList, Text.isBlank c = true := by
    obtain ⟨before, after, hbefore, hafter, hs⟩ := Text.trim_between s.toList
    rw [trimmed_eq_empty_iff.mp h, List.nil_append] at hs
    rw [hs]
    simpa [or_imp, forall_and] using ⟨hbefore, hafter⟩
  have hend : Text.trimEnd ('\n' :: '\n' :: (s.toList ++ ['\n', '\n'])) = [] := by
    rw [Text.trimEnd_eq_rdropWhile, List.rdropWhile_eq_nil_iff]
    simpa [or_imp, forall_and, show Text.isBlank '\n' = true from rfl] using hblank
  have htrim : Text.trim (remarksBlock s).toList = "## Remarks".toList := by
    have hstart : Text.trimStart (remarksBlock s).toList =
        "## Remark".toList ++ 's' :: '\n' :: '\n' :: (s.toList ++ ['\n', '\n']) := by
      simp [remarksBlock, Text.trimStart_cons, show Text.isBlank '\n' = true from rfl,
        show Text.isBlank '#' = false from rfl]
    rw [Text.trim, hstart, Text.trimEnd_mark _ (by decide), hend]
    rfl
  rw [withoutHeading, htrim]
  decide

/-- Remarks that are written are read without blanks at their ends, whatever they begin with and
whatever the element held. Of blank remarks the heading is read. -/
theorem remarks_setRemarks (h : isWritable s = true) (outer : Xml.Scope) (e : Element) :
    ∃ children, setRemarks e s = ({ e with children }, none) ∧
      remarks outer { e with children } = if trimmed s = "" then "## Remarks" else trimmed s := by
  obtain ⟨children, hset, hread⟩ := setRemarks_block h outer e
  refine ⟨children, hset, ?_⟩
  rw [hread]
  split
  · rename_i hblank
    exact withoutHeading_remarksBlock_blank hblank
  · rename_i hne
    exact withoutHeading_remarksBlock hne

def blocked : Element where
  tag := { name := Xml.Name.plain "remarks" }
  children := [.text "See ", .comment "the block",
    .element { name := Xml.Name.plain "format" } [.text "Old."], .text "."]

/-- Remarks that begin with a heading of their own keep it. -/
theorem remarks_setRemarks_heading : isWritable " \n## remarks\n\nTakes <c>]]></c>.\r\n" = true ∧
    ∃ children, setRemarks blocked " \n## remarks\n\nTakes <c>]]></c>.\r\n" =
    ({ blocked with children }, none) ∧
      remarks [] { blocked with children } = "## remarks\n\nTakes <c>]]></c>." := by
  have hwritable : isWritable " \n## remarks\n\nTakes <c>]]></c>.\r\n" = true := by
    rw [isWritable, String.toList_ofList]
    decide
  have htrim : trimmed " \n## remarks\n\nTakes <c>]]></c>.\r\n" =
      "## remarks\n\nTakes <c>]]></c>." := by
    rw [← String.toList_inj, trimmed, String.toList_ofList, String.toList_ofList,
      String.toList_ofList]
    decide +kernel
  obtain ⟨children, hset, hread⟩ := remarks_setRemarks hwritable [] blocked
  rw [htrim, if_neg (by decide)] at hread
  exact ⟨hwritable, children, hset, hread⟩

/-- The heading of a block without remarks passes for remarks. -/
theorem heading_passes_for_remarks : isWritable "" = true ∧ trimmed "" = "" ∧
    ∃ e, setRemarks { blocked with children := [.text "Old."] } "" = (e, none) ∧
    remarks [] e = "## Remarks" ∧
      isUndocumented (remarks [] e) = false :=
  ⟨by decide, by decide, _, rfl, by decide, by decide⟩

end DocMerge.Content

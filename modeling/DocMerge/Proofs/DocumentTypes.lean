import DocMerge.Proofs.Fuel
import DocMerge.Proofs.Prologs

/-!
# What is read of document types

What the readers of declarations leave is the end of the text, and a declaration ends with its mark.
So a document type without that mark inside holds no declaration, but references to declarations
that are kept elsewhere, and it is read before any root alike.
-/

namespace DocMerge.Xml

open Text (cutAt? dropStart? cutAt?_eq_some_iff cutAt?_append dropStart?_eq_some_iff
  dropStart?_append)

variable {cs rest : List Char}

-- ---------------------------------------------------------------------------
-- What readers leave
-- ---------------------------------------------------------------------------

theorem dropStart?_suffix (h : dropStart? start cs = some rest) : rest <:+ cs :=
  ⟨start, (dropStart?_eq_some_iff.mp h).symm⟩

theorem readName?_suffix (h : readName? cs = some (name, rest)) : rest <:+ cs :=
  ⟨name.toList, (readName?_eq_some_iff.mp h).2.1.symm⟩

theorem readQName?_suffix (h : readQName? cs = some (name, rest)) : rest <:+ cs :=
  ⟨name.print, (readQName?_eq_some_iff.mp h).2.1.symm⟩

theorem skipMiscellaneous?_suffix (h : skipMiscellaneous? cs = some rest) : rest <:+ cs := by
  obtain ⟨text, -, rfl⟩ := skipMiscellaneousWithin?_eq_some h
  exact List.suffix_append _ _

theorem behindSpaces?_suffix (h : behindSpaces? cs = some rest) : rest <:+ cs := by
  simp only [behindSpaces?, Option.ite_none_right_eq_some, Option.some.injEq] at h
  exact h.2 ▸ skipSpaces_suffix cs

theorem behindEnd?_closed (h : behindEnd? cs = some rest) : '>' :: rest <:+ cs := by
  have hdrop := dropStart?_eq_some_iff.mp h
  rw [List.singleton_append] at hdrop
  exact hdrop ▸ skipSpaces_suffix cs

theorem readLiteral?_suffix (h : readLiteral? cs = some (literal, rest)) : rest <:+ cs := by
  unfold readLiteral? at h
  split at h
  · obtain ⟨-, rfl⟩ := cutAt?_eq_some_iff.mp h
    exact ⟨'"' :: (literal ++ ['"']), by simp⟩
  · obtain ⟨-, rfl⟩ := cutAt?_eq_some_iff.mp h
    exact ⟨'\'' :: (literal ++ ['\'']), by simp⟩
  · cases h

theorem readPublic?_suffix (h : readPublic? cs = some (literal, rest)) : rest <:+ cs := by
  simp only [readPublic?, Option.bind_eq_bind, Option.bind_eq_some_iff, Prod.exists,
    Option.ite_none_right_eq_some,
    Option.some.injEq, Prod.mk.injEq] at h
  obtain ⟨_, _, hread, -, rfl, rfl⟩ := h
  exact readLiteral?_suffix hread

theorem readSystem?_suffix (h : readSystem? cs = some (literal, rest)) : rest <:+ cs := by
  simp only [readSystem?, Option.bind_eq_bind, Option.bind_eq_some_iff, Prod.exists,
    Option.ite_none_right_eq_some,
    Option.some.injEq, Prod.mk.injEq] at h
  obtain ⟨_, _, hread, -, rfl, rfl⟩ := h
  exact readLiteral?_suffix hread

theorem readPlace?_suffix (h : readPlace? cs = some (place, rest)) : rest <:+ cs := by
  unfold readPlace? at h
  split at h
  · rename_i behind hsystem
    simp only [Option.bind_eq_bind, Option.bind_eq_some_iff, Prod.exists, Option.some.injEq,
      Prod.mk.injEq] at h
    obtain ⟨_, hspaces, _, _, hread, -, rfl⟩ := h
    exact (readSystem?_suffix hread).trans
      ((behindSpaces?_suffix hspaces).trans (dropStart?_suffix hsystem))
  · rename_i behind _ hpublic
    simp only [Option.bind_eq_bind, Option.bind_eq_some_iff, Prod.exists, Option.some.injEq,
      Prod.mk.injEq] at h
    obtain ⟨_, hspaces, _, _, hfirst, _, hspaces', _, _, hread, -, rfl⟩ := h
    exact (readSystem?_suffix hread).trans ((behindSpaces?_suffix hspaces').trans
      ((readPublic?_suffix hfirst).trans
        ((behindSpaces?_suffix hspaces).trans (dropStart?_suffix hpublic))))
  · simp only [Option.some.injEq, Prod.mk.injEq] at h
    exact h.2 ▸ List.suffix_refl _

theorem readWord?_suffix (h : readWord? words cs = some (word, rest)) : rest <:+ cs := by
  obtain ⟨_, -, hfound⟩ := List.exists_of_findSome?_eq_some h
  obtain ⟨_, hdrop, hword⟩ := Option.map_eq_some_iff.mp hfound
  exact (Prod.mk.inj hword).2 ▸ dropStart?_suffix hdrop

theorem readChoice?_suffix {read : List Char → Option (List Char)}
    (hread : ∀ {cs rest}, read cs = some rest → rest <:+ cs)
    (h : readChoice? read fuel cs = some rest) :
    rest <:+ cs := by
  induction fuel generalizing cs with
  | zero => simp [readChoice?] at h
  | succ fuel ih =>
    simp only [readChoice?, Option.bind_eq_bind, Option.bind_eq_some_iff] at h
    obtain ⟨behind, hword, h⟩ := h
    have hbehind : skipSpaces behind <:+ cs :=
      (skipSpaces_suffix behind).trans ((hread hword).trans (skipSpaces_suffix cs))
    split at h
    · rename_i more hmark
      exact (ih h).trans ((List.suffix_cons '|' more).trans (hmark ▸ hbehind))
    · rename_i more hmark
      obtain rfl := Option.some.inj h
      exact (List.suffix_cons ')' more).trans (hmark ▸ hbehind)
    · cases h

theorem behindName?_suffix (h : behindName? cs = some rest) : rest <:+ cs := by
  obtain ⟨_, hread, rfl⟩ := Option.map_eq_some_iff.mp h
  exact readName?_suffix hread

theorem behindWord?_suffix (h : behindWord? cs = some rest) : rest <:+ cs := by
  simp only [behindWord?, Option.ite_none_right_eq_some, Option.some.injEq] at h
  exact h.2 ▸ List.dropWhile_suffix _

theorem readDefinition?_suffix (h : readDefinition? cs = some (definition, rest)) :
    rest <:+ cs := by
  unfold readDefinition? at h
  split at h
  · rename_i hliteral
    obtain ⟨_, -, hfound⟩ := Option.map_eq_some_iff.mp h
    exact (Prod.mk.inj hfound).2 ▸ readLiteral?_suffix hliteral
  · simp only [Option.bind_eq_bind, Option.bind_eq_some_iff, Prod.exists,
      Option.ite_none_right_eq_some,
      Option.some.injEq, Prod.mk.injEq] at h
    obtain ⟨_, _, hplace, _, -, -, -, rfl⟩ := h
    exact readPlace?_suffix hplace

theorem readNotation?_suffix (h : readNotation? cs = some rest) : rest <:+ cs := by
  simp only [readNotation?, Option.bind_eq_bind, Option.bind_eq_some_iff] at h
  obtain ⟨_, hspaces, _, hword, _, hspaces', hname⟩ := h
  exact (behindName?_suffix hname).trans ((behindSpaces?_suffix hspaces').trans
    ((dropStart?_suffix hword).trans (behindSpaces?_suffix hspaces)))

theorem readAttributeType?_suffix (h : readAttributeType? cs = some (type, rest)) :
    rest <:+ cs := by
  unfold readAttributeType? at h
  split at h
  · rename_i hword
    simp only [Option.some.injEq, Prod.mk.injEq] at h
    exact h.2 ▸ readWord?_suffix hword
  · split at h
    · rename_i hnotation
      simp only [Option.bind_eq_bind, Option.bind_eq_some_iff, Option.some.injEq,
        Prod.mk.injEq] at h
      obtain ⟨_, hspaces, _, hopen, _, hchoice, -, rfl⟩ := h
      exact (readChoice?_suffix behindName?_suffix hchoice).trans ((dropStart?_suffix hopen).trans
        ((behindSpaces?_suffix hspaces).trans (dropStart?_suffix hnotation)))
    · simp only [Option.map_eq_some_iff, Prod.mk.injEq] at h
      obtain ⟨_, hchoice, -, rfl⟩ := h
      exact (readChoice?_suffix behindWord?_suffix hchoice).trans (List.suffix_cons _ _)
    · cases h

theorem readDefault?_suffix (h : readDefault? entities cs = some (value, rest)) : rest <:+ cs := by
  unfold readDefault? at h
  split at h
  · rename_i hword
    simp only [Option.some.injEq, Prod.mk.injEq] at h
    exact h.2 ▸ readWord?_suffix hword
  · split at h
    · rename_i hfixed
      simp only [Option.bind_eq_bind, Option.bind_eq_some_iff, Prod.exists, Option.some.injEq,
        Prod.mk.injEq] at h
      obtain ⟨_, hspaces, _, _, hquoted, -, rfl⟩ := h
      exact (readQuoted?_suffix hquoted).trans
        ((behindSpaces?_suffix hspaces).trans (dropStart?_suffix hfixed))
    · simp only [Option.bind_eq_bind, Option.bind_some, Option.bind_eq_some_iff, Prod.exists,
        Option.some.injEq,
        Prod.mk.injEq] at h
      obtain ⟨_, _, hquoted, -, rfl⟩ := h
      exact readQuoted?_suffix hquoted

theorem readRules?_closed (h : readRules? entities element fuel cs = some (rules, rest)) :
    '>' :: rest <:+ cs := by
  induction fuel generalizing cs rules with
  | zero => simp [readRules?] at h
  | succ fuel ih =>
    rw [readRules?] at h
    split at h
    · rename_i hend
      simp only [Option.some.injEq, Prod.mk.injEq] at h
      exact h.2 ▸ behindEnd?_closed hend
    · simp only [Option.bind_eq_bind, Option.bind_eq_some_iff, Prod.exists, Option.some.injEq,
        Prod.mk.injEq] at h
      obtain ⟨_, hspaces, _, _, hname, _, hspaces', _, _, htype, _, hspaces'', _, _, hdefault, _, _,
          hrules, -, rfl⟩ :=
        h
      exact (ih hrules).trans
        ((readDefault?_suffix hdefault).trans ((behindSpaces?_suffix hspaces'').trans
        ((readAttributeType?_suffix htype).trans ((behindSpaces?_suffix hspaces').trans
          ((readQName?_suffix hname).trans (behindSpaces?_suffix hspaces))))))

theorem skipRepetition_suffix (cs : List Char) : skipRepetition cs <:+ cs := by
  unfold skipRepetition
  split
  · exact List.suffix_cons _ _
  · exact List.suffix_cons _ _
  · exact List.suffix_cons _ _
  · exact List.suffix_refl _

/-- A part of the content of an element, and a group of them. -/
theorem readPart?_suffix : ∀ fuel, (∀ {cs rest}, readPart? fuel cs = some rest → rest <:+ cs) ∧
    ∀ {mark cs rest}, readGroup? fuel mark cs = some rest → rest <:+ cs := by
  intro fuel
  induction fuel with
  | zero => exact ⟨fun h => by simp [readPart?] at h, fun h => by simp [readGroup?] at h⟩
  | succ fuel ih =>
    obtain ⟨ihPart, ihGroup⟩ := ih
    refine ⟨@fun cs rest h => ?_, @fun mark cs rest h => ?_⟩
    · unfold readPart? at h
      split at h
      · exact (ihGroup h).trans (List.suffix_cons _ _)
      · obtain ⟨_, hname, rfl⟩ := Option.map_eq_some_iff.mp h
        exact (skipRepetition_suffix _).trans (readQName?_suffix hname)
    · simp only [readGroup?, Option.bind_eq_bind, Option.bind_eq_some_iff] at h
      obtain ⟨behind, hpart, h⟩ := h
      have hbehind : skipSpaces behind <:+ cs :=
        (skipSpaces_suffix behind).trans ((ihPart hpart).trans (skipSpaces_suffix cs))
      split at h
      · rename_i more hmark
        obtain rfl := Option.some.inj h
        exact (skipRepetition_suffix more).trans
          ((List.suffix_cons ')' more).trans (hmark ▸ hbehind))
      · rename_i c more _ hmark
        simp only [Option.ite_none_right_eq_some] at h
        exact (ihGroup h.2).trans ((List.suffix_cons c more).trans (hmark ▸ hbehind))
      · cases h

theorem readMixed?_suffix (h : readMixed? cs = some rest) : rest <:+ cs := by
  have hcs := skipSpaces_suffix cs
  unfold readMixed? at h
  split at h
  · rename_i hmark
    obtain rfl := Option.some.inj h
    exact ((List.suffix_cons '*' _).trans (List.suffix_cons ')' _)).trans (hmark ▸ hcs)
  · rename_i _ hmark
    obtain rfl := Option.some.inj h
    exact (List.suffix_cons ')' _).trans (hmark ▸ hcs)
  · rename_i more hmark
    simp only [Option.bind_eq_bind, Option.bind_eq_some_iff] at h
    obtain ⟨_, hchoice, hend⟩ := h
    have hname : ∀ {cs rest}, (readQName? cs).map (·.2) = some rest → rest <:+ cs := by
      intro cs rest h
      obtain ⟨_, hname, rfl⟩ := Option.map_eq_some_iff.mp h
      exact readQName?_suffix hname
    exact (dropStart?_suffix hend).trans ((readChoice?_suffix hname hchoice).trans
      ((List.suffix_cons '|' more).trans (hmark ▸ hcs)))
  · cases h

theorem readContent?_suffix (h : readContent? cs = some rest) : rest <:+ cs := by
  unfold readContent? at h
  split at h
  · rename_i hword
    obtain rfl := Option.some.inj h
    exact readWord?_suffix hword
  · rename_i more _
    split at h
    · rename_i hword
      exact (readMixed?_suffix h).trans ((dropStart?_suffix hword).trans
        ((skipSpaces_suffix more).trans (List.suffix_cons _ _)))
    · exact ((readPart?_suffix _).2 h).trans (List.suffix_cons _ _)
  · cases h

theorem behindElement?_closed (h : behindElement? cs = some rest) : '>' :: rest <:+ cs := by
  simp only [behindElement?, Option.bind_eq_bind, Option.bind_eq_some_iff, Prod.exists] at h
  obtain ⟨_, hspaces, _, _, hname, _, hspaces', _, hcontent, hend⟩ := h
  exact (behindEnd?_closed hend).trans
    ((readContent?_suffix hcontent).trans ((behindSpaces?_suffix hspaces').trans
    ((readQName?_suffix hname).trans (behindSpaces?_suffix hspaces))))

theorem behindNotation?_closed (h : behindNotation? cs = some rest) : '>' :: rest <:+ cs := by
  simp only [behindNotation?, Option.bind_eq_bind, Option.bind_eq_some_iff] at h
  obtain ⟨_, hspaces, _, hname, start, hspaces', h⟩ := h
  have hstart : start <:+ cs :=
    (behindSpaces?_suffix hspaces').trans
      ((behindName?_suffix hname).trans (behindSpaces?_suffix hspaces))
  split at h
  · simp only [Option.bind_eq_some_iff, Prod.exists, Option.ite_none_right_eq_some] at h
    obtain ⟨_, _, hplace, -, hend⟩ := h
    exact (behindEnd?_closed hend).trans ((readPlace?_suffix hplace).trans hstart)
  · rename_i hpublic
    simp only [Option.bind_eq_some_iff, Prod.exists] at h
    obtain ⟨_, hspaces, _, behind, hread, h⟩ := h
    have hbehind : behind <:+ cs :=
      (readPublic?_suffix hread).trans ((behindSpaces?_suffix hspaces).trans
      ((dropStart?_suffix hpublic).trans hstart))
    split at h
    · rename_i hend
      obtain rfl := Option.some.inj h
      exact (behindEnd?_closed hend).trans hbehind
    · simp only [Option.bind_eq_some_iff, Prod.exists] at h
      obtain ⟨_, hspaces, _, _, hread, hend⟩ := h
      exact (behindEnd?_closed hend).trans ((readSystem?_suffix hread).trans
        ((behindSpaces?_suffix hspaces).trans hbehind))

theorem readEntity?_closed {d : DocumentType} (h : readEntity? d cs = some (d', rest)) :
    '>' :: rest <:+ cs := by
  simp only [readEntity?, Option.bind_eq_bind, Option.bind_eq_some_iff] at h
  obtain ⟨start, hspaces, h⟩ := h
  have hstart := behindSpaces?_suffix hspaces
  split at h
  · rename_i more
    simp only [Option.bind_eq_some_iff, Prod.exists, Option.some.injEq, Prod.mk.injEq] at h
    obtain ⟨_, hspaces, _, _, hname, _, hspaces', _, _, hdefinition, _, hend, -, rfl⟩ := h
    exact (behindEnd?_closed hend).trans ((readDefinition?_suffix hdefinition).trans
      ((behindSpaces?_suffix hspaces').trans
        ((readName?_suffix hname).trans ((behindSpaces?_suffix hspaces).trans
        ((List.suffix_cons '%' more).trans hstart)))))
  · simp only [Option.bind_eq_some_iff, Prod.exists] at h
    obtain ⟨_, _, hname, _, hspaces, _, behind, hdefinition, h⟩ := h
    have hbehind : behind <:+ cs :=
      (readDefinition?_suffix hdefinition).trans ((behindSpaces?_suffix hspaces).trans
      ((readName?_suffix hname).trans hstart))
    split at h
    · rename_i hend
      simp only [Option.some.injEq, Prod.mk.injEq] at h
      exact h.2 ▸ (behindEnd?_closed hend).trans hbehind
    · simp only [Option.ite_none_right_eq_some, Option.bind_eq_some_iff, Option.some.injEq,
        Prod.mk.injEq] at h
      obtain ⟨-, _, hnotation, _, hend, -, rfl⟩ := h
      exact (behindEnd?_closed hend).trans ((readNotation?_suffix hnotation).trans hbehind)

inductive Declares (standalone inParameter : Bool) (fuel : Nat) (d d' : DocumentType)
    (rest : List Char) :
    List Char → Prop
  | ends (inside : inParameter = true) (same : d' = d) (all : rest = []) :
      Declares standalone inParameter fuel d d' rest []
  | closes (outside : inParameter = false) (same : d' = d) :
      Declares standalone inParameter fuel d d' rest (']' :: rest)
  | refers {name : String} (named : isName name.toList = true)
      (unknown : d.parameters = [] → standalone = false ∧ next = d.opened standalone)
      (more : readDeclarations? standalone inParameter fuel next behind = some (d', rest)) :
      Declares standalone inParameter fuel d d' rest ('%' :: (name.toList ++ ';' :: behind))
  | declares (closed : '>' :: behind <:+ text)
      (more : readDeclarations? standalone inParameter fuel next behind = some (d', rest)) :
      Declares standalone inParameter fuel d d' rest ('<' :: '!' :: text)

theorem readDeclarations?_declares {d : DocumentType}
    (h : readDeclarations? standalone inParameter (fuel + 1) d cs = some (d', rest)) :
    ∃ start, skipMiscellaneous? cs = some start ∧
    Declares standalone inParameter fuel d d' rest start := by
  rw [readDeclarations?] at h
  simp only [Option.bind_eq_bind, Option.bind_eq_some_iff] at h
  obtain ⟨start, hskip, h⟩ := h
  refine ⟨start, hskip, ?_⟩
  split at h
  · simp only [Option.ite_none_right_eq_some, Option.some.injEq, Prod.mk.injEq] at h
    exact .ends h.1 h.2.1.symm h.2.2.symm
  · simp only [Option.ite_none_left_eq_some, Option.some.injEq, Prod.mk.injEq] at h
    obtain ⟨hnot, rfl, rfl⟩ := h
    exact .closes (by simpa using hnot) rfl
  · simp only [Option.bind_eq_some_iff, Prod.exists] at h
    obtain ⟨name, _, hname, behind, hend, h⟩ := h
    obtain ⟨hvalid, rfl, -⟩ := readName?_eq_some_iff.mp hname
    obtain rfl := dropStart?_eq_some_iff.mp hend
    split at h
    · rename_i hlookup
      simp only [Option.bind_eq_some_iff, Prod.exists] at h
      obtain ⟨next, _, -, h⟩ := h
      refine .refers hvalid (fun hnone => ?_) h
      simp [DocumentType.opened, hnone] at hlookup
    · rename_i hlookup
      refine .refers hvalid (fun hnone => ?_) h
      simp [DocumentType.opened, hnone] at hlookup
    · simp only [Option.ite_none_left_eq_some] at h
      exact .refers hvalid (fun _ => ⟨by simpa using h.1, rfl⟩) h.2
  · rename_i more
    simp only [Option.bind_eq_some_iff, Prod.exists] at h
    obtain ⟨word, behind, hword, h⟩ := h
    have hbehind := readWord?_suffix hword
    split at h <;> rename_i heq <;> obtain ⟨rfl, rfl⟩ := Prod.mk.inj heq
    · simp only [Option.bind_eq_some_iff, Prod.exists] at h
      obtain ⟨_, _, hentity, h⟩ := h
      exact .declares ((readEntity?_closed hentity).trans hbehind) h
    · simp only [Option.bind_eq_some_iff, Prod.exists] at h
      obtain ⟨_, hspaces, _, _, hname, _, _, hrules, h⟩ := h
      exact .declares ((readRules?_closed hrules).trans ((readQName?_suffix hname).trans
        ((behindSpaces?_suffix hspaces).trans hbehind))) h
    · simp only [Option.bind_eq_some_iff] at h
      obtain ⟨_, helement, h⟩ := h
      exact .declares ((behindElement?_closed helement).trans hbehind) h
    · simp only [Option.bind_eq_some_iff] at h
      obtain ⟨_, hnotation, h⟩ := h
      exact .declares ((behindNotation?_closed hnotation).trans hbehind) h
  · cases h

theorem readDeclarations?_suffix {d : DocumentType}
    (h : readDeclarations? standalone inParameter fuel d cs = some (d', rest)) : rest <:+ cs := by
  induction fuel generalizing d cs with
  | zero => simp [readDeclarations?] at h
  | succ fuel ih =>
    obtain ⟨start, hskip, hdeclares⟩ := readDeclarations?_declares h
    refine List.IsSuffix.trans ?_ (skipMiscellaneous?_suffix hskip)
    cases hdeclares with
    | ends _ _ hrest => exact hrest ▸ List.nil_suffix
    | closes => exact List.suffix_cons _ _
    | @refers _ _ name _ _ hmore => exact (ih hmore).trans ⟨'%' :: (name.toList ++ [';']), by simp⟩
    | declares hclosed hmore =>
      exact (ih hmore).trans
        ((List.suffix_cons '>' _).trans (hclosed.trans (List.suffix_append ['<', '!'] _)))

theorem readDocumentType?_eq_some_iff : readDocumentType? standalone cs = some (d, rest) ↔
    ∃ start name behind place more, behindSpaces? cs = some start ∧
    readQName? start = some (name, behind) ∧
      readPlace? (skipSpaces behind) = some (place, more) ∧
      readSubset? standalone (if place.isSome then ({} : DocumentType).opened standalone else {})
        (skipSpaces more) =
        some (d, rest) := by
  simp only [readDocumentType?, Option.bind_eq_bind, Option.bind_eq_some_iff, Prod.exists]
  constructor
  · rintro ⟨start, hspaces, name, behind, hname, place, more, hplace, h⟩
    exact ⟨start, name, behind, place, more, hspaces, hname, hplace, h⟩
  · rintro ⟨start, name, behind, place, more, hspaces, hname, hplace, h⟩
    exact ⟨start, hspaces, name, behind, hname, place, more, hplace, h⟩

theorem readSubset?_closed (h : readSubset? standalone d cs = some (d', rest)) :
    '>' :: rest <:+ cs := by
  unfold readSubset? at h
  split at h <;> simp only [Option.bind_eq_bind, Option.bind_eq_some_iff, Prod.exists,
    Option.some.injEq,
    Prod.mk.injEq] at h
  · obtain ⟨_, _, hdeclarations, _, hend, -, rfl⟩ := h
    exact (behindEnd?_closed hend).trans
      ((readDeclarations?_suffix hdeclarations).trans (List.suffix_cons '[' _))
  · obtain ⟨_, hend, -, rfl⟩ := h
    exact behindEnd?_closed hend

theorem readDocumentType?_closed (h : readDocumentType? standalone cs = some (d, rest)) :
    '>' :: rest <:+ cs := by
  obtain ⟨_, _, behind, _, more, hspaces, hname, hplace, hsubset⟩ :=
    readDocumentType?_eq_some_iff.mp h
  exact (readSubset?_closed hsubset).trans
    ((skipSpaces_suffix more).trans ((readPlace?_suffix hplace).trans
    ((skipSpaces_suffix behind).trans
      ((readQName?_suffix hname).trans (behindSpaces?_suffix hspaces)))))

-- ---------------------------------------------------------------------------
-- Document types without their mark inside
-- ---------------------------------------------------------------------------

inductive IsSilent : Bool → List Char → Prop
  | blank (spaces : AllSpaces blanks) : IsSilent false blanks
  | reference {name : String} (spaces : AllSpaces blanks) (named : isName name.toList = true)
      (behind : IsSilent refers text) :
      IsSilent true (blanks ++ '%' :: (name.toList ++ ';' :: text))

def DocumentType.referring (d : DocumentType) (standalone refers : Bool) : DocumentType :=
  if refers then d.opened standalone else d

theorem DocumentType.referring_opened (d : DocumentType) (standalone refers : Bool) :
    (d.opened standalone).referring standalone refers = d.opened standalone := by
  cases refers <;> rfl

theorem suffix_of_not_mem (hmark : m ∉ text) (h : m :: behind <:+ text ++ rest)
    (hrest : rest <:+ behind) : False := by
  obtain ⟨before, hbefore⟩ := h
  obtain ⟨between, rfl⟩ := hrest
  have hsplit : before ++ m :: between ++ rest = text ++ rest := by simpa using hbefore
  exact hmark (List.append_cancel_right hsplit ▸ by simp)

theorem endsMiscellany_cons (hspace : isSpace c = false) (hopen : c ≠ '<') (cs : List Char) :
    EndsMiscellany (c :: cs) where
  spaces := skipSpaces_eq_self (by rintro _ ⟨rfl⟩; exact hspace)
  comment _ heq := hopen (List.cons.inj heq).1
  instruction _ heq := hopen (List.cons.inj heq).1

theorem IsMiscellany.allSpaces (h : IsMiscellany text) (hmark : '>' ∉ text) : AllSpaces text := by
  induction h with
  | nil => simp [AllSpaces]
  | space hc _ ih =>
    rw [List.mem_cons, not_or] at hmark
    exact List.forall_mem_cons.mpr ⟨hc, ih hmark.2⟩
  | comment => simp at hmark
  | instruction => simp at hmark

theorem skipMiscellaneous?_spaces {spaces : List Char} (h : AllSpaces spaces)
    (hrest : EndsMiscellany rest) :
    skipMiscellaneous? (spaces ++ rest) = some rest := by
  have hspaces : IsMiscellany spaces := by simpa using IsMiscellany.nil.behindSpaces h
  exact hspaces.skip hrest (Nat.lt_succ_self _)

/-- What is read of declarations without a mark is read of them whatever follows. -/
theorem IsSilent.read (h : IsSilent refers silent)
    (hstandalone : refers = true → standalone = false)
    {d : DocumentType} (hparameters : d.parameters = []) (hfuel : silent.length < fuel)
    (rest : List Char) :
    readDeclarations? standalone false fuel d (silent ++ ']' :: rest) =
    some (d.referring standalone refers, rest) := by
  obtain ⟨fuel, rfl⟩ := Nat.exists_eq_add_one_of_ne_zero (Nat.ne_zero_of_lt hfuel)
  induction h generalizing d fuel with
  | @blank blanks hspaces =>
    have hskip : skipMiscellaneous? (blanks ++ ']' :: rest) = some (']' :: rest) :=
      skipMiscellaneous?_spaces hspaces (endsMiscellany_cons (by decide) (by decide) rest)
    rw [readDeclarations?, hskip]
    rfl
  | @reference blanks refers text name hspaces hnamed _ ih =>
    obtain rfl := hstandalone rfl
    have hskip : skipMiscellaneous? (blanks ++ '%' :: (name.toList ++ ';' :: text) ++ ']' :: rest) =
        some ('%' :: (name.toList ++ ';' :: (text ++ ']' :: rest))) := by
      have hends : EndsMiscellany ('%' :: (name.toList ++ ';' :: (text ++ ']' :: rest))) :=
        endsMiscellany_cons (by decide) (by decide) _
      simpa using skipMiscellaneous?_spaces hspaces hends
    have hname : readName? (name.toList ++ ';' :: (text ++ ']' :: rest)) =
        some (name, ';' :: (text ++ ']' :: rest)) :=
      readName?_eq_some_iff.mpr ⟨hnamed, rfl, by rintro _ ⟨rfl⟩; decide⟩
    have hend : dropStart? [';'] (';' :: (text ++ ']' :: rest)) = some (text ++ ']' :: rest) :=
      dropStart?_append [';'] _
    have hlookup : (d.opened false).parameters.lookup name = none := by
      have hnone : (d.opened false).parameters = [] := hparameters
      rw [hnone]
      rfl
    simp only [List.length_append, List.length_cons] at hfuel
    obtain ⟨fuel, rfl⟩ : ∃ n, fuel = n + 1 := ⟨fuel - 1, by omega⟩
    have hmore := ih (fun _ => rfl) (d := d.opened false) hparameters fuel (by omega)
    rw [DocumentType.referring_opened] at hmore
    rw [readDeclarations?, hskip]
    simp only [Option.bind_eq_bind, Option.bind_some, hname, hend, hlookup,
      Bool.false_eq_true, if_false, hmore]
    rfl

theorem readDeclarations?_silent {d : DocumentType} (hmark : '>' ∉ text)
    (hparameters : d.parameters = [])
    (h : readDeclarations? standalone false fuel d (text ++ rest) = some (d', rest)) :
    ∃ silent refers, text = silent ++ [']'] ∧ IsSilent refers silent ∧
    (refers = true → standalone = false) ∧
      d' = d.referring standalone refers := by
  induction fuel generalizing d text with
  | zero => simp [readDeclarations?] at h
  | succ fuel ih =>
    obtain ⟨start, hskip, hdeclares⟩ := readDeclarations?_declares h
    obtain ⟨passed, hpassed, hsplit⟩ := skipMiscellaneousWithin?_eq_some hskip
    -- All of this lies in the text.
    have hinside : ∀ inner, start = inner ++ rest → text = passed ++ inner := by
      rintro inner rfl
      rw [← List.append_assoc] at hsplit
      exact List.append_cancel_right hsplit
    have hspaces : ∀ inner, start = inner ++ rest → AllSpaces passed := fun inner hinner =>
      hpassed.allSpaces fun hmem =>
        hmark (by rw [hinside inner hinner]; exact List.mem_append_left _ hmem)
    cases hdeclares with
    | ends hfalse => cases hfalse
    | closes _ hsame =>
      exact ⟨passed, false, hinside [']'] rfl, .blank (hspaces [']'] rfl), by simp, hsame⟩
    | @refers _ next name hnamed hunknown hmore =>
      obtain ⟨more, rfl⟩ := readDeclarations?_suffix hmore
      have hinner : '%' :: (name.toList ++ ';' :: (more ++ rest)) = '%' ::
          (name.toList ++ ';' :: more) ++ rest := by
        simp
      have htext := hinside _ hinner
      obtain ⟨hstandalone, rfl⟩ := hunknown hparameters
      have hrest : '>' ∉ more := fun hmem => hmark (by simp [htext, hmem])
      have hparameters' : (d.opened standalone).parameters = [] := hparameters
      obtain ⟨silent, refers, rfl, hsilent, -, rfl⟩ := ih hrest hparameters' hmore
      exact ⟨passed ++ '%' :: (name.toList ++ ';' :: silent), true, by simp [htext],
        .reference (hspaces _ hinner) hnamed hsilent, fun _ => hstandalone,
        d.referring_opened standalone refers⟩
    | @declares behind _ _ hclosed hmore =>
      have hbehind := readDeclarations?_suffix hmore
      have hstart := hclosed.trans
        ((List.suffix_append ['<', '!'] _).trans (skipMiscellaneous?_suffix hskip))
      exact (suffix_of_not_mem hmark hstart hbehind).elim

-- What stands in front of a mark is read alike whatever stands behind it.

theorem skipSpaces_mark (text rest : List Char) :
    skipSpaces (text ++ '>' :: rest) = skipSpaces text ++ '>' :: rest := by
  have hmark : skipSpaces ('>' :: rest) = '>' :: rest :=
    skipSpaces_eq_self (by rintro _ ⟨rfl⟩; decide)
  rw [skipSpaces, List.dropWhile_append, ← skipSpaces, ← skipSpaces, hmark]
  cases skipSpaces text <;> rfl

theorem behindSpaces?_mark (text rest : List Char) :
    behindSpaces? (text ++ '>' :: rest) = (behindSpaces? text).map (· ++ '>' :: rest) := by
  have hstart : startsWithSpace (text ++ '>' :: rest) = startsWithSpace text := by
    cases text with
    | nil => rfl
    | cons => rfl
  rw [behindSpaces?, behindSpaces?, hstart, skipSpaces_mark]
  cases startsWithSpace text <;> rfl

theorem dropStart?_mark {start : List Char} (h : '>' ∉ start) (text rest : List Char) :
    dropStart? start (text ++ '>' :: rest) = (dropStart? start text).map (· ++ '>' :: rest) := by
  induction start generalizing text with
  | nil => rfl
  | cons c start ih =>
    rw [List.mem_cons, not_or] at h
    cases text with
    | nil => simp [dropStart?, Ne.symm h.1]
    | cons d text =>
      rw [List.cons_append, dropStart?, dropStart?]
      split
      · exact ih h.2 text
      · rfl

def StopsAtMark (read : List Char → Option (α × List Char)) : Prop :=
  ∀ ⦃text rest behind found⦄, read (text ++ '>' :: rest) = some (found, behind) →
  '>' :: rest <:+ behind →
    ∃ left, behind = left ++ '>' :: rest ∧ ∀ rest',
    read (text ++ '>' :: rest') = some (found, left ++ '>' :: rest')

theorem readQName?_stopsAtMark : StopsAtMark readQName? := by
  intro text rest behind name h hbehind
  obtain ⟨hname, hsplit, hends⟩ := readQName?_eq_some_iff.mp h
  obtain ⟨left, rfl⟩ := hbehind
  obtain rfl : text = name.print ++ left := by
    rw [← List.append_assoc] at hsplit
    exact List.append_cancel_right hsplit
  refine ⟨left, rfl, fun rest' => readQName?_eq_some_iff.mpr ⟨hname, by simp, ?_⟩⟩
  cases left <;> exact hends

theorem readLiteral?_stopsAtMark : StopsAtMark readLiteral? := by
  intro text rest behind literal h hbehind
  obtain ⟨left, rfl⟩ := hbehind
  have hread : ∀ quote text, cutAt? [quote] (text ++ '>' :: rest) =
      some (literal, left ++ '>' :: rest) →
      ∀ rest', cutAt? [quote] (text ++ '>' :: rest') = some (literal, left ++ '>' :: rest') := by
    intro quote text hcut rest'
    obtain ⟨hends, hsplit⟩ := cutAt?_eq_some_iff.mp hcut
    obtain rfl : text = literal ++ [quote] ++ left := by
      rw [← List.append_assoc] at hsplit
      exact List.append_cancel_right hsplit
    exact cutAt?_eq_some_iff.mpr ⟨hends, by simp⟩
  refine ⟨left, rfl, ?_⟩
  cases text with
  | nil => cases h
  | cons c text =>
    by_cases hdouble : c = '"'
    · subst hdouble
      exact hread '"' text h
    · by_cases hsingle : c = '\''
      · subst hsingle
        exact hread '\'' text h
      · rw [List.cons_append, readLiteral?] at h
        · cases h
        · exact fun _ heq => hdouble (List.cons.inj heq).1
        · exact fun _ heq => hsingle (List.cons.inj heq).1

theorem readPublic?_stopsAtMark : StopsAtMark readPublic? := by
  intro text rest behind literal h hbehind
  simp only [readPublic?, Option.bind_eq_bind, Option.bind_eq_some_iff, Prod.exists,
    Option.ite_none_right_eq_some,
    Option.some.injEq, Prod.mk.injEq] at h ⊢
  obtain ⟨_, _, hread, hpublic, rfl, rfl⟩ := h
  obtain ⟨left, rfl, hread'⟩ := readLiteral?_stopsAtMark hread hbehind
  exact ⟨left, rfl, fun rest' => ⟨_, _, hread' rest', hpublic, rfl, rfl⟩⟩

theorem readSystem?_stopsAtMark : StopsAtMark readSystem? := by
  intro text rest behind literal h hbehind
  simp only [readSystem?, Option.bind_eq_bind, Option.bind_eq_some_iff, Prod.exists,
    Option.ite_none_right_eq_some,
    Option.some.injEq, Prod.mk.injEq] at h ⊢
  obtain ⟨_, _, hread, hsystem, rfl, rfl⟩ := h
  obtain ⟨left, rfl, hread'⟩ := readLiteral?_stopsAtMark hread hbehind
  exact ⟨left, rfl, fun rest' => ⟨_, _, hread' rest', hsystem, rfl, rfl⟩⟩

theorem readPlace?_stopsAtMark : StopsAtMark readPlace? := by
  intro text rest behind place h hbehind
  have hsystem := dropStart?_mark (by decide : '>' ∉ "SYSTEM".toList) text
  have hpublic := dropStart?_mark (by decide : '>' ∉ "PUBLIC".toList) text
  unfold readPlace? at h ⊢
  simp only [-String.reduceToList, hsystem, hpublic] at h ⊢
  generalize dropStart? "SYSTEM".toList text = system? at h ⊢
  generalize dropStart? "PUBLIC".toList text = public? at h ⊢
  cases system? with
  | some text =>
    simp only [Option.map_some, behindSpaces?_mark, Option.bind_eq_bind,
      Option.bind_eq_some_iff, Prod.exists,
      Option.some.injEq, Prod.mk.injEq, Option.map_eq_some_iff] at h ⊢
    obtain ⟨_, ⟨spaced, hspaces, rfl⟩, literal, _, hread, rfl, rfl⟩ := h
    obtain ⟨left, rfl, hread'⟩ := readSystem?_stopsAtMark hread hbehind
    exact ⟨left, rfl, fun rest' => ⟨_, ⟨spaced, hspaces, rfl⟩, literal, _, hread' rest', rfl, rfl⟩⟩
  | none =>
    cases public? with
    | some text =>
      simp only [Option.map_some, Option.map_none, behindSpaces?_mark, Option.bind_eq_bind,
        Option.bind_eq_some_iff,
        Prod.exists, Option.some.injEq, Prod.mk.injEq, Option.map_eq_some_iff] at h ⊢
      obtain ⟨_, ⟨spaced, hspaces, rfl⟩, first, _, hfirst, _, hspaces', literal, _,
          hread, rfl, rfl⟩ := h
      have hmiddle := hbehind.trans
        ((readSystem?_suffix hread).trans (behindSpaces?_suffix hspaces'))
      obtain ⟨middle, rfl, hfirst'⟩ := readPublic?_stopsAtMark hfirst hmiddle
      simp only [behindSpaces?_mark, Option.map_eq_some_iff] at hspaces'
      obtain ⟨spaced', hspaces', rfl⟩ := hspaces'
      obtain ⟨left, rfl, hread'⟩ := readSystem?_stopsAtMark hread hbehind
      refine ⟨left, rfl, fun rest' =>
        ⟨_, ⟨spaced, hspaces, rfl⟩, first, _, hfirst' rest', _, ?_, literal, _,
        hread' rest', rfl, rfl⟩⟩
      rw [behindSpaces?_mark, hspaces']
      rfl
    | none =>
      simp only [Option.map_none, Option.some.injEq, Prod.mk.injEq] at h ⊢
      obtain ⟨rfl, rfl⟩ := h
      exact ⟨text, rfl, fun _ => ⟨rfl, rfl⟩⟩

theorem behindEnd?_spaces {blanks : List Char} (h : AllSpaces blanks) (rest : List Char) :
    behindEnd? (blanks ++ '>' :: rest) = some rest := by
  rw [behindEnd?, skipSpaces_spaces h (by decide)]
  exact dropStart?_append ['>'] rest

theorem allSpaces_of_behindEnd? (hmark : '>' ∉ text)
    (h : behindEnd? (text ++ '>' :: rest) = some rest') :
    AllSpaces text := by
  obtain ⟨spaces, hspaces, hsplit, -⟩ := skipSpaces_split text
  cases hbehind : skipSpaces text with
  | nil =>
    rw [hbehind, List.append_nil] at hsplit
    exact hsplit ▸ hspaces
  | cons c more =>
    have hdrop := dropStart?_eq_some_iff.mp h
    rw [skipSpaces_mark, hbehind] at hdrop
    obtain rfl : c = '>' := (List.cons.inj hdrop).1
    exact absurd (by rw [hsplit, hbehind]; simp) hmark

theorem suffix_of_append (h : first ++ rest <:+ text ++ rest) : first <:+ text := by
  obtain ⟨before, hsplit⟩ := h
  rw [← List.append_assoc] at hsplit
  exact ⟨before, List.append_cancel_right hsplit⟩

theorem readSubset?_again {d : DocumentType} (hparameters : d.parameters = []) (hmark : '>' ∉ text)
    (h : readSubset? standalone d (text ++ '>' :: rest) = some (d', rest)) :
    (∃ refers, d' = d.referring standalone refers) ∧
      ∀ rest', readSubset? standalone d (text ++ '>' :: rest') = some (d', rest') := by
  by_cases hopen : text.head? = some '['
  · obtain ⟨inside, rfl⟩ := List.head?_eq_some_iff.mp hopen
    simp only [List.cons_append, readSubset?, Option.bind_eq_bind,
      Option.bind_eq_some_iff, Prod.exists,
      Option.some.injEq, Prod.mk.injEq, List.mem_cons, not_or] at h hmark ⊢
    obtain ⟨_, behind, hdeclarations, _, hend, rfl, rfl⟩ := h
    -- The declarations end in front of the mark, and blanks alone stand between the two.
    obtain ⟨last, rfl⟩ := behindEnd?_closed hend
    obtain ⟨first, rfl⟩ := suffix_of_append (readDeclarations?_suffix hdeclarations)
    rw [List.mem_append, not_or] at hmark
    rw [List.append_assoc] at hdeclarations
    obtain ⟨silent, refers, rfl, hsilent, hstandalone, rfl⟩ :=
      readDeclarations?_silent hmark.2.1 hparameters hdeclarations
    have hlast := allSpaces_of_behindEnd? hmark.2.2 hend
    refine ⟨⟨refers, rfl⟩, fun rest' =>
      ⟨_, last ++ '>' :: rest', ?_, _, behindEnd?_spaces hlast rest', rfl, rfl⟩⟩
    simp only [List.append_assoc, List.singleton_append]
    refine hsilent.read hstandalone hparameters (Nat.lt_succ_of_le ?_) (last ++ '>' :: rest')
    refine Nat.le_trans ?_ (Nat.le_mul_self _)
    rw [List.length_append]
    exact Nat.le_add_right _ _
  · -- Blanks alone stand in front of the mark.
    have hends : ∀ rest, readSubset? standalone d (text ++ '>' :: rest) =
        (behindEnd? (text ++ '>' :: rest)).bind fun behind => some (d, behind) := by
      intro rest
      rw [readSubset?]
      · rfl
      · intro more heq
        cases text with
        | nil => cases heq
        | cons c text => exact hopen (congrArg some (List.cons.inj heq).1)
    rw [hends, Option.bind_eq_some_iff] at h
    obtain ⟨_, hend, hsame⟩ := h
    obtain ⟨rfl, rfl⟩ := Prod.mk.inj (Option.some.inj hsame)
    have hspaces := allSpaces_of_behindEnd? hmark hend
    exact ⟨⟨false, rfl⟩, fun rest' => by rw [hends, behindEnd?_spaces hspaces]; rfl⟩

/-- A document type without its mark inside declares nothing and is read whatever follows it. -/
theorem readDocumentType?_again (hmark : '>' ∉ text)
    (h : readDocumentType? standalone (text ++ '>' :: rest) = some (d, rest)) :
    (∃ isOpen, d = { entities := ⟨[], isOpen⟩ }) ∧
      ∀ rest', readDocumentType? standalone (text ++ '>' :: rest') = some (d, rest') := by
  obtain ⟨_, name, behind, place, more, hspaces, hname, hplace, hsubset⟩ :=
    readDocumentType?_eq_some_iff.mp h
  -- All that is read in front of the mark stays there.
  have hmore := (readSubset?_closed hsubset).trans (skipSpaces_suffix more)
  have hbehind := hmore.trans ((readPlace?_suffix hplace).trans (skipSpaces_suffix behind))
  rw [behindSpaces?_mark, Option.map_eq_some_iff] at hspaces
  obtain ⟨spaced, hspaces, rfl⟩ := hspaces
  obtain ⟨named, rfl, hname'⟩ := readQName?_stopsAtMark hname hbehind
  rw [skipSpaces_mark] at hplace
  obtain ⟨placed, rfl, hplace'⟩ := readPlace?_stopsAtMark hplace hmore
  have htext : skipSpaces placed <:+ text :=
    (skipSpaces_suffix placed).trans ((suffix_of_append (readPlace?_suffix hplace)).trans
      ((skipSpaces_suffix named).trans ((suffix_of_append (readQName?_suffix hname)).trans
        (behindSpaces?_suffix hspaces))))
  have hparameters :
      (if place.isSome then ({} : DocumentType).opened standalone else {}).parameters = [] := by
    cases place <;> rfl
  rw [skipSpaces_mark] at hsubset
  obtain ⟨⟨refers, rfl⟩, hsubset'⟩ :=
    readSubset?_again hparameters (fun hmem => hmark (htext.mem hmem)) hsubset
  refine ⟨by cases place <;> cases refers <;> exact ⟨_, rfl⟩,
    fun rest' => readDocumentType?_eq_some_iff.mpr
    ⟨spaced ++ '>' :: rest', name, named ++ '>' :: rest', place, placed ++ '>' :: rest', ?_,
      hname' rest', ?_, ?_⟩⟩
  · rw [behindSpaces?_mark, hspaces]
    rfl
  · rw [skipSpaces_mark]
    exact hplace' rest'
  · rw [skipSpaces_mark]
    exact hsubset' rest'

end DocMerge.Xml

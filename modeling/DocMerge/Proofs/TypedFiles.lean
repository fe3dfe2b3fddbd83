import DocMerge.Proofs.DocumentTypes
import DocMerge.Proofs.Recoding
import DocMerge.Proofs.RoundTrips

/-!
# Files with document types

A file looks for its root in its characters before a document is read from them, and for it a
document type ends with the first mark that could end it. So its prolog is what stands before the
root if no such mark stands inside the document type, and then the file is read again once it is
written.

A file that declares another encoding than UTF-8 is accepted as far as `Xml.Encoding` reads that
encoding: but for Latin-1 and Windows-1252, in its ASCII part alone.
-/

namespace DocMerge.Xml

open Text (EndsAt dropStart? dropStart?_eq_some_iff dropStart?_append endsAt_append endsAt_nil)
open Files (plainLines)

-- ---------------------------------------------------------------------------
-- The parts of a document
-- ---------------------------------------------------------------------------

/-- Where a document has its document type, if there is one, and its root: what is read before the
type, the type, what is read behind it, and the rest of the text, which begins with the root. -/
inductive IsLaid : Prologue → DocumentType → (before type behind body : List Char) → Prop
  | untyped (start : StartsElement body)
      (declaration : readDeclaration? (plainLines (before ++ body)) = some (prologue, rest))
      (head : skipMiscellaneous? rest = some (plainLines body)) :
      IsLaid prologue {} before [] [] body
  | typed (start : StartsElement body)
      (declaration : readDeclaration?
        (plainLines (before ++ ("<!DOCTYPE".toList ++ (inside ++ '>' :: (behind ++ body))))) =
        some (prologue, rest))
      (head : skipMiscellaneous? rest =
        some (plainLines ("<!DOCTYPE".toList ++ (inside ++ '>' :: (behind ++ body)))))
      (type : readDocumentType? prologue.standalone
        (plainLines (inside ++ '>' :: (behind ++ body))) =
        some (d, plainLines (behind ++ body)))
      (tail : skipMiscellaneous? (plainLines (behind ++ body)) = some (plainLines body)) :
      IsLaid prologue d before ("<!DOCTYPE".toList ++ (inside ++ ['>'])) behind body

theorem plainLines_type (text : List Char) :
    plainLines ("<!DOCTYPE".toList ++ text) = "<!DOCTYPE".toList ++ plainLines text := by
  simp only [String.reduceToList, List.cons_append, List.nil_append]
  repeat rw [Files.plainLines_cons (by decide)]

theorem plainLines_mark (text rest : List Char) :
    plainLines (text ++ '>' :: rest) = plainLines text ++ '>' :: plainLines rest := by
  have hhead : ∀ c ∈ ('>' :: rest).head?, c ≠ '\n' := by
    rintro _ ⟨rfl⟩
    decide
  rw [Files.plainLines_append text hhead, Files.plainLines_cons (by decide)]

theorem StartsElement.plainLines_append (h : StartsElement cs) (before : List Char) :
    Files.plainLines (before ++ cs) = Files.plainLines before ++ Files.plainLines cs := by
  obtain ⟨c, rest, rfl, -⟩ := h
  refine Files.plainLines_append before ?_
  rintro _ ⟨rfl⟩
  decide

theorem exists_type (h : plainLines cs = first ++ ("<!DOCTYPE".toList ++ inside)) : ∃ before more,
    cs = before ++ ("<!DOCTYPE".toList ++ more) ∧ plainLines before = first ∧
    plainLines more = inside := by
  have hopen : plainLines cs = first ++ '<' :: ("!DOCTYPE".toList ++ inside) := h
  obtain ⟨before, after, rfl, rfl, hafter⟩ := Files.plainLines_eq_append (by decide) hopen
  have hplain : plainLines ('<' :: after) = "<!DOCTYPE".toList ++ inside := by
    rw [Files.plainLines_cons (by decide), hafter]
    rfl
  have hword : ∀ c ∈ "<!DOCTYPE".toList, c ≠ '\n' ∧ c ≠ '\r' := by decide
  have hdrop := Files.dropStart?_plainLines hword ('<' :: after)
  rw [hplain, dropStart?_append, eq_comm, Option.map_eq_some_iff] at hdrop
  obtain ⟨more, hmore, rfl⟩ := hdrop
  exact ⟨before, more, by rw [dropStart?_eq_some_iff.mp hmore], rfl, rfl⟩

theorem endsMiscellany_type (text : List Char) : EndsMiscellany ("<!DOCTYPE".toList ++ text) where
  spaces := skipSpaces_eq_self (by rintro _ ⟨rfl⟩; decide)
  comment _ heq := by simp at heq
  instruction _ heq := by simp at heq

/-- A document that is read has its parts somewhere. -/
theorem exists_isLaid (h : readDocument? chars = some e) : ∃ prologue d before type behind body,
    chars = before ++ (type ++ (behind ++ body)) ∧ IsLaid prologue d before type behind body ∧
      root? d (plainLines body) = some e := by
  simp only [readDocument?, readProlog?, Option.bind_eq_bind,
    Option.bind_eq_some_iff, Prod.exists] at h
  obtain ⟨prologue, rest, hdeclaration, d, content, ⟨typed, hhead, hprolog⟩, hroot⟩ := h
  have hstart := root?_startsElement hroot
  obtain ⟨text, -, hsplit⟩ := isHead_of_read hdeclaration hhead
  split at hprolog
  · obtain ⟨rfl, rfl⟩ : {} = d ∧ typed = content := by simpa using hprolog
    obtain ⟨before, body, rfl, rfl, rfl, hbody⟩ := hstart.split hsplit
    exact ⟨prologue, {}, before, [], [], body, rfl, .untyped hbody hdeclaration hhead, hroot⟩
  · rename_i inside htype
    simp only [Option.bind_eq_some_iff, Prod.exists, Option.some.injEq, Prod.mk.injEq] at hprolog
    obtain ⟨d, left, hread, _, htail, rfl, rfl⟩ := hprolog
    -- The document type begins with its first word and ends with its mark.
    obtain rfl := dropStart?_eq_some_iff.mp htype
    obtain ⟨before, more, rfl, rfl, rfl⟩ := exists_type hsplit
    obtain ⟨inner, hinner⟩ := readDocumentType?_closed hread
    obtain ⟨inside, more, rfl, rfl, rfl⟩ := Files.plainLines_eq_append (by decide) hinner.symm
    -- The root begins behind what follows the document type.
    obtain ⟨between, -, hbetween⟩ := skipMiscellaneousWithin?_eq_some htail
    obtain ⟨behind, body, rfl, rfl, rfl, hbody⟩ := hstart.split hbetween
    rw [← plainLines_type] at hhead
    exact ⟨prologue, d, before, "<!DOCTYPE".toList ++ (inside ++ ['>']), behind, body, by simp,
      .typed hbody hdeclaration hhead hread htail, hroot⟩

namespace IsLaid

variable (h : IsLaid prologue d before type behind body)
include h

theorem start : StartsElement body := by
  cases h <;> assumption

theorem head : IsHead prologue (plainLines before) := by
  cases h with
  | untyped hstart hdeclaration hhead =>
    obtain ⟨text, htext, hsplit⟩ := isHead_of_read hdeclaration hhead
    rw [hstart.plainLines_append] at hsplit
    exact List.append_cancel_right hsplit ▸ htext
  | typed _ hdeclaration hhead =>
    obtain ⟨text, htext, hsplit⟩ := isHead_of_read hdeclaration hhead
    rw [Files.plainLines_append before (by rintro _ ⟨rfl⟩; decide)] at hsplit
    exact List.append_cancel_right hsplit ▸ htext

theorem readDeclaration? : ∃ rest,
    Xml.readDeclaration? (plainLines (before ++ (type ++ (behind ++ body)))) =
    some (prologue, rest) := by
  cases h with
  | untyped _ hdeclaration => exact ⟨_, hdeclaration⟩
  | typed _ hdeclaration => exact ⟨_, by simpa using hdeclaration⟩

theorem readDocument? :
    Xml.readDocument? (before ++ (type ++ (behind ++ body))) = root? d (plainLines body) := by
  cases h with
  | untyped hstart hdeclaration hhead =>
    have htype := hstart.plainLines.not_type
    simp only [Xml.readDocument?, List.nil_append, hdeclaration, Option.bind_eq_bind,
      Option.bind_some, readProlog?,
      hhead, htype]
  | @typed _ _ inside _ _ _ _ _ hdeclaration hhead htype htail =>
    have hchars : "<!DOCTYPE".toList ++ (inside ++ ['>']) ++ (behind ++ body) =
        "<!DOCTYPE".toList ++ (inside ++ '>' :: (behind ++ body)) := by simp
    rw [plainLines_type] at hhead
    simp only [-String.reduceToList, Xml.readDocument?, hchars, hdeclaration,
      Option.bind_eq_bind, Option.bind_some,
      readProlog?, hhead, dropStart?_append, htype, htail]

/-- A document type without its mark inside is passed over up to its end, in whatever encoding it is
read. -/
theorem isPassed (hmark : '>' ∉ type.dropLast)
    (hfront : IsRecoded front (before ++ (type ++ behind))) :
    IsPassed front := by
  have hbefore := h.head.leading.of_plainLines
  cases h with
  | untyped =>
    rw [List.append_nil, List.append_nil] at hfront
    exact (hfront.isLeading hbefore).isPassed
  | @typed _ _ inside _ _ _ _ hstart _ _ _ htail =>
    obtain ⟨between, hbetween, hsplit⟩ := skipMiscellaneousWithin?_eq_some htail
    rw [hstart.plainLines_append] at hsplit
    obtain rfl := List.append_cancel_right hsplit
    have hinside : '>' ∉ inside := by
      rw [← List.append_assoc, List.dropLast_concat] at hmark
      exact fun hmem => hmark (List.mem_append_right _ hmem)
    have hends : EndsAt ['>'] inside := by
      simpa using endsAt_append (endsAt_nil ['>']) fun c hc => ne_of_mem_of_not_mem hc hinside
    have htype : IsEnclosed "<!DOCTYPE".toList ['>'] ("<!DOCTYPE".toList ++ (inside ++ ['>'])) :=
      ⟨inside, (List.append_assoc _ _ _).symm, hends⟩
    obtain ⟨first, more, rfl, hfirst, hmore⟩ := hfront.split (by decide)
    obtain ⟨middle, last, hmiddleLast, hmiddle, hlast⟩ :=
      (hmore.ascii (by decide)).split_enclosed htype (by decide) (by decide)
    rw [hmiddleLast]
    exact (hfirst.isLeading hbefore).isPassed.append
      (.type hmiddle (hlast.isLeading hbetween.isLeading.of_plainLines).isPassed)

/-- So the document has the same parts with any other root. -/
theorem again (hmark : '>' ∉ type.dropLast) (hstart : StartsElement body') :
    (∃ isOpen, d = { entities := ⟨[], isOpen⟩ }) ∧ IsLaid prologue d before type behind body' := by
  have hhead := h.head
  cases h with
  | untyped =>
    obtain ⟨rest, hdeclaration, hrest⟩ := hhead.read hstart.plainLines.endsMiscellany
    rw [← hstart.plainLines_append] at hdeclaration
    exact ⟨⟨false, rfl⟩, .untyped hstart hdeclaration hrest⟩
  | @typed _ _ inside _ _ _ _ hstart₀ _ _ htype htail =>
    obtain ⟨between, hbetween, hsplit⟩ := skipMiscellaneousWithin?_eq_some htail
    rw [hstart₀.plainLines_append] at hsplit
    obtain rfl := List.append_cancel_right hsplit
    have hinside : '>' ∉ plainLines inside := by
      rw [← List.append_assoc, List.dropLast_concat] at hmark
      rw [Files.mem_plainLines (by decide) (by decide)]
      exact fun hmem => hmark (List.mem_append_right _ hmem)
    rw [plainLines_mark] at htype
    obtain ⟨hnothing, hagain⟩ := readDocumentType?_again hinside htype
    obtain ⟨rest, hdeclaration, hrest⟩ :=
      hhead.read (endsMiscellany_type (plainLines (inside ++ '>' :: (behind ++ body'))))
    refine ⟨hnothing, @IsLaid.typed _ _ _ _ _ rest _ hstart ?_ ?_ ?_ ?_⟩
    · rw [Files.plainLines_append before (by rintro _ ⟨rfl⟩; decide), plainLines_type]
      exact hdeclaration
    · rw [plainLines_type]
      exact hrest
    · rw [plainLines_mark]
      exact hagain _
    · rw [hstart.plainLines_append]
      exact hbetween.skip hstart.plainLines.endsMiscellany (Nat.lt_succ_self _)

end IsLaid

-- ---------------------------------------------------------------------------
-- Characters
-- ---------------------------------------------------------------------------

/-- In which encoding a text is read. Behind a byte order mark, which is passed over, it is that of
the text, and else the one that it declares. -/
inductive IsEncoded : (text mark : List Char) → Encoding → Prop
  | marked (text : List Char) : IsEncoded (byteOrderMark :: text) [byteOrderMark] .utf8
  | declared (unmarked : text.head? ≠ some byteOrderMark)
      (declaration : readDeclaration? (plainLines text) = some (prologue, rest))
      (named : prologue.encoding.elim (some .utf8) Encoding.ofName? = some encoding) :
      IsEncoded text [] encoding

theorem IsEncoded.unmarked (h : IsEncoded text [] encoding) : text.head? ≠ some byteOrderMark ∧
    ∃ prologue rest, readDeclaration? (plainLines text) = some (prologue, rest) ∧
      prologue.encoding.elim (some .utf8) Encoding.ofName? = some encoding := by
  cases h with
  | declared hhead hdeclaration hnamed => exact ⟨hhead, _, _, hdeclaration, hnamed⟩

/-- A document that is read in UTF-8 declares no other encoding. -/
theorem IsLaid.ofName?_encoding (h : IsLaid prologue d before type behind body)
    (hencoded : IsEncoded (before ++ (type ++ (behind ++ body))) [] .utf8)
    (hname : prologue.encoding = some name) :
    Encoding.ofName? name = some .utf8 := by
  obtain ⟨_, hdeclaration⟩ := h.readDeclaration?
  obtain ⟨-, _, _, hdeclaration', hnamed⟩ := hencoded.unmarked
  rw [hdeclaration] at hdeclaration'
  obtain ⟨rfl, -⟩ := Prod.mk.inj (Option.some.inj hdeclaration')
  rwa [hname] at hnamed

theorem charactersOf?_eq_some
    (h : charactersOf? (String.ofList text).toUTF8 (String.ofList text) = some chars) :
    ∃ mark behind encoding, text = mark ++ behind ∧ IsEncoded text mark encoding ∧
      encoding.reread? behind = some chars := by
  rw [charactersOf?, String.toList_ofList] at h
  split at h
  · cases h
  · rename_i c rest
    split at h
    · rename_i hmark
      obtain rfl := beq_iff_eq.mp hmark
      exact ⟨[byteOrderMark], rest, .utf8, rfl, .marked rest, (Encoding.reread?_utf8 rest).trans h⟩
    · rename_i hmark
      have hhead : (c :: rest).head? ≠ some byteOrderMark := by simpa using hmark
      simp only [Option.bind_eq_bind, Option.bind_eq_some_iff, Prod.exists] at h
      obtain ⟨prologue, left, hdeclaration, h⟩ := h
      cases hname : prologue.encoding with
      | none =>
        rw [hname] at h
        exact ⟨[], c :: rest, .utf8, rfl, .declared hhead hdeclaration (by rw [hname]; rfl),
          (Encoding.reread?_utf8 _).trans h⟩
      | some name =>
        rw [hname] at h
        simp only [Option.bind_eq_some_iff] at h
        obtain ⟨encoding, hencoding, h⟩ := h
        refine ⟨[], c :: rest, encoding, rfl,
          .declared hhead hdeclaration (by rw [hname]; exact hencoding), ?_⟩
        cases encoding with
        | utf8 => exact (Encoding.reread?_utf8 _).trans h
        | _ => exact h

-- ---------------------------------------------------------------------------
-- Prologs
-- ---------------------------------------------------------------------------

theorem parseBytes?_undeclared (hmark : chars.head? ≠ some byteOrderMark)
    (h : readDeclaration? (plainLines chars) = some ({}, rest)) (content : ByteArray) :
    parseBytes? content (String.ofList chars) = readDocument? chars := by
  refine parseBytes?_ofList hmark (fun prologue rest' name hread hname => ?_) content
  obtain ⟨rfl, -⟩ := Prod.mk.inj (Option.some.inj (h.symm.trans hread))
  cases hname

namespace File

open Piece (areEndings_endingOf)

/-- A file whose document type has no such mark inside is read again once it is written. -/
theorem read_again_of_isLaid (h : IsLaid prologue d before type behind body)
    (hmark : '>' ∉ type.dropLast)
    (hroot : root? d (plainLines body) = some e)
    (hchars : chars = before ++ (type ++ (behind ++ body)))
    (hencoded : IsEncoded chars [] .utf8) (marked : Bool) :
    ∃ f, ofBytes (ofCharacters marked chars e).toString.toUTF8 = .ok f ∧ f.root = e ∧
      f.prolog = (ofCharacters marked chars e).prolog := by
  obtain ⟨front, hfront⟩ : ∃ front, front = before ++ (type ++ behind) := ⟨_, rfl⟩
  have hjoin : ∀ body, before ++ (type ++ (behind ++ body)) = front ++ body := by simp [hfront]
  have hpassed : IsPassed front := h.isPassed hmark (hfront ▸ .refl front)
  obtain ⟨⟨isOpen, rfl⟩, -⟩ := h.again hmark h.start
  have hheld : e.IsHeldRoot isOpen := root?_held (by simp [Files.not_mem_plainLines]) hroot
  obtain ⟨body, blanks, rfl, hbody⟩ := exists_isBody h.start hroot
  have hprolog : prologOf (front ++ (body ++ blanks)) = front :=
    (prologOf_eq_iff h.start.endsProlog).mpr hpassed
  -- The text that is written has the same parts, with the root as it is written.
  have hstyle := isTagEnd_tagStyle (String.ofList chars)
  obtain ⟨written, hwritten⟩ :
      ∃ cs, cs = e.write (newlineOf chars) (tagStyle (String.ofList chars)) := ⟨_, rfl⟩
  have hbody' : IsBody written blanks := hwritten ▸ hheld.isBody_write _ hbody.blanks hstyle
  have hstart := hbody'.start.append blanks
  have hlaid := (h.again hmark hstart).2
  have hprolog' : prologOf (front ++ (written ++ blanks)) = front :=
    (prologOf_eq_iff hstart.endsProlog).mpr hpassed
  have hread : readDocument? (front ++ (written ++ blanks)) = some e := by
    have hplain := hheld.plainLines_write chars hstyle
    rw [← hwritten] at hplain
    have hsplit : plainLines (written ++ blanks) = plainLines written ++ plainLines blanks := by
      simpa using @IsBody.plainLines_eq [] _ _ hbody'
    rw [hplain] at hsplit
    rw [← hjoin, hlaid.readDocument?, hsplit]
    exact hheld.read (areTagEnds_stopOf (areEndings_endingOf hstyle))
      (allSpaces_plainLines hbody.blanks)
      (Files.not_mem_plainLines blanks)
  -- It declares the same encoding.
  have hencoding : ∀ name, prologue.encoding = some name → Encoding.ofName? name = some .utf8 :=
    fun _ => h.ofName?_encoding (hchars ▸ hencoded)
  have hhead := hencoded.unmarked.1
  rw [hjoin] at hchars
  have hhead' : (front ++ (written ++ blanks)).head? ≠ some byteOrderMark :=
    hbody'.head?_ne (hchars ▸ hhead)
  obtain ⟨hmarked, hunmarked⟩ := unmarked_ofList hhead' marked
  have hparse := parseBytes?_ofList hhead' fun prologue' rest name hdeclaration hname => by
    obtain ⟨rest', hdeclaration'⟩ := hlaid.readDeclaration?
    rw [hjoin, hdeclaration] at hdeclaration'
    obtain ⟨rfl, -⟩ := Prod.mk.inj (Option.some.inj hdeclaration')
    exact hencoding name hname
  refine ⟨ofCharacters marked (front ++ (written ++ blanks)) e, ?_, rfl, ?_⟩
  · rw [toString_ofCharacters marked hprolog hbody hheld hchars, ← hwritten]
    refine (ofBytes_eq_ok_iff (Files.textOf?_toUTF8 _)
      (hunmarked.symm ▸ hparse _)).mpr ⟨e, hread, ?_⟩
    rw [hunmarked, hmarked]
  · simp only [ofCharacters, hchars, hprolog, hprolog']

/-- The prolog of a file is what stands before its root exactly if that consists of what is passed
over, and this is so if the document type has no mark inside and there is one byte order mark at
most. Then the file is read again once it is written, if it declares no other encoding. One that
does is accepted as far as the model reads that encoding. -/
theorem prolog_eq_iff (htext : Files.textOf? content = some text) (h : ofBytes content = .ok f) :
    ∃ mark front rest encoding prologue d before type behind body,
      unmarked text = mark ++ (front ++ rest) ∧ IsEncoded (unmarked text) mark encoding ∧
      encoding.reread? front = some (before ++ (type ++ behind)) ∧
      encoding.reread? rest = some body ∧
      IsLaid prologue d before type behind body ∧ root? d (plainLines body) = some f.root ∧
      (f.prolog.toList = mark ++ front ↔ IsPassed (mark ++ front)) ∧
      (mark = [] → '>' ∉ type.dropLast → f.prolog.toList = front ∧
        (encoding = .utf8 → ∃ f', ofBytes f.toString.toUTF8 = .ok f' ∧ f'.root = f.root ∧
          f'.prolog = f.prolog)) := by
  obtain ⟨e, hread, rfl⟩ := (ofBytes_eq_ok_iff htext rfl).mp h
  obtain ⟨chars, hchars, hread⟩ := Option.bind_eq_some_iff.mp hread
  obtain ⟨mark, chars', encoding, hmark, hencoded, hreread⟩ := charactersOf?_eq_some hchars
  obtain ⟨prologue, d, before, type, behind, body, rfl, hlaid, hroot⟩ := exists_isLaid hread
  obtain ⟨front, rest, rfl, hfront, hrest⟩ : ∃ front rest, chars' = front ++ rest ∧
      encoding.reread? front = some (before ++ (type ++ behind)) ∧
      encoding.reread? rest = some body := by
    obtain ⟨c, more, hbody, -⟩ := hlaid.start
    have hsplit : before ++ (type ++ (behind ++ body)) = before ++ (type ++ behind) ++
        '<' :: c :: more := by
      simp [hbody]
    rw [hbody]
    exact encoding.reread?_split (by decide) (hreread.trans (congrArg some hsplit))
  have hends : EndsProlog rest := (encoding.isRecoded hrest).endsProlog hlaid.start
  have hiff : (prologOf (unmarked text) = mark ++ front ↔ IsPassed (mark ++ front)) := by
    rw [← prologOf_eq_iff hends, hmark, List.append_assoc]
  simp only [ofCharacters, String.toList_ofList]
  refine ⟨mark, front, rest, encoding, prologue, d, before, type, behind, body, hmark, hencoded,
    hfront, hrest, hlaid,
    hroot, hiff, ?_⟩
  rintro rfl hinside
  refine ⟨hiff.mpr (hlaid.isPassed hinside (encoding.isRecoded hfront)), ?_⟩
  rintro rfl
  rw [Encoding.reread?_utf8] at hfront hrest
  obtain rfl := Option.some.inj hfront
  obtain rfl := Option.some.inj hrest
  exact read_again_of_isLaid hlaid hinside hroot (by rw [hmark]; simp) hencoded _

def typedText : String := "<!-- > --><!DOCTYPE a SYSTEM \"s\">\n<a/>"

theorem readDeclaration?_typedText :
    readDeclaration? (plainLines typedText.toList) = some ({}, typedText.toList) := by
  rw [typedText, String.toList_ofList]
  rfl

theorem isEncoded_typedText (h : IsEncoded typedText.toList mark encoding) :
    mark = [] ∧ encoding = .utf8 := by
  generalize hchars : typedText.toList = chars at h
  cases h with
  | marked => cases hchars
  | declared _ hdeclaration hnamed =>
    subst hchars
    rw [readDeclaration?_typedText] at hdeclaration
    obtain ⟨rfl, -⟩ := Prod.mk.inj (Option.some.inj hdeclaration)
    exact ⟨rfl, (Option.some.inj hnamed).symm⟩

/-- However the text is laid out, its document type ends with the only mark in it. -/
theorem not_mem_type_typedText (h : IsLaid prologue d before type behind body)
    (hchars : before ++ (type ++ (behind ++ body)) = typedText.toList) : '>' ∉ type.dropLast := by
  cases h with
  | untyped => exact List.not_mem_nil
  | @typed _ _ inside _ _ _ _ _ hdeclaration hhead htype _ =>
    rw [List.append_assoc, List.append_assoc, List.singleton_append] at hchars
    rw [hchars, readDeclaration?_typedText] at hdeclaration
    obtain ⟨rfl, rfl⟩ := Prod.mk.inj (Option.some.inj hdeclaration)
    have hskip : skipMiscellaneous? typedText.toList =
        some ("<!DOCTYPE".toList ++ " a SYSTEM \"s\">\n<a/>".toList) := by
      rw [typedText, String.toList_ofList]
      rfl
    rw [hskip, plainLines_type] at hhead
    have hbehind := List.append_cancel_left (Option.some.inj hhead)
    have hread : readDocumentType? false " a SYSTEM \"s\">\n<a/>".toList =
        some (({} : DocumentType).opened false, "\n<a/>".toList) := by rfl
    rw [← hbehind, hread] at htype
    have hleft : plainLines (behind ++ body) = "\n<a/>".toList :=
      (Prod.mk.inj (Option.some.inj htype)).2.symm
    have hplain : " a SYSTEM \"s\"".toList ++ '>' :: "\n<a/>".toList =
        plainLines inside ++ '>' :: "\n<a/>".toList := by
      rwa [plainLines_mark, hleft] at hbehind
    have hmark : '>' ∉ plainLines inside := List.append_cancel_right hplain ▸ by decide
    rw [Files.mem_plainLines (by decide) (by decide)] at hmark
    rw [← List.append_assoc, List.dropLast_concat]
    simpa using hmark

theorem prolog_eq_iff_typedText :
    Files.textOf? typedText.toUTF8 = some typedText ∧ ∃ f f', ofBytes typedText.toUTF8 = .ok f ∧
      f.prolog = "<!-- > --><!DOCTYPE a SYSTEM \"s\">\n" ∧ ofBytes f.toString.toUTF8 = .ok f' ∧
      f'.root = f.root ∧ f'.prolog = f.prolog := by
  have htext := Files.textOf?_toUTF8 typedText
  have hunmarked : unmarked typedText = typedText.toList := if_neg (by decide)
  have hparse : parseBytes? (String.ofList (unmarked typedText)).toUTF8
      (String.ofList (unmarked typedText)) =
      some ⟨⟨.plain "a", [], []⟩, []⟩ := by
    rw [hunmarked, parseBytes?_undeclared (by decide) readDeclaration?_typedText]
    rfl
  have hread := (ofBytes_eq_ok_iff htext hparse).mpr ⟨_, rfl, rfl⟩
  obtain ⟨mark, front, rest, encoding, prologue, d, before, type, behind, body, hsplit, hencoded,
      hfront, hrest, hlaid,
    hroot, -, hagain⟩ := prolog_eq_iff htext hread
  obtain ⟨rfl, rfl⟩ := isEncoded_typedText (hunmarked ▸ hencoded)
  have hchars : before ++ (type ++ (behind ++ body)) = typedText.toList := by
    rw [Encoding.reread?_utf8] at hfront hrest
    rw [← hunmarked, hsplit, Option.some.inj hfront, Option.some.inj hrest]
    simp
  obtain ⟨-, f', hf', hroot', hprolog'⟩ :=
    (hagain rfl (not_mem_type_typedText hlaid hchars)).imp_right fun h => h rfl
  refine ⟨htext, _, f', hread, ?_, hf', hroot', hprolog'⟩
  rw [hunmarked]
  rfl

def declaringText : String := "<!DOCTYPE a [<!ELEMENT a ANY>]>\n<a/>"

/-- The prolog of such a file ends inside the document type, and what is written of it is no
document. -/
theorem prolog_declaringText : ∃ f, ofBytes declaringText.toUTF8 = .ok f ∧
    IsLaid {} {} [] "<!DOCTYPE a [<!ELEMENT a ANY>]>".toList ['\n'] "<a/>".toList ∧
    f.prolog = "<!DOCTYPE a [<!ELEMENT a ANY>" ∧ f.toString = "<!DOCTYPE a [<!ELEMENT a ANY><a/>" ∧
    ofBytes f.toString.toUTF8 = .error .malformed := by
  have hunmarked : unmarked declaringText = declaringText.toList := if_neg (by decide)
  have hundeclared : readDeclaration? (plainLines declaringText.toList) =
      some ({}, declaringText.toList) := by
    rw [declaringText, String.toList_ofList]
    rfl
  have hparse : parseBytes? (String.ofList (unmarked declaringText)).toUTF8
      (String.ofList (unmarked declaringText)) =
      some ⟨⟨.plain "a", [], []⟩, []⟩ := by
    rw [hunmarked, parseBytes?_undeclared (by decide) hundeclared]
    rfl
  have hread := (ofBytes_eq_ok_iff (Files.textOf?_toUTF8 declaringText) hparse).mpr ⟨_, rfl, rfl⟩
  rw [hunmarked] at hread
  have hstring : (ofCharacters (declaringText.toList.head? == some byteOrderMark)
      declaringText.toList
      ⟨⟨.plain "a", [], []⟩, []⟩).toString = "<!DOCTYPE a [<!ELEMENT a ANY><a/>" := by rfl
  refine ⟨_, hread, ?_, rfl, hstring, ?_⟩
  · exact @IsLaid.typed _ _ " a [<!ELEMENT a ANY>]".toList _ _ _ _
      ⟨'a', ['/', '>'], rfl, by decide⟩ hundeclared rfl rfl
      rfl
  · rw [hstring, ofBytes, Files.textOf?_toUTF8]
    rfl

end File

end DocMerge.Xml

import DocMerge.Proofs.Fuel
import DocMerge.Proofs.Prologs
import DocMerge.Proofs.Restyling

/-!
# Spaces at the ends of empty elements

What is printed of a tree is cut into the same tokens whatever ends its empty elements, also where
it cannot be read: a tag with an entity that is not declared cannot be read in any style. So the
restyled tree is read wherever the tree is, and as the same tree.
-/

namespace DocMerge.Xml

open Text (EndsAt endsAt_of_prefix cutAt?_eq_some_iff dropStart? dropStart?_append
  dropStart?_eq_some_iff)
open Files (plainLines)

variable {entities : Entities} {cs ds rest : List Char}

-- ---------------------------------------------------------------------------
-- What is read of a tag
-- ---------------------------------------------------------------------------

theorem readReference?_name {name : String} (h : isName name.toList = true) (entities : Entities) :
    ∃ reference?, ∀ rest, readReference? entities (name.toList ++ ';' :: rest) =
      Option.map (·, rest) reference? := by
  have hread : ∀ rest, readName? (name.toList ++ ';' :: rest) =
      some (name, ';' :: rest) := fun rest =>
    readName?_eq_some_iff.mpr ⟨h, rfl, by rintro _ ⟨rfl⟩; decide⟩
  have hhead : ∀ rest digits, name.toList ++ ';' :: rest ≠ '#' :: digits := by
    intro rest digits heq
    cases hname : name.toList with
    | nil => simp [hname, isName] at h
    | cons c cs =>
      rw [hname] at heq
      obtain ⟨rfl, -⟩ := List.cons.inj heq
      have hnot : isNameStart '#' = false := by decide
      simp [hname, isName, hnot] at h
  refine ⟨(standing.lookup name).elim (if entities.accepts name then some (.entity name) else none)
    fun c => some (.character c), fun rest => ?_⟩
  unfold readReference?
  split
  · rename_i heq
    exact absurd heq (hhead rest _)
  · have hdrop : dropStart? [';'] (';' :: rest) = some rest := dropStart?_append [';'] rest
    simp only [hread, Option.bind_eq_bind, Option.bind_some, hdrop]
    cases standing.lookup name with
    | some c => rfl
    | none => cases entities.accepts name <;> rfl

/-- A piece of a value is read before the rest of the value, if it can be read. -/
theorem ValuePiece.IsWritable.read {piece : ValuePiece} (h : piece.IsWritable)
    (entities : Entities) (fuel : Nat) :
    ∃ piece? : Option ValuePiece, ∀ rest,
    readValue? entities (some '"') (fuel + 1) (piece.print ++ rest) =
      piece?.bind fun piece => (readValue? entities (some '"') fuel rest).map fun (v, rest) =>
        (piece :: v, rest) := by
  cases piece with
  | reference name meaning =>
    obtain ⟨reference?, hread⟩ := readReference?_name h entities
    refine ⟨reference?.bind (referencePiece? entities fuel), fun rest => ?_⟩
    have hprint : print (.reference name meaning) ++ rest = '&' ::
        (name.toList ++ ';' :: rest) := by
      simp [print, printReference]
    rw [hprint, readValue?_ampersand, hread]
    cases reference? <;> rfl
  | char c =>
    have hescaped : ∀ {c' : Char} (text : List Char),
        (∀ rest, readReference? entities (text ++ rest) = some (.character c', rest)) → ∀ rest,
        readValue? entities (some '"') (fuel + 1) ('&' :: text ++ rest) =
          (some (ValuePiece.char c')).bind fun piece =>
            (readValue? entities (some '"') fuel rest).map fun (v, rest) => (piece :: v, rest) := by
      intro c' text hread rest
      rw [List.cons_append, readValue?_ampersand, hread]
      rfl
    rw [print]
    unfold escapeValue
    split
    · exact ⟨_, hescaped "quot;".toList fun _ => rfl⟩
    · exact ⟨_, hescaped "#10;".toList fun _ => rfl⟩
    · exact ⟨_, hescaped "#9;".toList fun _ => rfl⟩
    · unfold escapeText
      split
      · exact ⟨_, hescaped "lt;".toList fun _ => rfl⟩
      · exact ⟨_, hescaped "gt;".toList fun _ => rfl⟩
      · exact ⟨_, hescaped "amp;".toList fun _ => rfl⟩
      · exact ⟨_, hescaped "#13;".toList fun _ => rfl⟩
      · rename_i _ hquote _ _ _ _ _ hand _
        refine ⟨if c == '<' || !isAllowed c then none
          else some (.char (if isSpace c && (some '"').isSome then ' ' else c)), fun rest => ?_⟩
        have hnot : (some '"' == some c) = false := by simpa using Ne.symm hquote
        rw [List.singleton_append, readValue?_cons hand, hnot]
        simp only [Bool.false_eq_true, if_false]
        split <;> rfl

/-- The end of a value, whatever follows it. -/
theorem readValue?_printed {v : Value} (h : ∀ piece ∈ v, piece.IsWritable)
    (entities : Entities) (fuel : Nat) :
    ∃ value?, ∀ rest, readValue? entities (some '"') fuel
      (v.flatMap ValuePiece.print ++ '"' :: rest) =
      Option.map (·, rest) value? := by
  induction v generalizing fuel with
  | nil =>
    cases fuel with
    | zero => exact ⟨none, fun _ => rfl⟩
    | succ fuel => exact ⟨some [], fun rest => by simp [readValue?_cons]⟩
  | cons piece v ih =>
    obtain ⟨hpiece, hv⟩ := List.forall_mem_cons.mp h
    cases fuel with
    | zero => exact ⟨none, fun _ => rfl⟩
    | succ fuel =>
      obtain ⟨piece?, hread⟩ := hpiece.read entities fuel
      obtain ⟨value?, hrest⟩ := ih hv fuel
      refine ⟨piece?.bind fun piece => value?.map (piece :: ·), fun rest => ?_⟩
      rw [List.flatMap_cons, List.append_assoc, hread, hrest]
      cases piece? <;> cases value? <;> rfl

theorem readAttribute?_printed {a : RawAttribute} (h : a.IsWritable)
    (entities : Entities) (fuel : Nat) :
    ∃ attribute?, ∀ rest, readAttribute? entities fuel (a.print ++ rest) =
    Option.map (·, rest) attribute? := by
  obtain ⟨value?, hvalue⟩ := readValue?_printed h.value entities fuel
  refine ⟨value?.map (a.1, ·), fun rest => ?_⟩
  rw [readAttribute?_written h.name, hvalue]
  cases value? <;> rfl

theorem readAttributes?_printed {attributes : List RawAttribute}
    (h : ∀ a ∈ attributes, a.IsWritable)
    (entities : Entities) (fuel : Nat) :
    ∃ attributes?, ∀ stop empty rest, IsTagEnd stop empty →
      readAttributes? entities fuel
        (attributes.flatMap (fun a => ' ' :: RawAttribute.print a) ++ (stop ++ rest)) =
        Option.map (·, empty, rest) attributes? := by
  induction attributes generalizing fuel with
  | nil =>
    cases fuel with
    | zero => exact ⟨none, fun _ _ _ _ => rfl⟩
    | succ fuel =>
      refine ⟨some [], fun stop empty rest hstop => ?_⟩
      rw [List.flatMap_nil, List.nil_append, readAttributes?, hstop.read]
      rfl
  | cons a attributes ih =>
    obtain ⟨ha, hattributes⟩ := List.forall_mem_cons.mp h
    cases fuel with
    | zero => exact ⟨none, fun _ _ _ _ => rfl⟩
    | succ fuel =>
      obtain ⟨attribute?, hfirst⟩ := readAttribute?_printed ha entities (fuel + 1)
      obtain ⟨attributes?, hmore⟩ := ih hattributes fuel
      refine ⟨attribute?.bind fun a => attributes?.map (a :: ·), fun stop empty rest hstop => ?_⟩
      rw [List.flatMap_cons, List.append_assoc, List.cons_append,
        readAttributes?_written ha.name, hfirst]
      cases attribute? with
      | none => rfl
      | some a =>
        simp only [Option.map_some, Option.bind_some, hmore stop empty rest hstop]
        cases attributes? <;> rfl

/-- Of a tag the same is read whatever ends it. -/
theorem Tag.IsWritable.readTokens? {t : Tag} (h : t.IsWritable) (entities : Entities) (fuel : Nat) :
    ∃ attributes?, ∀ stop (empty : Bool) rest, IsTagEnd stop empty →
      Xml.readTokens? entities fuel ('<' :: (t.print ++ stop) ++ rest) =
        Option.map (fun attributes => (.opening t.name.written attributes ::
          if empty then [.closing t.name.written] else [], rest)) attributes? := by
  obtain ⟨attributes?, hread⟩ := readAttributes?_printed h.attributes entities fuel
  refine ⟨attributes?, fun stop empty rest hstop => ?_⟩
  obtain ⟨c, cs, hprint, hc⟩ := h.name.print_eq_cons
  have htext : t.print ++ stop ++ rest =
      t.name.written.print ++
      (t.raw.flatMap (fun a => ' ' :: RawAttribute.print a) ++ (stop ++ rest)) := by
    rw [t.print_append, printOpening]
    simp only [List.append_assoc]
  have hopening : Xml.readTokens? entities fuel ('<' :: (t.print ++ stop) ++ rest) =
      readOpening? entities fuel (printOpening t.name.written t.raw stop ++ rest) := by
    rw [← t.print_append, List.cons_append, Xml.readTokens?, htext, hprint]
    exact readMarkup?_name hc _
  rw [hopening, readOpening?_written h.name t.raw hstop, hread stop empty rest hstop]
  cases attributes? <;> rfl

-- ---------------------------------------------------------------------------
-- What is read of other nodes
-- ---------------------------------------------------------------------------

/-- A part of which the same tokens are read whatever follows it, if any. -/
def ReadsApart (entities : Entities) (part : List Char) : Prop :=
  ∀ fuel, ∃ tokens?, ∀ rest, readTokens? entities fuel (part ++ rest) = Option.map (·, rest) tokens?

theorem readsApart_section (h : EndsAt sectionEnd body) (entities : Entities) :
    ReadsApart entities (sectionStart ++ body ++ sectionEnd) := by
  intro fuel
  refine ⟨if body.all isAllowed then some [.cdata (String.ofList body)] else none, fun rest => ?_⟩
  have hopen : dropStart? "[CDATA[".toList ("[CDATA[".toList ++ (body ++ sectionEnd ++ rest)) =
      some (body ++ sectionEnd ++ rest) := dropStart?_append _ _
  have hcut : Text.cutAt? "]]>".toList (body ++ sectionEnd ++ rest) = some (body, rest) :=
    cutAt?_eq_some_iff.mpr ⟨h, rfl⟩
  show readMarkup? entities fuel ('!' :: ("[CDATA[".toList ++ (body ++ sectionEnd ++ rest))) = _
  rw [readMarkup?, hopen]
  · simp only [Option.bind_eq_bind, Option.bind_some, readUntil?, hcut]
    cases body.all isAllowed <;> rfl
  · rintro _ ⟨⟩

theorem readsApart_comment (h : EndsAt ['-', '-', '>'] body) (entities : Entities) :
    ReadsApart entities (['<', '!', '-', '-'] ++ body ++ ['-', '-', '>']) := by
  intro fuel
  have hread : ∀ rest,
      readTokens? entities fuel (['<', '!', '-', '-'] ++ body ++ ['-', '-', '>'] ++ rest) =
      (readComment? (body ++ ['-', '-', '>'] ++ rest)).map fun found =>
        ([.comment found.1], found.2) := fun _ => rfl
  by_cases hcomment : IsComment (String.ofList body)
  · refine ⟨some [.comment (String.ofList body)], fun rest => ?_⟩
    have hfound : readComment? (body ++ ['-', '-', '>'] ++ rest) =
        some (String.ofList body, rest) :=
      readComment?_eq_some_iff.mpr ⟨hcomment, by simp⟩
    rw [hread, hfound]
    rfl
  · refine ⟨none, fun rest => ?_⟩
    rw [hread, Option.map_none, Option.map_eq_none_iff, Option.eq_none_iff_forall_ne_some]
    rintro ⟨s, behind⟩ hfound
    obtain ⟨hs, heq⟩ := readComment?_eq_some_iff.mp hfound
    obtain ⟨rfl, -⟩ := h.unique ( endsAt_of_prefix hs.ends ['>']) heq
    exact hcomment (by rwa [String.ofList_toList])

theorem readsApart_instruction (h : EndsAt ['?', '>'] body) (entities : Entities) :
    ReadsApart entities (['<', '?'] ++ body ++ ['?', '>']) := by
  intro fuel
  have hread : ∀ rest, readTokens? entities fuel (['<', '?'] ++ body ++ ['?', '>'] ++ rest) =
      (readInstruction? (body ++ ['?', '>'] ++ rest)).map
        fun found => ([.instruction found.1 found.2.1], found.2.2) := fun _ => rfl
  by_cases hinstruction : ∃ target data gap, IsInstruction target data ∧ IsGap data gap ∧
      body = target.toList ++ gap ++ (data.getD "").toList
  · obtain ⟨target, data, gap, hinstruction, hgap, rfl⟩ := hinstruction
    refine ⟨some [.instruction target data], fun rest => ?_⟩
    rw [hread, readInstruction?_eq_some_iff.mpr ⟨hinstruction, gap, hgap, rfl⟩]
    rfl
  · refine ⟨none, fun rest => ?_⟩
    rw [hread, Option.map_none, Option.map_eq_none_iff, Option.eq_none_iff_forall_ne_some]
    rintro ⟨target, data, behind⟩ hfound
    obtain ⟨htarget, gap, hgap, heq⟩ := readInstruction?_eq_some_iff.mp hfound
    obtain ⟨_, hbody, hends⟩ := isEnclosed_instruction htarget hgap
    obtain rfl := List.append_cancel_right (List.cons.inj (List.cons.inj hbody).2).2
    obtain ⟨rfl, -⟩ := h.unique hends heq
    exact hinstruction ⟨target, data, gap, htarget, hgap, rfl⟩

theorem IsSealed.readsApart (h : IsSealed s) (entities : Entities) : ReadsApart entities s := by
  obtain ⟨marks, hmarks, body, rfl, hends⟩ := h
  simp only [seals, List.mem_cons, List.not_mem_nil, or_false] at hmarks
  rcases hmarks with rfl | rfl | rfl
  · exact readsApart_section hends entities
  · exact readsApart_comment hends entities
  · exact readsApart_instruction hends entities

theorem readsApart_reference {name : String} (h : isName name.toList = true) (entities : Entities) :
    ReadsApart entities (printReference name) := by
  intro fuel
  obtain ⟨reference?, hread⟩ := readReference?_name h entities
  refine ⟨reference?.map fun reference =>
    reference.casesOn (fun c => [.escaped c]) fun name => [.reference name], fun rest => ?_⟩
  have hprint : printReference name ++ rest = '&' :: (name.toList ++ ';' :: rest) := by
    simp [printReference]
  rw [hprint, readTokens?, hread]
  cases reference? with
  | none => rfl
  | some reference => cases reference <;> rfl

theorem QName.IsWritten.readsApart {q : QName} (h : q.IsWritten) (entities : Entities) :
    ReadsApart entities ('<' :: '/' :: (q.print ++ ['>'])) := by
  intro fuel
  refine ⟨some [.closing q], fun rest => ?_⟩
  have hread : readTokens? entities fuel ('<' :: '/' :: (q.print ++ ['>']) ++ rest) =
      (readClosing? (q.print ++ ['>'] ++ rest)).map fun found => ([found.1], found.2) := rfl
  rw [hread, List.append_assoc, List.singleton_append, readClosing?_print h]
  rfl

structure IsBehindText (rest : List Char) : Prop where
  close : rest.head? ≠ some '>'
  ends : ¬ [']', '>'] <+: rest

theorem isBehindText_of_ne (h : c ≠ ']' ∧ c ≠ '>') (cs : List Char) : IsBehindText (c :: cs) where
  close := by simpa using h.2
  ends := by simp [List.cons_prefix_cons, h.1.symm]

theorem readTokens?_char (c : Char) (entities : Entities) (fuel : Nat) :
    ∃ tokens?, ∀ rest, IsBehindText rest →
      readTokens? entities fuel (escapeText c ++ rest) = Option.map (·, rest) tokens? := by
  unfold escapeText
  split
  · exact ⟨some [.escaped '<'], fun _ _ => rfl⟩
  · exact ⟨some [.escaped '>'], fun _ _ => rfl⟩
  · exact ⟨some [.escaped '&'], fun _ _ => rfl⟩
  · exact ⟨some [.escaped '\r'], fun _ _ => rfl⟩
  · rename_i hopen _ hand _
    refine ⟨if isAllowed c then some [.char c] else none, fun rest hrest => ?_⟩
    have hstop : Text.hasStart [']', '>'] rest = false := by
      rw [Text.hasStart, dropStart?_eq_none_iff.mpr hrest.ends]
      rfl
    rw [List.singleton_append, readTokens?, hstop]
    · cases isAllowed c <;> simp
    · exact hopen
    · exact hand

theorem IsBehindText.text (h : IsBehindText rest) (cs : List Char) :
    IsBehindText (cs.flatMap escapeText ++ rest) := by
  induction cs with
  | nil => exact h
  | cons c cs ih =>
    obtain ⟨d, ds, heq, hd, hbracket⟩ := head?_escapeText c
    rw [List.flatMap_cons, heq]
    refine ⟨by simpa using hd, ?_⟩
    by_cases hc : d = ']'
    · obtain ⟨-, rfl⟩ := hbracket hc
      intro hprefix
      have hclose := ih.close
      cases hmore : cs.flatMap escapeText ++ rest with
      | nil => simp [hmore] at hprefix
      | cons e es =>
        rw [hmore] at hclose
        have hstart : [']', '>'] <+: d :: e :: es := by simpa [hmore] using hprefix
        simp only [List.cons_prefix_cons] at hstart
        exact hclose (congrArg some hstart.2.1.symm)
    · simp [List.cons_prefix_cons, Ne.symm hc]

-- ---------------------------------------------------------------------------
-- Texts that are cut alike
-- ---------------------------------------------------------------------------

/-- Whether two texts, once their line ends are read, are cut into the same tokens, also behind
text. -/
structure Alike (entities : Entities) (cs ds : List Char) : Prop where
  first : IsBehindText (plainLines cs)
  second : IsBehindText (plainLines ds)
  tokens : ∀ fuel, tokensWithin? entities fuel (plainLines cs) =
    tokensWithin? entities fuel (plainLines ds)

/-- One step of cutting: the same tokens, and then texts that are cut alike. -/
theorem tokensWithin?_congr {rest' : List Char}
    (hrest : ∀ fuel, tokensWithin? entities fuel rest = tokensWithin? entities fuel rest')
    (hcs : cs ≠ []) (hds : ds ≠ [])
    (hread : ∀ fuel, ∃ tokens?, readTokens? entities fuel cs = Option.map (·, rest) tokens? ∧
      readTokens? entities fuel ds = Option.map (·, rest') tokens?) (fuel : Nat) :
    tokensWithin? entities fuel cs = tokensWithin? entities fuel ds := by
  cases fuel with
  | zero => rfl
  | succ fuel =>
    obtain ⟨tokens?, hfirst, hsecond⟩ := hread (fuel + 1)
    rw [tokensWithin?, tokensWithin?, hfirst, hsecond, if_neg (by simpa using hcs),
      if_neg (by simpa using hds)]
    cases tokens? with
    | none => rfl
    | some tokens => simp [hrest]

theorem plainLines_apart (h : '\r' ∉ cs) (rest : List Char) :
    plainLines (cs ++ rest) = cs ++ plainLines rest := by
  induction cs with
  | nil => rfl
  | cons c cs ih =>
    rw [List.mem_cons, not_or] at h
    rw [List.cons_append, Files.plainLines_cons (Ne.symm h.1), ih h.2, List.cons_append]

theorem plainLines_concat (hc : c ≠ '\n' ∧ c ≠ '\r') (cs rest : List Char) :
    plainLines (cs ++ c :: rest) = plainLines cs ++ c :: plainLines rest := by
  have hhead : ∀ d ∈ (c :: rest).head?, d ≠ '\n' := by
    rintro _ ⟨rfl⟩
    exact hc.1
  rw [Files.plainLines_append cs hhead, Files.plainLines_cons hc.2]

theorem IsEnclosed.plainLines (hs : IsEnclosed start (m :: stop) s)
    (hstart : ∀ c ∈ start, c ≠ '\n' ∧ c ≠ '\r')
    (hstop : ∀ c ∈ m :: stop, c ≠ '\n' ∧ c ≠ '\r') :
    IsEnclosed start (m :: stop) (Files.plainLines s) := by
  obtain ⟨body, rfl, hends⟩ := hs
  have hnot : ∀ cs : List Char, (∀ c ∈ cs, c ≠ '\n' ∧ c ≠ '\r') → '\r' ∉ cs :=
    fun cs hcs hmem => (hcs _ hmem).2 rfl
  refine ⟨Files.plainLines body, ?_, ?_⟩
  · rw [List.append_assoc, plainLines_apart (hnot start hstart),
      plainLines_concat (hstop m List.mem_cons_self),
      Files.plainLines_eq_self (hnot stop fun c hc => hstop c (List.mem_cons_of_mem m hc)),
      List.append_assoc]
  · have hcut := Files.cutAt?_plainLines hstop (body ++ m :: stop)
    rw [hends, plainLines_concat (hstop m List.mem_cons_self),
      Files.plainLines_eq_self (hnot stop fun c hc => hstop c (List.mem_cons_of_mem m hc))] at hcut
    exact hcut

/-- A sealed part stays one when line ends are read, and ends no line. -/
theorem IsSealed.plainLines (hs : IsSealed s) :
    IsSealed (Files.plainLines s) ∧
      ∀ rest, Files.plainLines (s ++ rest) = Files.plainLines s ++ Files.plainLines rest := by
  have happend : ∀ start body stop, s = start ++ body ++ (stop ++ ['>']) → ∀ rest,
      Files.plainLines (s ++ rest) = Files.plainLines s ++ Files.plainLines rest := by
    intro start body stop hsplit rest
    have hend : s = start ++ body ++ stop ++ ['>'] := by rw [hsplit, ← List.append_assoc]
    rw [hend, List.append_assoc, List.singleton_append, plainLines_concat (by decide),
      plainLines_concat (by decide),
      Files.plainLines_nil]
    simp
  obtain ⟨marks, hmarks, henclosed⟩ := hs
  have hsplit : ∃ body, s = marks.1 ++ body ++ marks.2 := henclosed.imp fun _ hbody => hbody.1
  obtain ⟨body, hbody⟩ := hsplit
  refine ⟨⟨marks, hmarks, ?_⟩, ?_⟩
  · simp only [seals, List.mem_cons, List.not_mem_nil, or_false] at hmarks
    rcases hmarks with rfl | rfl | rfl <;> exact henclosed.plainLines (by decide) (by decide)
  · simp only [seals, List.mem_cons, List.not_mem_nil, or_false] at hmarks
    rcases hmarks with rfl | rfl | rfl
    · exact happend _ _ [']', ']'] hbody
    · exact happend _ _ ['-', '-'] hbody
    · exact happend _ _ ['?'] hbody

section

variable {rest' : List Char} (h : Alike entities rest rest')
include h

theorem Alike.apart {part : List Char} (hpart : ReadsApart entities (plainLines part))
    (hplain : ∀ rest, plainLines (part ++ rest) = plainLines part ++ plainLines rest)
    (hhead : ∃ more, plainLines part = '<' :: more ∨ plainLines part = '&' :: more) :
    Alike entities (part ++ rest) (part ++ rest') := by
  have hbehind : ∀ rest, IsBehindText (plainLines part ++ rest) := by
    obtain ⟨more, hmore | hmore⟩ := hhead <;> rw [hmore] <;>
      exact fun _ => isBehindText_of_ne (by decide) _
  have hne : ∀ rest, plainLines part ++ rest ≠ [] := by
    obtain ⟨more, hmore | hmore⟩ := hhead <;> simp [hmore]
  refine ⟨?_, ?_, ?_⟩
  · rw [hplain]
    exact hbehind _
  · rw [hplain]
    exact hbehind _
  · rw [hplain, hplain]
    refine tokensWithin?_congr h.tokens (hne _) (hne _) fun fuel => ?_
    obtain ⟨tokens?, hread⟩ := hpart fuel
    exact ⟨tokens?, hread _, hread _⟩

theorem Alike.text (cs : List Char) :
    Alike entities (cs.flatMap escapeText ++ rest) (cs.flatMap escapeText ++ rest') := by
  have hreturn : ∀ cs : List Char, '\r' ∉ cs.flatMap escapeText := by
    intro cs hmem
    obtain ⟨c, -, hc⟩ := List.mem_flatMap.mp hmem
    exact (isInner_escapeText hc).2.2 rfl
  refine ⟨?_, ?_, ?_⟩
  · rw [plainLines_apart (hreturn cs)]
    exact h.first.text cs
  · rw [plainLines_apart (hreturn cs)]
    exact h.second.text cs
  · rw [plainLines_apart (hreturn cs), plainLines_apart (hreturn cs)]
    induction cs with
    | nil => exact h.tokens
    | cons c cs ih =>
      have hne : ∀ rest, escapeText c ++ rest ≠ [] := by
        obtain ⟨d, ds, heq, -⟩ := head?_escapeText c
        simp [heq]
      rw [List.flatMap_cons, List.append_assoc, List.append_assoc]
      refine tokensWithin?_congr ih (hne _) (hne _) fun fuel => ?_
      obtain ⟨tokens?, hread⟩ := readTokens?_char c entities fuel
      exact ⟨tokens?, hread _ (h.first.text cs), hread _ (h.second.text cs)⟩

theorem Alike.plain {part : List Char} (hpart : ReadsApart entities part) (hreturn : '\r' ∉ part)
    (hhead : ∃ more, part = '<' :: more ∨ part = '&' :: more) :
    Alike entities (part ++ rest) (part ++ rest') := by
  have hself := Files.plainLines_eq_self hreturn
  exact h.apart (by rwa [hself])
    (fun rest => by rw [hself, plainLines_apart hreturn]) (by rwa [hself])

theorem Alike.sealed (hs : IsSealed s) : Alike entities (s ++ rest) (s ++ rest') := by
  obtain ⟨hplain, happend⟩ := hs.plainLines
  obtain ⟨cs, hcs⟩ := hplain.eq_cons
  exact h.apart (hplain.readsApart entities) happend ⟨cs, .inl hcs⟩

theorem Alike.sections {parts : List (List Char)} (hends : ∀ part ∈ parts, EndsAt sectionEnd part) :
    Alike entities (printSections parts ++ rest) (printSections parts ++ rest') := by
  induction parts with
  | nil => exact h
  | cons part parts ih =>
    obtain ⟨hpart, hparts⟩ := List.forall_mem_cons.mp hends
    have hsections := (ih hparts).sealed (isSealed_section hpart)
    simpa only [printSections, List.flatMap_cons, List.append_assoc] using hsections

theorem Alike.opening {t : Tag} (ht : t.IsWritable) (hstop : IsTagEnd stop empty)
    (hstop' : IsTagEnd stop' empty) :
    Alike entities ('<' :: (t.print ++ stop) ++ rest) ('<' :: (t.print ++ stop') ++ rest') := by
  have hreturn : ∀ {stop}, IsTagEnd stop empty → '\r' ∉ '<' :: (t.print ++ stop) := by
    intro stop hstop hmem
    rcases List.mem_cons.mp hmem with heq | hmem
    · exact absurd heq (by decide)
    · rcases List.mem_append.mp hmem with hmem | hmem
      · exact (ht.isInner _ hmem).2.2 rfl
      · exact absurd (hstop.mem _ hmem) (by decide)
  refine ⟨?_, ?_, ?_⟩
  · rw [plainLines_apart (hreturn hstop)]
    exact isBehindText_of_ne (by decide) _
  · rw [plainLines_apart (hreturn hstop')]
    exact isBehindText_of_ne (by decide) _
  · rw [plainLines_apart (hreturn hstop), plainLines_apart (hreturn hstop')]
    refine tokensWithin?_congr h.tokens (by simp) (by simp) fun fuel => ?_
    obtain ⟨attributes?, hread⟩ := ht.readTokens? entities fuel
    refine ⟨attributes?.map fun attributes => .opening t.name.written attributes ::
      if empty then [.closing t.name.written] else [], ?_⟩
    rw [hread stop empty _ hstop, hread stop' empty _ hstop', Option.map_map, Option.map_map]
    exact ⟨rfl, rfl⟩

theorem Alike.closing {q : QName} (hq : q.IsWritten) :
    Alike entities ('<' :: '/' :: (q.print ++ ['>']) ++ rest)
      ('<' :: '/' :: (q.print ++ ['>']) ++ rest') := by
  refine h.plain (hq.readsApart entities) ?_ ⟨_, .inl rfl⟩
  intro hmem
  simp only [List.mem_cons, List.mem_append, List.not_mem_nil, or_false] at hmem
  rcases hmem with heq | heq | hmem | heq
  · exact absurd heq (by decide)
  · exact absurd heq (by decide)
  · exact (hq.isInner _ hmem).2.2 rfl
  · exact absurd heq (by decide)

end

theorem Alike.drawAll {stop stop' : Tag → List Char} {nodes : List Node}
    (hnodes : ∀ n ∈ nodes, ∀ {rest rest'}, Alike entities rest rest' →
      Alike entities (n.draw stop ++ rest) (n.draw stop' ++ rest')) {rest rest' : List Char}
    (h : Alike entities rest rest') :
    Alike entities (Node.drawAll stop nodes ++ rest) (Node.drawAll stop' nodes ++ rest') := by
  induction nodes with
  | nil => exact h
  | cons n nodes ih =>
    obtain ⟨hn, hnodes⟩ := List.forall_mem_cons.mp hnodes
    have hfirst := hn (ih hnodes)
    simpa only [Node.drawAll, List.append_assoc] using hfirst

/-- What is drawn of a node is cut into the same tokens whatever ends its empty elements. -/
theorem Node.IsWritable.alike {stop stop' : Tag → List Char} (hstop : AreTagEnds stop)
    (hstop' : AreTagEnds stop')
    {n : Node} (hn : n.IsWritable) {rest rest' : List Char} (h : Alike entities rest rest') :
    Alike entities (n.draw stop ++ rest) (n.draw stop' ++ rest') := by
  induction hn generalizing rest rest' with
  | text s => exact h.text s.toList
  | cdata s =>
    obtain ⟨first, parts, -, hends, hprint⟩ := printSection_sections s
    have hdraw : ∀ stop, draw stop (.cdata s) = printSections (first :: parts) := fun _ => hprint
    rw [hdraw, hdraw]
    exact h.sections hends
  | comment hsealed => exact h.sealed hsealed
  | instruction hsealed => exact h.sealed hsealed
  | reference hname =>
    refine h.plain (readsApart_reference hname entities) ?_ ⟨_, .inr rfl⟩
    exact fun hmem => (isInner_printReference hname _ hmem).2.2 rfl
  | @element children tag htag _ ih =>
    cases children with
    | nil => exact h.opening htag (hstop tag) (hstop' tag)
    | cons child children =>
      have hinside := Alike.drawAll (fun n hn => ih n hn) (h.closing htag.name)
      have hopening := hinside.opening htag .plain .plain
      simpa only [draw, drawAll, List.append_assoc, List.cons_append] using hopening

-- ---------------------------------------------------------------------------
-- Restyled trees
-- ---------------------------------------------------------------------------

theorem alike_nil (entities : Entities) : Alike entities [] [] where
  first := ⟨by simp [Files.plainLines_nil], by simp [Files.plainLines_nil]⟩
  second := ⟨by simp [Files.plainLines_nil], by simp [Files.plainLines_nil]⟩
  tokens _ := rfl

theorem Alike.root? {d : DocumentType} (h : Alike d.entities cs ds) :
    Xml.root? d (plainLines cs) = Xml.root? d (plainLines ds) := by
  have htokens : tokens? d.entities (plainLines cs) = tokens? d.entities (plainLines ds) := by
    rw [← tokensWithin?_eq
      (Nat.lt_succ_of_le (Nat.le_max_left _ ((plainLines ds).length + d.entities.size))),
      h.tokens, tokensWithin?_eq (Nat.lt_succ_of_le (Nat.le_max_right _ _))]
  rw [Xml.root?, htokens, Xml.root?]

theorem StartsElement.readDocument? (h : StartsElement (plainLines cs)) :
    Xml.readDocument? cs = Xml.root? {} (plainLines cs) := by
  have hdeclaration :=
    readDeclaration?_of_not (IsMiscellany.nil.not_startsDeclaration h.endsMiscellany)
  have hskip : skipMiscellaneous? (plainLines cs) = some (plainLines cs) :=
    IsMiscellany.nil.skip h.endsMiscellany (Nat.lt_succ_self _)
  have htype : dropStart? "<!DOCTYPE".toList (plainLines cs) = none := by
    obtain ⟨c, rest, hcs, hc⟩ := h
    rw [hcs]
    have hne : '!' ≠ c := Ne.symm (isNameStart_ne hc (by decide))
    rw [dropStart?_eq_none_iff]
    simp [List.cons_prefix_cons, hne]
  rw [List.nil_append] at hdeclaration
  simp only [Xml.readDocument?, hdeclaration, readProlog?, hskip, htype,
    Option.bind_eq_bind, Option.bind_some]

theorem StartsElement.parse? (h : StartsElement cs) :
    Xml.parse? (String.ofList cs) = Xml.readDocument? cs := by
  obtain ⟨c, rest, rfl, -⟩ := h
  rw [Xml.parse?, String.toList_ofList]
  rfl

theorem Element.draw_startsElement {e : Element} (h : e.toNode.IsWritable)
    (stop : Tag → List Char) :
    StartsElement (e.toNode.draw stop) ∧ StartsElement (plainLines (e.toNode.draw stop)) := by
  obtain ⟨tag, children⟩ := e
  obtain ⟨htag, -⟩ : tag.IsWritable ∧ _ := by
    cases h with
    | element htag hinside => exact ⟨htag, hinside⟩
  obtain ⟨c, cs, hprint, hc⟩ := htag.name.print_eq_cons
  have hname : ∃ cs, tag.print = c :: cs := by
    have htext := tag.print_append []
    rw [List.append_nil, printOpening, hprint] at htext
    exact ⟨_, htext⟩
  obtain ⟨cs, hcs⟩ := hname
  have hdraw : ∃ rest, (toNode ⟨tag, children⟩).draw stop = '<' :: c :: rest := by
    cases children <;> exact ⟨_, by rw [toNode, Node.draw, hcs]; rfl⟩
  obtain ⟨rest, hdraw⟩ := hdraw
  have hreturn : c ≠ '\r' := by
    rintro rfl
    exact absurd hc (by decide)
  refine ⟨⟨c, rest, hdraw, hc⟩, ⟨c, plainLines rest, ?_, hc⟩⟩
  rw [hdraw, Files.plainLines_cons (by decide), Files.plainLines_cons hreturn]

theorem Element.alike {e : Element} (h : e.toNode.IsWritable) {stop stop' : Tag → List Char}
    (hstop : AreTagEnds stop)
    (hstop' : AreTagEnds stop') (entities : Entities) :
    Alike entities (e.toNode.draw stop) (e.toNode.draw stop') := by
  have halike := h.alike hstop hstop' (alike_nil entities)
  rwa [List.append_nil, List.append_nil] at halike

/-- Spaces in front of the ends of empty elements stand where those end in the compact way, outside
sections, comments and instructions, which are kept as they are and in their order. The result is
restyled no further, and its style is the one with spaces if there is one in it. What is printed of
an element is restyled to a text that holds the same element, and the same root under every document
type. -/
theorem restyle_spacedTag :
    (∀ text : String, Spaced none text.toList (restyle spacedTag text).toList ∧
      (Text.scan opaquePart (restyle spacedTag text).toList).found =
      (Text.scan opaquePart text.toList).found ∧
      restyle spacedTag (restyle spacedTag text) = restyle spacedTag text ∧
      (restyle spacedTag text ≠ text → tagStyle (restyle spacedTag text) = spacedTag)) ∧
    ∀ e : Element, e.toNode.IsWritable →
      parse? (restyle spacedTag (String.ofList e.toNode.print)) =
      parse? (String.ofList e.toNode.print) ∧
      ∀ d, root? d (plainLines (restyle spacedTag (String.ofList e.toNode.print)).toList) =
        root? d (plainLines e.toNode.print) := by
  refine ⟨fun text => ?_, fun e he => ?_⟩
  · have hspaced : Spaced none text.toList (restyle spacedTag text).toList := by
      rw [restyle_spaced, String.toList_ofList]
      exact spaced_spacedFrom none text.toList
    refine ⟨hspaced, hspaced.scan_eq.2, ?_, fun hne => ?_⟩
    · rw [restyle_spaced (restyle spacedTag text), ← hspaced.again.eq, String.ofList_toList]
    · have hstyle := hspaced.tagStyle_eq fun heq => hne (String.toList_injective heq)
      rwa [String.ofList_toList] at hstyle
  · have hstyle : IsTagEnd spacedTag.toList true := .spaced
    have hspaced : AreTagEnds (stopOf (Piece.endingOf spacedTag.toList)) :=
      areTagEnds_stopOf (Piece.areEndings_endingOf hstyle)
    have hcompact : AreTagEnds fun _ => ['/', '>'] := fun _ => .compact
    have halike := fun entities => e.alike he hspaced hcompact entities
    obtain ⟨hstart, hplain⟩ := e.draw_startsElement he (stopOf (Piece.endingOf spacedTag.toList))
    obtain ⟨hstart', hplain'⟩ := e.draw_startsElement he fun _ => ['/', '>']
    rw [he.restyle hstyle, String.toList_ofList, ← Node.draw_compact]
    refine ⟨?_, fun d => (halike d.entities).root?⟩
    rw [hstart.parse?, hstart'.parse?, hplain.readDocument?, hplain'.readDocument?]
    exact (halike _).root?

def commented : Element :=
  ⟨{ name := .plain "a" },
    [.comment "<b/>", .element { name := .plain "c", attributes := [.plain "d" "/>"] } []]⟩

theorem commented_isWritable : commented.toNode.IsWritable := by
  have htag : Tag.IsWritable commented.tag := ⟨⟨by decide, .inl rfl⟩, by simp [commented, Tag.raw]⟩
  have hempty : Tag.IsWritable { name := .plain "c", attributes := [.plain "d" "/>"] } := by
    refine ⟨⟨by decide, .inl rfl⟩,
      List.forall_mem_singleton.mpr ⟨⟨by decide, .inl rfl⟩, fun piece hpiece => ?_⟩⟩
    obtain ⟨c, -, rfl⟩ := List.mem_map.mp hpiece
    trivial
  have hcomment : IsSealed ("<!--".toList ++ "<b/>".toList ++ "-->".toList) :=
    ⟨_, List.mem_cons_of_mem _ List.mem_cons_self, "<b/>".toList, rfl, rfl⟩
  exact .element htag (List.forall_mem_cons.mpr
    ⟨.comment hcomment, List.forall_mem_singleton.mpr (.element hempty (by simp))⟩)

theorem restyle_commented : commented.toNode.IsWritable ∧
    restyle spacedTag (String.ofList commented.toNode.print) =
    "<a><!--<b/>--><c d=\"/&gt;\" /></a>" ∧
    parse? "<a><!--<b/>--><c d=\"/&gt;\" /></a>" = parse? (String.ofList commented.toNode.print) ∧
    tagStyle "<a><!--<b/>--><c d=\"/&gt;\" /></a>" = spacedTag := by
  have hrestyle : restyle spacedTag (String.ofList commented.toNode.print) =
      "<a><!--<b/>--><c d=\"/&gt;\" /></a>" := by
    decide +kernel
  have hparse := (restyle_spacedTag.2 commented commented_isWritable).1
  have hstyle := (restyle_spacedTag.1 (String.ofList commented.toNode.print)).2.2.2
    (by decide +kernel)
  rw [hrestyle] at hparse hstyle
  exact ⟨commented_isWritable, hrestyle, hparse, hstyle⟩

end DocMerge.Xml

import DocMerge.Proofs.Prologs
import DocMerge.Proofs.Stores

/-!
# Files that are written and read again

What a file keeps beside its root is found again in the text that it is written as: the text before
the root, the blanks behind it, and as much of its style as the text shows. So a file that is
written is read as the same file, and written again it is the same text.

All of this is about contents that are UTF-8 and accepted by `Xml.parseBytes?`. UTF-16 without a
byte order mark is not among them.
-/

namespace DocMerge.Xml

open Text (EndsAt cutAt? dropStart? hasStart)
open Files (plainLines endLines)

-- ---------------------------------------------------------------------------
-- Line ends of pieces
-- ---------------------------------------------------------------------------

def Piece.endLines : Piece → List Piece
  | .char c => if c = '\n' then [.char '\r', .char '\n'] else [.char c]
  | .sealed s => [.sealed (Files.endLines ['\r', '\n'] s)]
  | .ending => [.ending]

namespace Piece

theorem after_endLines (before : Option Char) (pieces : List Piece) :
    after before (pieces.flatMap endLines) = after before pieces := by
  induction pieces generalizing before with
  | nil => rfl
  | cons p pieces ih =>
    rw [List.flatMap_cons, after_append, ih]
    cases p with
    | char c =>
      by_cases hc : c = '\n' <;> simp [endLines, after, hc]
    | _ => rfl

theorem fit_endLines {before : Option Char} {pieces : List Piece} (h : Fit before pieces)
    (hplain : ∀ s, .sealed s ∈ pieces → '\r' ∉ s) : Fit before (pieces.flatMap endLines) := by
  induction pieces generalizing before with
  | nil => trivial
  | cons p pieces ih =>
    have hrest : ∀ s, .sealed s ∈ pieces → '\r' ∉ s :=
      fun s hs => hplain s (List.mem_cons_of_mem _ hs)
    rw [List.flatMap_cons, fit_append]
    cases p with
    | char c =>
      have hfit := ih h.2.2 hrest
      by_cases hc : c = '\n'
      · subst hc
        exact ⟨by simp [endLines, Fit], hfit⟩
      · simp only [endLines, hc, if_false]
        exact ⟨⟨h.1, h.2.1, trivial⟩, hfit⟩
    | sealed s =>
      have hsealed : IsSealed (Files.endLines ['\r', '\n'] s) := by
        refine IsSealed.of_plainLines ?_
        rw [Files.plainLines_endLines (hplain s List.mem_cons_self)]
        exact h.1
      exact ⟨⟨hsealed, trivial⟩, ih h.2 hrest⟩
    | ending => exact ⟨⟨h.1, h.2.1, trivial⟩, ih h.2.2 hrest⟩

theorem write_endLines {ending : Option Char → List Char} (hending : AreEndings ending)
    (before : Option Char)
    (pieces : List Piece) :
    write ending before (pieces.flatMap endLines) =
    Files.endLines ['\r', '\n'] (write ending before pieces) := by
  induction pieces generalizing before with
  | nil => rfl
  | cons p pieces ih =>
    cases p with
    | char c =>
      rw [List.flatMap_cons, write_append, write, Files.endLines_cons, ih]
      by_cases hc : c = '\n' <;> simp [endLines, write, after, hc]
    | sealed s => simp [endLines, write, ih, Files.endLines_append]
    | ending =>
      have hend : '\n' ∉ ending before := fun hmem =>
        absurd ((hending before).mem _ hmem) (by decide)
      simp [endLines, write, ih, Files.endLines_append, Files.endLines_eq_self _ hend]

theorem sealed_plain {ending : Option Char → List Char} {pieces : List Piece} (before : Option Char)
    (h : '\r' ∉ write ending before pieces) : ∀ s, .sealed s ∈ pieces → '\r' ∉ s := by
  induction pieces generalizing before with
  | nil => simp
  | cons p pieces ih =>
    cases p with
    | char c =>
      simp only [write, List.mem_cons, not_or] at h
      simpa using ih (some c) h.2
    | sealed s =>
      simp only [write, List.mem_append, not_or] at h
      simpa using ⟨h.1, ih none h.2⟩
    | ending =>
      simp only [write, List.mem_append, not_or] at h
      simpa using ih (some '>') h.2

end Piece

theorem IsDrawn.endLines {pieces : List Piece} (h : IsDrawn pieces text)
    (hending : AreEndings ending)
    (hplain : '\r' ∉ text ending) :
    ∃ pieces', IsDrawn pieces' fun ending => Files.endLines ['\r', '\n'] (text ending) := by
  have hsealed := Piece.sealed_plain none (by rwa [h.write hending])
  refine ⟨pieces.flatMap Piece.endLines, fun hbefore => Piece.fit_endLines (h.fit hbefore) hsealed,
    fun hbefore => ?_, fun hending before => ?_⟩
  · rw [Piece.after_endLines]
    exact h.after hbefore
  · rw [Piece.write_endLines hending, h.write hending]

-- ---------------------------------------------------------------------------
-- Pairs of a carriage return and a newline
-- ---------------------------------------------------------------------------

def Unpaired (cs : List Char) : Prop := cs.IsChain fun a b => a = '\r' → b ≠ '\n'

theorem cutAt?_pair_isSome (cs : List Char) :
    (cutAt? ['\r', '\n'] cs).isSome = false ↔ Unpaired cs := by
  induction cs with
  | nil => simp [cutAt?, Unpaired]
  | cons c cs ih =>
    unfold Unpaired at ih ⊢
    rw [List.isChain_cons, ← ih, cutAt?]
    cases cs with
    | nil => by_cases hc : '\r' = c <;> simp [dropStart?, hc]
    | cons d cs =>
      by_cases hc : '\r' = c
      · subst hc
        by_cases hd : '\n' = d
        · subst hd
          simp [dropStart?]
        · simp [dropStart?, hd, Ne.symm hd]
      · simp [dropStart?, hc, Ne.symm hc]

theorem not_unpaired_endLines (h : '\n' ∈ cs) : ¬Unpaired (endLines ['\r', '\n'] cs) := by
  obtain ⟨before, after, rfl⟩ := List.append_of_mem h
  intro hunpaired
  rw [Files.endLines_append, Files.endLines_cons, if_pos rfl] at hunpaired
  obtain ⟨-, hbehind, -⟩ := List.isChain_append.mp hunpaired
  exact (List.isChain_cons_cons.mp hbehind).1 rfl rfl

theorem Unpaired.of_not_mem (h : '\r' ∉ cs) : Unpaired cs := by
  induction cs with
  | nil => exact List.isChain_nil
  | cons c cs ih =>
    simp only [List.mem_cons, not_or] at h
    exact List.isChain_cons.mpr ⟨fun _ _ hc => absurd hc.symm h.1, ih h.2⟩

-- ---------------------------------------------------------------------------
-- Roots
-- ---------------------------------------------------------------------------

theorem readOpening?_startsElement (h : readOpening? entities fuel cs = some found) :
    StartsElement ('<' :: cs) := by
  simp only [readOpening?, Option.bind_eq_bind, Option.bind_eq_some_iff, Prod.exists] at h
  obtain ⟨name, rest, hname, -⟩ := h
  simp only [readQName?, Option.bind_eq_bind, Option.bind_eq_some_iff, Prod.exists] at hname
  obtain ⟨first, more, hfirst, -⟩ := hname
  cases cs with
  | nil => simp [readName?] at hfirst
  | cons c cs =>
    simp only [readName?, Option.ite_none_right_eq_some] at hfirst
    exact ⟨c, cs, rfl, hfirst.1⟩

theorem readTokens?_startsElement (h : readTokens? entities fuel cs = some (tokens, rest)) :
    ∃ t more, tokens = t :: more ∧ ∀ name attributes, t = .opening name attributes →
    StartsElement cs := by
  cases readTokens?_reads h with
  | escaped | reference | char => exact ⟨_, _, rfl, by simp⟩
  | markup hmarkup =>
    cases readMarkup?_reads hmarkup with
    | comment | cdata | instruction => exact ⟨_, _, rfl, by simp⟩
    | closing hclosing =>
      obtain ⟨⟨name, rfl⟩, -⟩ := readClosing?_sound hclosing
      exact ⟨_, _, rfl, by simp⟩
    | opening hopening =>
      have hstarts := readOpening?_startsElement hopening
      simp only [readOpening?, Option.bind_eq_bind, Option.bind_eq_some_iff, Option.some.injEq,
        Prod.mk.injEq] at hopening
      obtain ⟨_, -, _, -, rfl, -⟩ := hopening
      exact ⟨_, _, rfl, fun _ _ _ => hstarts⟩

/-- A root is read where an element begins, whatever a document type declares. -/
theorem root?_startsElement {d : DocumentType} (h : root? d cs = some e) : StartsElement cs := by
  simp only [root?, Option.bind_eq_bind, Option.bind_eq_some_iff, Prod.exists] at h
  obtain ⟨tokens, htokens, root, rest, hassemble, -⟩ := h
  cases tokens with
  | nil => simp [assemble?] at hassemble
  | cons token tokens =>
    unfold tokens? tokensWithin? at htokens
    split at htokens
    · simp at htokens
    · simp only [Option.bind_eq_bind, Option.bind_eq_some_iff, Prod.exists,
        Option.map_eq_some_iff] at htokens
      obtain ⟨first, behind, hread, more, -, hsplit⟩ := htokens
      obtain ⟨t, _, rfl, hstarts⟩ := readTokens?_startsElement hread
      obtain ⟨rfl, -⟩ := List.cons.inj hsplit
      cases t with
      | opening name attributes => exact hstarts name attributes rfl
      | _ => simp [Token.complete, assemble?] at hassemble

theorem Element.draw_of_held {e : Element} (h : e.toNode.IsHeld isOpen [] 0)
    {stop : Tag → List Char}
    (hstop : AreTagEnds stop) :
    StartsElement (e.toNode.draw stop) ∧ ∃ cs, e.toNode.draw stop = cs ++ ['>'] := by
  obtain ⟨tag, children⟩ := e
  cases h with
  | element _ htag =>
    obtain ⟨c, more, hprint, hc⟩ : ∃ c more, tag.print = c :: more ∧ isNameStart c = true := by
      obtain ⟨c, cs, hcs, hc⟩ := htag.name.print_eq_cons
      have hprint := tag.print_append []
      rw [List.append_nil, printOpening, hcs] at hprint
      exact ⟨c, _, hprint, hc⟩
    obtain ⟨before, hend⟩ : ∃ before, stop tag = before ++ ['>'] := by
      have htagEnd := hstop tag
      generalize stop tag = text at htagEnd
      cases htagEnd
      · exact ⟨['/'], rfl⟩
      · exact ⟨[' ', '/'], rfl⟩
    cases children with
    | nil =>
      refine ⟨⟨c, more ++ stop tag, ?_, hc⟩, '<' :: (tag.print ++ before), ?_⟩
      · simp [toNode, Node.draw, hprint]
      · simp [toNode, Node.draw, hend]
    | cons child children =>
      refine ⟨⟨c, more ++ '>' :: (child.draw stop ++ Node.drawAll stop children ++
          '<' :: '/' :: (tag.name.written.print ++ ['>'])), ?_, hc⟩,
        '<' :: (tag.print ++ ['>']) ++ (child.draw stop ++ Node.drawAll stop children) ++
          '<' :: '/' :: tag.name.written.print, ?_⟩
      · simp [toNode, Node.draw, hprint]
      · simp [toNode, Node.draw]

-- ---------------------------------------------------------------------------
-- The characters of a file
-- ---------------------------------------------------------------------------

theorem StartsElement.of_plainLines (h : StartsElement (plainLines cs)) : StartsElement cs := by
  obtain ⟨c, rest, hplain, hc⟩ := h
  have hline : c ≠ '\n' := by
    rintro rfl
    exact absurd hc (by decide)
  have hhead : ∀ {d cs rest}, d ≠ '\n' → plainLines cs = d :: rest →
      ∃ after, cs = d :: after ∧ plainLines after = rest := by
    intro d cs rest hd hcs
    obtain ⟨before, after, rfl, hbefore, hafter⟩ :=
      Files.plainLines_eq_append hd (hcs.trans (List.nil_append _).symm)
    obtain rfl := Files.plainLines_eq_nil hbefore
    exact ⟨after, rfl, hafter⟩
  obtain ⟨after, rfl, hafter⟩ := hhead (by decide) hplain
  obtain ⟨more, rfl, -⟩ := hhead hline hafter
  exact ⟨c, more, rfl, hc⟩

theorem StartsElement.split (h : StartsElement rest) (hplain : plainLines cs = first ++ rest) :
    ∃ before after, cs = before ++ after ∧ plainLines before = first ∧ plainLines after = rest ∧
      StartsElement after := by
  obtain ⟨c, more, rfl, hc⟩ := h
  obtain ⟨before, after, rfl, hbefore, hafter⟩ := Files.plainLines_eq_append (by decide) hplain
  have hrest : plainLines ('<' :: after) = '<' :: c :: more := by
    rw [Files.plainLines_cons (by decide), hafter]
  exact ⟨before, '<' :: after, rfl, hbefore, hrest, .of_plainLines ⟨c, more, hrest, hc⟩⟩

theorem StartsElement.plainLines (h : StartsElement cs) : StartsElement (Files.plainLines cs) := by
  obtain ⟨c, rest, rfl, hc⟩ := h
  have hreturn : c ≠ '\r' := by
    rintro rfl
    exact absurd hc (by decide)
  exact ⟨c, Files.plainLines
    rest, by rw [Files.plainLines_cons (by decide), Files.plainLines_cons hreturn], hc⟩

theorem StartsElement.append (h : StartsElement cs) (more : List Char) :
    StartsElement (cs ++ more) := by
  obtain ⟨c, rest, rfl, hc⟩ := h
  exact ⟨c, rest ++ more, rfl, hc⟩

theorem allSpaces_plainLines (h : AllSpaces cs) : AllSpaces (plainLines cs) := by
  intro c hc
  by_cases hline : c = '\n'
  · rw [hline]
    decide
  by_cases hreturn : c = '\r'
  · rw [hreturn]
    decide
  exact h c ((Files.mem_plainLines hline hreturn cs).mp hc)

theorem StartsElement.not_type (h : StartsElement cs) :
    dropStart? "<!DOCTYPE".toList cs = none := by
  obtain ⟨c, rest, rfl, hc⟩ := h
  have hmark : '!' ≠ c := Ne.symm (isNameStart_ne hc (by decide))
  show dropStart? ('<' :: '!' :: "DOCTYPE".toList) ('<' :: c :: rest) = none
  rw [dropStart?, if_pos rfl, dropStart?, if_neg hmark]

theorem StartsElement.of_append (h : StartsElement (body ++ behind)) (hne : body ≠ [])
    (hbehind : AllSpaces behind) : StartsElement body := by
  obtain ⟨c, rest, hsplit, hc⟩ := h
  cases body with
  | nil => exact absurd rfl hne
  | cons a body =>
    obtain ⟨rfl, hrest⟩ := List.cons.inj hsplit
    cases body with
    | nil =>
      obtain rfl : behind = c :: rest := hrest
      have hspace : isSpace c = true := hbehind c List.mem_cons_self
      have hchar : isNameChar c = true := by simp [isNameChar, hc]
      simp [not_isSpace_of_isNameChar hchar] at hspace
    | cons d body =>
      obtain ⟨rfl, -⟩ := List.cons.inj hrest
      exact ⟨d, body, rfl, hc⟩

/-- No line end lies across the place behind a visible character. -/
theorem plainLines_visible (cs : List Char) (hc : Text.isBlank c = false) (more : List Char) :
    plainLines (cs ++ [c] ++ more) = plainLines (cs ++ [c]) ++ plainLines more := by
  have hhead : ∀ more : List Char, ∀ d ∈ (c :: more).head?, d ≠ '\n' := by
    rintro more _ ⟨rfl⟩ rfl
    exact absurd hc (by decide)
  have hreturn : c ≠ '\r' := by
    rintro rfl
    exact absurd hc (by decide)
  rw [List.append_assoc, List.singleton_append, Files.plainLines_append cs (hhead more),
    Files.plainLines_append cs (hhead []), Files.plainLines_cons hreturn,
    Files.plainLines_cons hreturn,
    Files.plainLines_nil]
  simp

structure IsBody (body behind : List Char) : Prop where
  start : StartsElement body
  stop : ∃ cs c, body = cs ++ [c] ∧ Text.isBlank c = false
  blanks : AllSpaces behind

namespace IsBody

variable {before body behind : List Char} (h : IsBody body behind)
include h

theorem epilogueOf : Xml.epilogueOf (before ++ (body ++ behind)) = behind := by
  obtain ⟨cs, c, rfl, hc⟩ := h.stop
  have hall : ∀ d ∈ behind.reverse, Text.isBlank d = true := fun d hd =>
    isBlank_of_isSpace (h.blanks d (List.mem_reverse.mp hd))
  have hreverse : (before ++ (cs ++ [c] ++ behind)).reverse =
      behind.reverse ++ c :: (before ++ cs).reverse := by simp
  rw [Xml.epilogueOf, hreverse, List.takeWhile_append_of_pos hall,
    List.takeWhile_cons_of_neg (by simp [hc]),
    List.append_nil, List.reverse_reverse]

theorem head?_ne_newline : ∀ c ∈ (body ++ behind).head?, c ≠ '\n' := by
  obtain ⟨d, more, hbody, -⟩ := h.start
  rw [hbody]
  rintro _ ⟨rfl⟩
  decide

theorem plainLines_eq : plainLines (before ++ (body ++ behind)) =
    plainLines before ++ (plainLines body ++ plainLines behind) := by
  rw [Files.plainLines_append before h.head?_ne_newline]
  obtain ⟨cs, c, rfl, hc⟩ := h.stop
  rw [plainLines_visible cs hc]

theorem head?_ne (hmark : (before ++ rest).head? ≠ some byteOrderMark) :
    (before ++ (body ++ behind)).head? ≠ some byteOrderMark := by
  cases before with
  | nil =>
    obtain ⟨c, more, hstart, -⟩ := h.start
    rw [hstart]
    simp [byteOrderMark]
  | cons c before => exact hmark

end IsBody

structure IsFrame (prologue : Prologue) (before body behind : List Char) :
    Prop extends IsBody body behind where
  head : IsHead prologue (plainLines before)

namespace IsFrame

variable {prologue : Prologue} {before body behind : List Char}
  (h : IsFrame prologue before body behind)
include h

theorem prologOf : Xml.prologOf (before ++ (body ++ behind)) = before :=
  h.head.leading.of_plainLines.prologOf (h.start.append behind)

theorem readDeclaration? : ∃ rest, Xml.readDeclaration? (plainLines (before ++ (body ++ behind))) =
    some (prologue, rest) ∧ skipMiscellaneous? rest =
    some (plainLines body ++ plainLines behind) := by
  rw [h.plainLines_eq]
  exact h.head.read (h.start.plainLines.append _).endsMiscellany

/-- What is read of such a file is what its root and the blanks are read as. -/
theorem readDocument? :
    Xml.readDocument? (before ++ (body ++ behind)) =
    root? {} (plainLines body ++ plainLines behind) := by
  obtain ⟨rest, hdeclaration, hrest⟩ := h.readDeclaration?
  have htype := (h.start.plainLines.append (plainLines behind)).not_type
  rw [Xml.readDocument?, hdeclaration]
  simp only [Option.bind_eq_bind, Option.bind_some, readProlog?, hrest, htype]

theorem unpaired_iff :
    Unpaired (before ++ (body ++ behind)) ↔ Unpaired before ∧ Unpaired body ∧ Unpaired behind := by
  have hfirst := h.head?_ne_newline
  obtain ⟨cs, c, rfl, hc⟩ := h.stop
  have hlast : ∀ x ∈ (cs ++ [c]).getLast?, x ≠ '\r' := by
    rw [List.getLast?_concat]
    rintro _ ⟨rfl⟩ rfl
    exact absurd hc (by decide)
  unfold Unpaired
  rw [List.isChain_append, List.isChain_append]
  constructor
  · rintro ⟨hbefore, ⟨hcs, hbehind, -⟩, -⟩
    exact ⟨hbefore, hcs, hbehind⟩
  · rintro ⟨hbefore, hcs, hbehind⟩
    exact ⟨hbefore, ⟨hcs, hbehind, fun x hx y hy hreturn => absurd hreturn (hlast x hx)⟩,
      fun x hx y hy _ => hfirst y hy⟩

end IsFrame

theorem exists_blanks (h : ∃ c ∈ cs, Text.isBlank c = false) :
    ∃ before c behind, cs = before ++ [c] ++ behind ∧ Text.isBlank c = false ∧
      ∀ d ∈ behind, Text.isBlank d = true := by
  induction cs using List.reverseRecOn with
  | nil => simp at h
  | append_singleton cs d ih =>
    cases hd : Text.isBlank d with
    | false => exact ⟨cs, d, [], by simp, hd, by simp⟩
    | true =>
      obtain ⟨before, c, behind, rfl, hc, hbehind⟩ := ih <| by
        obtain ⟨c, hmem, hc⟩ := h
        rw [List.mem_append, List.mem_singleton] at hmem
        refine ⟨c, hmem.resolve_right ?_, hc⟩
        rintro rfl
        simp [hd] at hc
      refine ⟨before, c, behind ++ [d], by simp, hc, ?_⟩
      simpa [or_imp, forall_and, hd] using hbehind

theorem allSpaces_behind (hbehind : ∀ c ∈ behind, Text.isBlank c = true)
    (h : root? { entities := ⟨[], isOpen⟩ } (plainLines body ++ plainLines behind) = some e) :
    AllSpaces behind := by
  have hplain : '\r' ∉ plainLines body ++ plainLines behind := by simp [Files.not_mem_plainLines]
  have hspaces : AllSpaces (plainLines behind) := by
    refine root?_trailing hplain (fun c hc hmark => ?_) h
    have hline : c ≠ '\n' := by
      rintro rfl
      simp at hmark
    have hreturn : c ≠ '\r' := by
      rintro rfl
      simp at hmark
    have hblank := hbehind c ((Files.mem_plainLines hline hreturn behind).mp hc)
    simp only [List.mem_cons, List.not_mem_nil, or_false] at hmark
    rcases hmark with rfl | rfl <;> exact absurd hblank (by decide)
  intro c hc
  by_cases hline : c = '\n'
  · rw [hline]
    decide
  by_cases hreturn : c = '\r'
  · rw [hreturn]
    decide
  exact hspaces c ((Files.mem_plainLines hline hreturn behind).mpr hc)

/-- A root ends with the last visible character of its text. -/
theorem exists_isBody (hstart : StartsElement cs)
    (h : root? { entities := ⟨[], isOpen⟩ } (plainLines cs) = some e) :
    ∃ body behind, cs = body ++ behind ∧ IsBody body behind := by
  obtain ⟨c, more, hsplit, -⟩ := id hstart
  obtain ⟨before, last, behind, rfl, hlast, hblanks⟩ :
      ∃ before c behind, cs = before ++ [c] ++ behind ∧
      Text.isBlank c = false ∧ ∀ d ∈ behind, Text.isBlank d = true :=
    exists_blanks ⟨'<', hsplit ▸ List.mem_cons_self, by decide⟩
  rw [plainLines_visible before hlast] at h
  have hbehind := allSpaces_behind hblanks h
  exact ⟨before ++ [last], behind, rfl, hstart.of_append (by simp) hbehind,
    ⟨before, last, rfl, hlast⟩, hbehind⟩

/-- A text without a document type is that of a file with a root. -/
theorem exists_isFrame (h : readDocument? chars = some e)
    (huntyped : ∀ prologue rest root, readDeclaration? (plainLines chars) = some (prologue, rest) →
      skipMiscellaneous? rest = some root → hasStart "<!DOCTYPE".toList root = false) :
    e.IsHeldRoot false ∧ ∃ prologue before body behind,
      chars = before ++ (body ++ behind) ∧ IsFrame prologue before body behind := by
  simp only [readDocument?, readProlog?, Option.bind_eq_bind,
    Option.bind_eq_some_iff, Prod.exists] at h
  obtain ⟨prologue, rest, hdeclaration, d, content, ⟨behindHead, hskip, hprolog⟩, hroot⟩ := h
  have htype : dropStart? "<!DOCTYPE".toList behindHead = none := by
    simpa [hasStart] using huntyped prologue rest behindHead hdeclaration hskip
  rw [htype] at hprolog
  obtain ⟨rfl, rfl⟩ : {} = d ∧ behindHead = content := by simpa using hprolog
  obtain ⟨text, hhead, hsplit⟩ := isHead_of_read hdeclaration hskip
  obtain ⟨before, after, rfl, rfl, rfl, hstarts⟩ := (root?_startsElement hroot).split hsplit
  obtain ⟨body, behind, rfl, hbody⟩ := exists_isBody hstarts hroot
  exact ⟨root?_held (by simp [Files.not_mem_plainLines]) hroot, prologue, before, body, behind,
    rfl, hbody, hhead⟩

-- ---------------------------------------------------------------------------
-- Roots in the style of a file
-- ---------------------------------------------------------------------------

open Piece (endingOf areEndings_endingOf)

def newlineOf (chars : List Char) : String :=
  if (cutAt? ['\r', '\n'] chars).isSome then "\r\n" else "\n"

theorem newlineOf_unpaired (h : Unpaired chars) : newlineOf chars = "\n" := by
  rw [newlineOf, (cutAt?_pair_isSome chars).mpr h]
  rfl

theorem newlineOf_paired (h : ¬Unpaired chars) : newlineOf chars = "\r\n" := by
  rw [newlineOf, if_pos]
  rw [← Bool.not_eq_false, cutAt?_pair_isSome]
  exact h

def Element.write (e : Element) (newline style : String) : List Char :=
  endLines newline.toList (e.toNode.draw (stopOf (endingOf style.toList)))

theorem Element.write_newline (e : Element) (style : String) :
    e.write "\n" style = e.toNode.draw (stopOf (endingOf style.toList)) := Files.endLines_newline _

theorem isTagEnd_tagStyle (text : String) : IsTagEnd (tagStyle text).toList true := by
  rw [tagStyle]
  split
  · exact .spaced
  · exact .compact

/-- A drawn text ends its empty elements as before if the style is taken from the text. -/
theorem IsDrawn.tagStyle_again {style : String} (h : IsDrawn pieces text)
    (hstyle : IsTagEnd style.toList true) :
    text (endingOf (tagStyle (String.ofList (text (endingOf style.toList)))).toList) =
      text (endingOf style.toList) := by
  have hcompact := areEndings_endingOf .compact
  have hspaced := areEndings_endingOf .spaced
  have hfit : Piece.Fit none pieces := h.fit (by simp)
  rw [← h.write (areEndings_endingOf (isTagEnd_tagStyle _)) none,
    ← h.write (areEndings_endingOf hstyle) none]
  generalize style.toList = mark at hstyle
  cases hstyle with
  | compact =>
    rw [Piece.tagStyle_compact hfit]
    rfl
  | spaced =>
    rw [Piece.tagStyle_spaced hfit]
    split
    · rfl
    · rename_i hnone
      -- Without such an end all styles are the same.
      exact (Piece.write_of_endings none (Nat.eq_zero_of_not_pos hnone) [' ', '/', '>']).symm

namespace Element.IsHeldRoot

variable {e : Element} {style : String} (h : e.IsHeldRoot isOpen)
include h

theorem restyle (hstyle : IsTagEnd style.toList true) :
    Xml.restyle style (String.ofList e.toNode.print) =
      String.ofList (e.toNode.draw (stopOf (endingOf style.toList))) :=
  h.held.isWritable.restyle hstyle

theorem not_mem_draw (hstyle : IsTagEnd style.toList true) :
    '\r' ∉ e.toNode.draw (stopOf (endingOf style.toList)) :=
  h.held.not_mem_draw (areTagEnds_stopOf (areEndings_endingOf hstyle))

theorem plainLines_write (chars : List Char) (hstyle : IsTagEnd style.toList true) :
    plainLines (e.write (newlineOf chars) style) =
    e.toNode.draw (stopOf (endingOf style.toList)) := by
  rw [newlineOf]
  split
  · exact Files.plainLines_endLines (h.not_mem_draw hstyle)
  · rw [e.write_newline]
    exact Files.plainLines_eq_self (h.not_mem_draw hstyle)

theorem startsElement_write (newline : String) (hstyle : IsTagEnd style.toList true) :
    StartsElement (e.write newline style) ∧ ∃ cs, e.write newline style = cs ++ ['>'] := by
  obtain ⟨⟨c, rest, hstart, hc⟩, cs, hstop⟩ :=
    Element.draw_of_held h.held (areTagEnds_stopOf (areEndings_endingOf hstyle))
  have hline : c ≠ '\n' := by
    rintro rfl
    exact absurd hc (by decide)
  refine ⟨⟨c, endLines newline.toList rest, ?_, hc⟩, endLines newline.toList cs, ?_⟩
  · rw [Element.write, hstart, Files.endLines_cons, Files.endLines_cons, if_neg hline,
      if_neg (by decide)]
    rfl
  · rw [Element.write, hstop, Files.endLines_append]
    rfl

theorem isBody_write (newline : String) (hblanks : AllSpaces behind)
    (hstyle : IsTagEnd style.toList true) :
    IsBody (e.write newline style) behind := by
  obtain ⟨hstart, cs, hstop⟩ := h.startsElement_write newline hstyle
  exact ⟨hstart, ⟨cs, '>', hstop, by decide⟩, hblanks⟩

theorem isFrame_write (newline : String) (hframe : IsFrame prologue before body behind)
    (hstyle : IsTagEnd style.toList true) :
    IsFrame prologue before (e.write newline style) behind :=
  ⟨h.isBody_write newline hframe.blanks hstyle, hframe.head⟩

theorem newline_again (hframe : IsFrame prologue before body behind)
    (hstyle : IsTagEnd style.toList true) :
    e.write (newlineOf
      (before ++ (e.write (newlineOf (before ++ (body ++ behind))) style ++ behind))) style =
      e.write (newlineOf (before ++ (body ++ behind))) style := by
  have hwritten :=
    (h.isFrame_write (newlineOf (before ++ (body ++ behind))) hframe hstyle).unpaired_iff
  have hplain := h.not_mem_draw hstyle
  by_cases hunpaired : Unpaired (before ++ (body ++ behind))
  · -- Neither the file nor the root has such a pair.
    obtain ⟨hbefore, -, hbehind⟩ := hframe.unpaired_iff.mp hunpaired
    rw [newlineOf_unpaired hunpaired] at hwritten ⊢
    rw [newlineOf_unpaired (hwritten.mpr ⟨hbefore, ?_, hbehind⟩)]
    rw [e.write_newline]
    exact .of_not_mem hplain
  · rw [newlineOf_paired hunpaired] at hwritten ⊢
    by_cases hline : '\n' ∈ e.toNode.draw (stopOf (endingOf style.toList))
    · have hpaired : ¬Unpaired (e.write "\r\n" style) := not_unpaired_endLines hline
      rw [newlineOf_paired fun hall => hpaired (hwritten.mp hall).2.1]
    · -- A root on one line is written in one way.
      simp only [Element.write, Files.endLines_eq_self _ hline]

theorem tagStyle_again (hframe : IsFrame prologue before body behind)
    (hstyle : IsTagEnd style.toList true)
    (chars : List Char) :
    let style' := tagStyle (String.ofList (before ++ (e.write (newlineOf chars) style ++ behind)))
    e.toNode.draw (stopOf (endingOf style'.toList)) =
    e.toNode.draw (stopOf (endingOf style.toList)) := by
  intro style'
  obtain ⟨first, hfirst⟩ := hframe.head.leading.of_plainLines.isDrawn
  obtain ⟨middle, hmiddle⟩ : ∃ pieces, IsDrawn pieces fun ending =>
      endLines (newlineOf chars).toList (e.toNode.draw (stopOf ending)) := by
    obtain ⟨pieces, hpieces⟩ := h.held.isWritable.isDrawn
    rw [newlineOf]
    split
    · exact hpieces.endLines (areEndings_endingOf hstyle) (h.not_mem_draw hstyle)
    · exact ⟨pieces, hpieces.fit, hpieces.after, fun hending before =>
        (hpieces.write hending before).trans (Files.endLines_newline _).symm⟩
  have hblanks : ∀ c ∈ behind, c ≠ '<' ∧ c ≠ '>' := by
    intro c hc
    constructor <;> rintro rfl <;> exact absurd (hframe.blanks _ hc) (by decide)
  have hagain := (hfirst.append (hmiddle.append (isDrawn_plain hblanks))).tagStyle_again hstyle
  have hwrite : e.write (newlineOf chars) style' = e.write (newlineOf chars) style :=
    List.append_cancel_right (List.append_cancel_left hagain)
  rw [← h.plainLines_write chars hstyle, ← hwrite, h.plainLines_write chars (isTagEnd_tagStyle _)]

/-- A root is written as before if the style is taken from the text that is written. -/
theorem write_again (hframe : IsFrame prologue before body behind)
    (hstyle : IsTagEnd style.toList true)
    (hchars : chars = before ++ (body ++ behind))
    (hwritten : written = e.write (newlineOf chars) style)
    (hchars' : chars' = before ++ (written ++ behind)) :
    e.write (newlineOf chars') (tagStyle (String.ofList chars')) = written := by
  subst hchars hwritten hchars'
  have htag := h.tagStyle_again hframe hstyle (before ++ (body ++ behind))
  rw [Element.write, htag]
  exact h.newline_again hframe hstyle

end Element.IsHeldRoot

-- ---------------------------------------------------------------------------
-- The text of a file
-- ---------------------------------------------------------------------------

def unmarked (text : String) : List Char :=
  if text.toList.head? == some byteOrderMark then text.toList.drop 1 else text.toList

/-- A text with one byte order mark at most, no document type, and no encoding but the one it
has. -/
structure IsOrdinary (text : String) : Prop where
  mark : (unmarked text).head? ≠ some byteOrderMark
  encoding : ∀ prologue rest name, readDeclaration? (plainLines (unmarked text)) =
    some (prologue, rest) →
    prologue.encoding = some name → Encoding.ofName? name = some .utf8
  untyped : ∀ prologue rest root, readDeclaration? (plainLines (unmarked text)) =
    some (prologue, rest) →
    skipMiscellaneous? rest = some root → hasStart "<!DOCTYPE".toList root = false

/-- The bytes of a text that declares no other encoding are read as its characters. -/
theorem parseBytes?_ofList (hmark : chars.head? ≠ some byteOrderMark)
    (hencoding : ∀ prologue rest name, readDeclaration? (plainLines chars) = some (prologue, rest) →
      prologue.encoding = some name → Encoding.ofName? name = some .utf8) (content : ByteArray) :
    parseBytes? content (String.ofList chars) = readDocument? chars := by
  cases chars with
  | nil => rfl
  | cons c chars =>
    have hplain : (c == byteOrderMark) = false := by simpa using hmark
    rw [parseBytes?, charactersOf?, String.toList_ofList]
    simp only [hplain, Bool.false_eq_true, if_false, Option.bind_eq_bind]
    cases hdeclaration : readDeclaration? (plainLines (c :: chars)) with
    | none => simp [readDocument?, hdeclaration]
    | some found =>
      obtain ⟨prologue, rest⟩ := found
      rw [Option.bind_some]
      cases hname : prologue.encoding with
      | none => rfl
      | some name => simp [hencoding prologue rest name hdeclaration hname]

theorem IsOrdinary.parseBytes? (h : IsOrdinary text) (content : ByteArray) :
    Xml.parseBytes? content (String.ofList (unmarked text)) = readDocument? (unmarked text) :=
  parseBytes?_ofList h.mark h.encoding content

namespace File

def ofCharacters (marked : Bool) (chars : List Char) (root : Element) : File where
  root
  prolog := String.ofList (prologOf chars)
  epilogue := String.ofList (epilogueOf chars)
  marked
  newline := newlineOf chars
  emptyTag := tagStyle (String.ofList chars)

theorem unmarked_toUTF8 (htext : Files.textOf? content = some text) :
    (if text.toList.head? == some byteOrderMark then content.extract 3 content.size else content) =
      (String.ofList (unmarked text)).toUTF8 := by
  obtain rfl := Files.eq_toUTF8_of_textOf? htext
  unfold unmarked
  split
  · rename_i hmark
    obtain ⟨chars, hchars⟩ := List.head?_eq_some_iff.mp (beq_iff_eq.mp hmark)
    have hsize : [byteOrderMark].utf8Encode.size = 3 := rfl
    have hbytes : text.toUTF8 = [byteOrderMark].utf8Encode ++ chars.utf8Encode := by
      rw [← List.utf8Encode_cons, ← hchars, ← String.toByteArray_ofList, String.ofList_toList]
      rfl
    rw [hchars, List.drop_one, List.tail_cons, hbytes,
      ByteArray.extract_append_eq_right hsize.symm ByteArray.size_append]
    exact String.toByteArray_ofList.symm
  · rw [String.ofList_toList]

theorem ofBytes_eq_ok_iff (htext : Files.textOf? content = some text)
    (hread : parseBytes? (String.ofList (unmarked text)).toUTF8
      (String.ofList (unmarked text)) = parsed?) :
    ofBytes content = .ok f ↔ ∃ root, parsed? = some root ∧
      f = ofCharacters (text.toList.head? == some byteOrderMark) (unmarked text) root := by
  rw [← unmarked_toUTF8 htext] at hread
  unfold unmarked at hread ⊢
  rw [ofBytes, htext]
  simp only [hread]
  cases parsed? with
  | none => simp
  | some root =>
    simp only [Except.ok.injEq, Option.some.injEq, exists_eq_left']
    exact eq_comm

theorem toString_eq (f : File) (hroot : f.root.IsHeldRoot isOpen)
    (hstyle : IsTagEnd f.emptyTag.toList true) :
    f.toString = String.ofList ((if f.marked then [byteOrderMark] else []) ++
      (f.prolog.toList ++ (f.root.write f.newline f.emptyTag ++ f.epilogue.toList))) := by
  have hbody : (if f.newline == "\n" then f.root.toNode.draw (stopOf (endingOf f.emptyTag.toList))
      else Text.replaceText ['\n'] f.newline.toList
        (f.root.toNode.draw (stopOf (endingOf f.emptyTag.toList)))) =
        f.root.write f.newline f.emptyTag := by
    rw [Element.write]
    split
    · rename_i hline
      rw [beq_iff_eq.mp hline]
      exact (Files.endLines_newline _).symm
    · exact Files.replaceText_newline _ _
  simp only [File.toString, hroot.restyle hstyle, String.toList_ofList, hbody, List.append_assoc]

theorem toString_ofCharacters (marked : Bool)
    (hprolog : prologOf (before ++ (body ++ behind)) = before)
    (hbody : IsBody body behind) (hroot : e.IsHeldRoot isOpen)
    (hchars : chars = before ++ (body ++ behind)) :
    (ofCharacters marked chars e).toString = String.ofList
      ((if marked then [byteOrderMark] else []) ++
      (before ++ (e.write (newlineOf chars) (tagStyle (String.ofList chars)) ++ behind))) := by
  subst hchars
  have hroot' : (ofCharacters marked (before ++ (body ++ behind)) e).root.IsHeldRoot isOpen := hroot
  rw [toString_eq _ hroot' (isTagEnd_tagStyle _)]
  simp only [ofCharacters, hprolog, hbody.epilogueOf, String.toList_ofList]

theorem unmarked_ofList (hmark : chars.head? ≠ some byteOrderMark) (marked : Bool) :
    let text := String.ofList ((if marked then [byteOrderMark] else []) ++ chars)
    (text.toList.head? == some byteOrderMark) = marked ∧ unmarked text = chars := by
  intro text
  have hmarked : (text.toList.head? == some byteOrderMark) = marked := by
    cases marked with
    | false =>
      rw [String.toList_ofList]
      exact beq_eq_false_iff_ne.mpr hmark
    | true => simp [text]
  refine ⟨hmarked, ?_⟩
  rw [unmarked, hmarked]
  cases marked <;> simp [text]

theorem isOrdinary_ofList (hframe : IsFrame prologue before body behind)
    (hchars : unmarked text = before ++ (body ++ behind))
    (hmark : (unmarked text).head? ≠ some byteOrderMark)
    (hencoding : ∀ name, prologue.encoding = some name → Encoding.ofName? name = some .utf8) :
    IsOrdinary text := by
  obtain ⟨behindDeclaration, hdeclaration, hroot⟩ := hframe.readDeclaration?
  rw [← hchars] at hdeclaration
  refine ⟨hmark, fun prologue' rest name hread hname => ?_,
    fun prologue' rest root hread hskip => ?_⟩
  · rw [hdeclaration] at hread
    obtain ⟨rfl, -⟩ := Prod.mk.inj (Option.some.inj hread)
    exact hencoding name hname
  · rw [hdeclaration] at hread
    obtain ⟨-, rfl⟩ := Prod.mk.inj (Option.some.inj hread)
    obtain rfl := Option.some.inj (hroot.symm.trans hskip)
    rw [hasStart, (hframe.start.plainLines.append _).not_type]
    rfl

/-- A file that is written is read as the same file and written as the same text. It is one that is
UTF-8 and declares nothing else. -/
theorem read_again (htext : Files.textOf? content = some text) (hordinary : IsOrdinary text)
    (h : ofBytes content = .ok f) :
    ∃ f', ofBytes f.toString.toUTF8 = .ok f' ∧ f'.root = f.root ∧ f'.prolog = f.prolog ∧
      f'.epilogue = f.epilogue ∧ f'.marked = f.marked ∧ f'.toString = f.toString := by
  obtain ⟨e, hread, rfl⟩ := (ofBytes_eq_ok_iff htext (hordinary.parseBytes? _)).mp h
  generalize (text.toList.head? == some byteOrderMark) = marked
  obtain ⟨hmark, hencoding, huntyped⟩ := hordinary
  generalize unmarked text = chars at *
  obtain ⟨hroot, prologue, before, body, behind, hchars, hframe⟩ := exists_isFrame hread huntyped
  have hstyle := isTagEnd_tagStyle (String.ofList chars)
  obtain ⟨written, hwritten⟩ :
      ∃ cs, cs = e.write (newlineOf chars) (tagStyle (String.ofList chars)) := ⟨_, rfl⟩
  obtain ⟨chars', hchars'⟩ : ∃ cs, cs = before ++ (written ++ behind) := ⟨_, rfl⟩
  have hframe' : IsFrame prologue before written behind :=
    hwritten ▸ hroot.isFrame_write _ hframe hstyle
  -- The text that is written is ordinary and has the same root.
  have hmark' : chars'.head? ≠ some byteOrderMark := hchars' ▸ hframe'.head?_ne (hchars ▸ hmark)
  have hutf8 : ∀ name, prologue.encoding = some name → Encoding.ofName? name = some .utf8 := by
    intro name
    obtain ⟨rest, hdeclaration, -⟩ := hframe.readDeclaration?
    exact hencoding prologue rest name (hchars ▸ hdeclaration)
  obtain ⟨hmarked, hunmarked⟩ := unmarked_ofList hmark' marked
  have hordinary' := isOrdinary_ofList hframe' (hunmarked.trans hchars') (by rwa [hunmarked]) hutf8
  have hread' : readDocument? chars' = some e := by
    have hplain := hroot.plainLines_write chars hstyle
    rw [← hwritten] at hplain
    rw [hchars', hframe'.readDocument?, hplain]
    exact hroot.read (areTagEnds_stopOf (areEndings_endingOf hstyle))
      (allSpaces_plainLines hframe.blanks)
      (Files.not_mem_plainLines behind)
  have hfirst := toString_ofCharacters marked hframe.prologOf hframe.toIsBody hroot hchars
  rw [← hwritten, ← hchars'] at hfirst
  have hsecond := toString_ofCharacters marked hframe'.prologOf hframe'.toIsBody hroot hchars'
  rw [hroot.write_again hframe hstyle hchars hwritten hchars', ← hchars'] at hsecond
  refine ⟨ofCharacters marked chars' e, ?_, rfl, ?_, ?_, rfl, by rw [hfirst, hsecond]⟩
  · rw [hfirst]
    refine (ofBytes_eq_ok_iff (Files.textOf?_toUTF8 _) (hordinary'.parseBytes? _)).mpr ⟨e, ?_, ?_⟩
    · rw [hunmarked]
      exact hread'
    · rw [hunmarked, hmarked]
  · simp only [ofCharacters, hchars, hchars', hframe.prologOf, hframe'.prologOf]
  · simp only [ofCharacters, hchars, hchars', hframe.epilogueOf, hframe'.epilogueOf]

def mixedText : String := "<?xml version=\"1.0\" encoding=\"utf-8\"?>\n<d>\r\n<a /></d>\r\n"

theorem read_again_mixedText :
    Files.textOf? mixedText.toUTF8 = some mixedText ∧ IsOrdinary mixedText ∧
      ∃ f f', ofBytes mixedText.toUTF8 = .ok f ∧ ofBytes f.toString.toUTF8 = .ok f' ∧
      f'.root = f.root ∧
        f'.prolog = f.prolog ∧ f'.epilogue = f.epilogue ∧ f'.marked = f.marked ∧
        f'.toString = f.toString := by
  have hunmarked : unmarked mixedText = mixedText.toList := if_neg (by decide)
  have hdeclaration : readDeclaration? (plainLines mixedText.toList) =
      some ({ encoding := some "utf-8" }, "\n<d>\n<a /></d>\n".toList) := by rfl
  have hskip : skipMiscellaneous? "\n<d>\n<a /></d>\n".toList =
      some "<d>\n<a /></d>\n".toList := by rfl
  have hlower : "utf-8".toLower = "utf-8" := String.toList_inj.mp (String.toList_map.trans rfl)
  have hordinary : IsOrdinary mixedText := by
    refine ⟨by rw [hunmarked]; decide, ?_, ?_⟩ <;> rw [hunmarked, hdeclaration]
    · rintro prologue rest name hread hname
      obtain ⟨rfl, -⟩ := Prod.mk.inj (Option.some.inj hread)
      obtain rfl := Option.some.inj hname
      simp [Encoding.ofName?, hlower]
    · rintro prologue rest root hread hroot
      obtain ⟨-, rfl⟩ := Prod.mk.inj (Option.some.inj hread)
      obtain rfl := Option.some.inj (hskip.symm.trans hroot)
      rfl
  obtain ⟨e, he⟩ : ∃ e, readDocument? (unmarked mixedText) = some e := ⟨_, by rw [hunmarked]; rfl⟩
  have htext := Files.textOf?_toUTF8 mixedText
  have hread := (ofBytes_eq_ok_iff htext (hordinary.parseBytes? _)).mpr ⟨e, he, rfl⟩
  obtain ⟨f', hagain⟩ := read_again htext hordinary hread
  exact ⟨htext, hordinary, _, f', hread, hagain⟩

end File

end DocMerge.Xml

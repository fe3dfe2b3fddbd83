import DocMerge.Proofs.Fences
import DocMerge.Proofs.Inlines

/-!
# Markup block by block

Documentation that is well formed is a sequence of blocks: lines of text, paragraphs and code
blocks. While the text between them is changed, code blocks are paragraphs that hold their tokens,
and `markdown?_blocks`: what is made of the whole are the blocks, each turned by itself, with a
blank line between them.
-/

namespace DocMerge.Markdown

open Text

-- ---------------------------------------------------------------------------
-- Blocks
-- ---------------------------------------------------------------------------

inductive Passage
  | run (line : Scanned Inline)
  | paragraph (line : Scanned Inline)
  | emptyParagraph

inductive Block
  | passage (passage : Passage)
  | code (body : List Char)
  | codeIn (name : String) (language body : List Char)

namespace Passage

def line : Passage → Scanned Inline
  | run line | paragraph line => line
  | emptyParagraph => []

def markup : Passage → List Char
  | run line => line.write Inline.markup
  | paragraph line => between "<para>" (line.write Inline.markup) "</para>"
  | emptyParagraph => "<para/>".toList

def isRun : Passage → Bool
  | run _ => true
  | _ => false

end Passage

namespace Block

def markup : Block → List Char
  | passage p => p.markup
  | code body => between "<code>" body "</code>"
  | codeIn name language body =>
    between "<code " name.toList "=\"" ++ language ++ between "\">" body "</code>"

def written : Block → List Char
  | passage p => collapse (p.line.write Inline.written)
  | code body => CodeBlock.fence ⟨[], body⟩
  | codeIn _ language body => CodeBlock.fence ⟨language, body⟩

def code? : Block → Option CodeBlock
  | passage _ => none
  | code body => some ⟨[], body⟩
  | codeIn _ language body => some ⟨language, body⟩

def IsProper : Block → Prop
  | passage p => IsLine p.line
  | code body => ¬"</code>".toList <:+: body
  | codeIn name language body =>
    (name = "language" ∨ name = "lang") ∧ '"' ∉ language ∧ ¬"</code>".toList <:+: body

instance : (b : Block) → Decidable b.IsProper
  | passage p => inferInstanceAs (Decidable (IsLine p.line))
  | code body => inferInstanceAs (Decidable (¬"</code>".toList <:+: body))
  | codeIn name language body =>
    inferInstanceAs (Decidable ((name = "language" ∨ name = "lang") ∧ '"' ∉ language ∧
      ¬"</code>".toList <:+: body))

def isRun : Block → Bool
  | passage p => p.isRun
  | _ => false

end Block

def AreApart (runs : List Bool) : Prop := runs.IsChain fun a b => (a && b) = false

instance (runs : List Bool) : Decidable (AreApart runs) :=
  inferInstanceAs (Decidable (List.IsChain _ runs))

-- ---------------------------------------------------------------------------
-- Code blocks
-- ---------------------------------------------------------------------------

theorem codeBlock_readsStarts : ReadsStarts codeBlock where
  ahead _ _ _ := rfl
  opens c rest hc := by simp [codeBlock, dropStart?, Ne.symm hc]
  see _ := rfl
  code _ := rfl

theorem paragraphMark_readsStarts : ReadsStarts paragraphMark where
  ahead _ _ _ := rfl
  opens c rest hc := by simp [paragraphMark, dropStart?, Ne.symm hc]
  see _ := rfl
  code _ := rfl

theorem Passage.skips_codeBlock {p : Passage} (h : IsLine p.line) : Skips codeBlock p.markup := by
  have hline : Skips codeBlock (p.line.write Inline.markup) :=
    h.skips codeBlock_readsStarts fun element rest => by cases element <;> rfl
  cases p with
  | run => exact hline
  | paragraph =>
    exact ((codeBlock_readsStarts.skips_alike (fun _ => rfl) (by decide)).append hline).append
      (codeBlock_readsStarts.skips_alike (fun _ => rfl) (by decide))
  | emptyParagraph => exact codeBlock_readsStarts.skips_alike (fun _ => rfl) (by decide)

theorem content?_code (h : ¬"</code>".toList <:+: body) (rest : List Char) :
    content? "code" ('>' :: (body ++ ("</code>".toList ++ rest))) = some (body, rest) := by
  have hmark : "</".toList ++ "code".toList ++ ['>'] = '<' :: "/code>".toList := by rfl
  have hends : EndsAt ("</".toList ++ "code".toList ++ ['>']) body := by
    rw [hmark]
    exact endsAt_of_not_infix (by decide) h
  exact content?_ends hends rest

theorem codeBlock_code (h : (Block.code body).IsProper) (rest : List Char) :
    codeBlock none ((Block.code body).markup ++ rest) = some (⟨[], body⟩, rest) := by
  have hstart : dropStart? "<code".toList ((Block.code body).markup ++ rest) =
      some ('>' :: (body ++ ("</code>".toList ++ rest))) := by
    rw [Block.markup, between, List.append_assoc, List.append_assoc]
    rfl
  have hlanguage : codeLanguage ('>' :: (body ++ ("</code>".toList ++ rest))) =
      ([], '>' :: (body ++ ("</code>".toList ++ rest))) := rfl
  rw [codeBlock, hstart, Option.bind_eq_bind, Option.bind_some, hlanguage]
  simp only [content?_code h]
  rfl

theorem codeBlock_codeIn (h : (Block.codeIn name language body).IsProper) (rest : List Char) :
    codeBlock none ((Block.codeIn name language body).markup ++ rest) =
    some (⟨language, body⟩, rest) := by
  obtain ⟨hname, hquote, hbody⟩ := h
  have hstart : dropStart? "<code".toList ((Block.codeIn name language body).markup ++ rest) =
      some (' ' :: (name.toList ++ ['=', '"'] ++
        (language ++ '"' :: '>' :: (body ++ ("</code>".toList ++ rest))))) := by
    simp only [Block.markup, between, List.append_assoc]
    rfl
  have hlanguage : codeLanguage
      (' ' :: (name.toList ++ ['=', '"'] ++
        (language ++ '"' :: '>' :: (body ++ ("</code>".toList ++ rest))))) =
      (language, '>' :: (body ++ ("</code>".toList ++ rest))) := by
    have hread : ∀ rest, attribute? name (name.toList ++ ['=', '"'] ++ (language ++ '"' :: rest)) =
        some (language, rest) := attribute?_value name hquote
    rcases hname with rfl | rfl
    · have hblanks : ∀ cs, dropBlanks? (' ' :: ("language".toList ++ ['=', '"'] ++ cs)) =
          some ("language".toList ++ ['=', '"'] ++ cs) := fun _ => rfl
      rw [codeLanguage, hblanks, Option.bind_some, hread, Option.some_or, Option.getD_some]
    · have hblanks : ∀ cs, dropBlanks? (' ' :: ("lang".toList ++ ['=', '"'] ++ cs)) =
          some ("lang".toList ++ ['=', '"'] ++ cs) := fun _ => rfl
      have hother : ∀ cs, attribute? "language" ("lang".toList ++ ['=', '"'] ++ cs) =
          none := fun _ => rfl
      rw [codeLanguage, hblanks, Option.bind_some, hother, Option.none_or, hread, Option.getD_some]
  rw [codeBlock, hstart, Option.bind_eq_bind, Option.bind_some, hlanguage]
  simp only [content?_code hbody]
  rfl

namespace Block

def scanned (b : Block) : Scanned CodeBlock :=
  match b.code? with
  | some block => [.inr block]
  | none => b.markup.map .inl

theorem turns_codeBlock {b : Block} (h : b.IsProper) :
    Turns (scan codeBlock) b.markup b.scanned := by
  cases b with
  | passage p => exact Passage.skips_codeBlock h
  | code body => exact codeBlock_readsStarts.turns_found (List.cons_ne_nil _ _) (codeBlock_code h)
  | codeIn name language body =>
    exact codeBlock_readsStarts.turns_found (List.cons_ne_nil _ _) (codeBlock_codeIn h)

end Block

section
variable {blocks : List Block}

theorem scan_blocks (h : ∀ b ∈ blocks, b.IsProper) :
    scan codeBlock (blocks.flatMap Block.markup) = blocks.flatMap Block.scanned :=
  (Turns.flatMap fun b hb => Block.turns_codeBlock (h b hb)).apply_eq rfl

theorem found_scanned (blocks : List Block) :
    Scanned.found (blocks.flatMap Block.scanned) = blocks.filterMap Block.code? := by
  induction blocks with
  | nil => rfl
  | cons b blocks ih =>
    rw [Scanned.found] at ih
    rw [List.flatMap_cons, Scanned.found, List.filterMap_append, ih]
    cases b with
    | passage p =>
      have hnone : List.filterMap Sum.getRight?
          (p.markup.map (.inl : Char → Char ⊕ CodeBlock)) = [] := by
        rw [List.filterMap_eq_nil_iff, List.forall_mem_map]
        exact fun _ _ => rfl
      exact congrArg (· ++ blocks.filterMap Block.code?) hnone
    | code | codeIn => rfl

theorem fences_blocks (h : ∀ b ∈ blocks, b.IsProper) :
    fences (blocks.flatMap Block.markup) = (blocks.filterMap Block.code?).map CodeBlock.fence := by
  rw [fences, scan_blocks h, found_scanned]

/-- The passages in which a paragraph with its token stands for each code block. The first block has
the given number. -/
def withTokens (n : Nat) : List Block → List Passage
  | [] => []
  | .passage p :: blocks => p :: withTokens n blocks
  | .code _ :: blocks | .codeIn _ _ _ :: blocks =>
    .paragraph ((token n).map .inl) :: withTokens (n + 1) blocks

theorem numbered_plain (n : Nat) (cs : List Char) (s : Scanned CodeBlock) :
    numbered n (cs.map .inl ++ s) = cs ++ numbered n s := by
  induction cs with
  | nil => rfl
  | cons c cs ih => rw [List.map_cons, List.cons_append, numbered_inl, ih, List.cons_append]

theorem numbered_scanned (n : Nat) (blocks : List Block) :
    numbered n (blocks.flatMap Block.scanned) = (withTokens n blocks).flatMap Passage.markup := by
  have htoken : ∀ n, (Passage.paragraph ((token n).map .inl)).markup =
      between "<para>" (token n) "</para>" := fun n =>
    congrArg (fun cs => between "<para>" cs "</para>") (Scanned.write_plain _ (token n))
  induction blocks generalizing n with
  | nil => rfl
  | cons b blocks ih =>
    cases b with
    | passage p => exact (numbered_plain n p.markup _).trans (congrArg _ (ih n))
    | code | codeIn =>
      rw [withTokens, List.flatMap_cons (f := Passage.markup), htoken, ← ih]
      rfl

theorem isLine_token (n : Nat) : IsLine ((token n).map .inl) := by
  intro part hpart
  obtain ⟨c, hc, rfl⟩ := List.mem_map.mp hpart
  exact ne_of_mem_of_not_mem hc ((by decide : IsMarkup '<').not_mem_token n)

theorem isLine_withTokens (h : ∀ b ∈ blocks, b.IsProper) (n : Nat) :
    ∀ p ∈ withTokens n blocks, IsLine p.line := by
  induction blocks generalizing n with
  | nil => exact fun p hp => absurd hp List.not_mem_nil
  | cons b blocks ih =>
    rw [List.forall_mem_cons] at h
    cases b with
    | passage p => exact List.forall_mem_cons.mpr ⟨h.1, ih h.2 n⟩
    | code | codeIn => exact List.forall_mem_cons.mpr ⟨isLine_token n, ih h.2 (n + 1)⟩

theorem isRun_withTokens (n : Nat) (blocks : List Block) :
    (withTokens n blocks).map Passage.isRun = blocks.map Block.isRun := by
  induction blocks generalizing n with
  | nil => rfl
  | cons b blocks ih => cases b <;> exact congrArg _ (ih _)

end

-- ---------------------------------------------------------------------------
-- Paragraphs
-- ---------------------------------------------------------------------------

def Passage.marks : Passage → Scanned Unit
  | run line => (line.write Inline.markup).map .inl
  | paragraph line => .inr () :: ((line.write Inline.markup).map .inl ++ [.inr ()])
  | emptyParagraph => [.inr ()]

theorem Passage.turns_paragraphMark {p : Passage} (h : IsLine p.line) :
    Turns (scan paragraphMark) p.markup p.marks := by
  have hline : Skips paragraphMark (p.line.write Inline.markup) :=
    h.skips paragraphMark_readsStarts fun element rest => by cases element <;> rfl
  cases p with
  | run => exact hline
  | paragraph line =>
    have hstart : Turns (scan paragraphMark) "<para>".toList [.inr ()] :=
      paragraphMark_readsStarts.turns_found (by decide) fun _ => rfl
    have hstop : Turns (scan paragraphMark) "</para>".toList [.inr ()] :=
      paragraphMark_readsStarts.turns_found (by decide) fun _ => rfl
    exact (hstart.append hline).append hstop
  | emptyParagraph => exact paragraphMark_readsStarts.turns_found (by decide) fun _ => rfl

def laidOut (parts : List (List Char)) : List (List Char) :=
  (parts.map collapse).filter (!·.isEmpty)

theorem paragraphs_eq (cs : List Char) :
    paragraphs cs = joinWith ['\n', '\n'] (laidOut (scan paragraphMark cs).split) := rfl

theorem laidOut_cons (part : List Char) {parts parts' : List (List Char)}
    (h : laidOut parts = laidOut parts') :
    laidOut (part :: parts) = laidOut (part :: parts') := by
  unfold laidOut at h ⊢
  rw [List.map_cons, List.map_cons, List.filter_cons, List.filter_cons, h]

/-- Between the marks there are the lines of the passages. A text that does not begin with a run
begins with a mark. -/
theorem split_marks {passages : List Passage} (hapart : AreApart (passages.map Passage.isRun)) :
    ∃ first parts, Scanned.split (passages.flatMap Passage.marks) = first :: parts ∧
      laidOut (first :: parts) = laidOut (passages.map fun p => p.line.write Inline.markup) ∧
      ((passages.map Passage.isRun).head?.getD false = false → first = []) := by
  induction passages with
  | nil => exact ⟨[], [], rfl, rfl, fun _ => rfl⟩
  | cons p passages ih =>
    obtain ⟨hnext, hrest⟩ := List.isChain_cons.mp hapart
    obtain ⟨first, parts, hsplit, htexts, hfirst⟩ := ih hrest
    rw [List.flatMap_cons, List.map_cons]
    cases p with
    | run line =>
      -- What comes behind a run begins with a mark, so no text of it is joined to the run.
      have hnil : first = [] := by
        refine hfirst ?_
        cases hhead : (passages.map Passage.isRun).head? with
        | none => rfl
        | some next => exact hnext next hhead
      refine ⟨_, parts, split_plain (line.write Inline.markup) hsplit, ?_, fun h =>
        absurd h (by simp [Passage.isRun])⟩
      rw [hnil] at htexts ⊢
      rw [List.append_nil]
      exact laidOut_cons _ htexts
    | paragraph line =>
      have hline : Scanned.split
          ((line.write Inline.markup).map .inl ++ (.inr () :: passages.flatMap Passage.marks)) =
          (line.write Inline.markup ++ []) :: first :: parts :=
        split_plain _ (by rw [Scanned.split, hsplit])
      rw [List.append_nil] at hline
      refine ⟨[], line.write Inline.markup :: first :: parts, ?_, ?_, fun _ => rfl⟩
      · rw [Passage.marks, List.cons_append, List.append_assoc, Scanned.split]
        exact congrArg _ hline
      · exact laidOut_cons _ htexts
    | emptyParagraph =>
      refine ⟨[], first :: parts, congrArg _ hsplit, ?_, fun _ => rfl⟩
      exact htexts

section
variable {passages : List Passage}

theorem paragraphs_passages (hlines : ∀ p ∈ passages, IsLine p.line)
    (hapart : AreApart (passages.map Passage.isRun)) :
    paragraphs (passages.flatMap Passage.markup) =
      joinWith ['\n', '\n'] (laidOut (passages.map fun p => p.line.write Inline.markup)) := by
  have hscan : scan paragraphMark (passages.flatMap Passage.markup) =
      passages.flatMap Passage.marks :=
    (Turns.flatMap fun p hp => Passage.turns_paragraphMark (hlines p hp)).apply_eq rfl
  obtain ⟨first, parts, hsplit, htexts, -⟩ := split_marks hapart
  rw [paragraphs_eq, hscan, hsplit, htexts]

theorem replaceEach_passages (hlines : ∀ p ∈ passages, IsLine p.line) :
    replaceEach elementPatterns
      (joinWith ['\n', '\n'] (laidOut (passages.map fun p => p.line.write Inline.markup))) =
      joinWith ['\n', '\n'] (laidOut (passages.map fun p => p.line.write Inline.written)) := by
  have hseparator : Turns (replaceEach elementPatterns) ['\n', '\n'] ['\n', '\n'] :=
    turns_replaceEach_of_skips fun p hp =>
      (elementPatterns_readsStarts p hp).skips_plain (by decide)
  refine (TurnsPart.joinWith hseparator ?_).apply_eq rfl
  rw [List.map_map, List.map_map, List.forall₂_map_left_iff, List.forall₂_map_right_iff,
    List.forall₂_same]
  exact fun p hp => ⟨(hlines p hp).turns_collapse, (hlines p hp).collapse_eq_nil_iff⟩

end

-- ---------------------------------------------------------------------------
-- Between the blocks
-- ---------------------------------------------------------------------------

theorem blankLines_opensWith : OpensWith '\n' blankLines where
  ahead _ _ _ := rfl
  opens c rest hc := by simp [blankLines, hc]

theorem mem_laidOut (h : part ∈ laidOut parts) : HasEnds part ∧ '\n' ∉ part := by
  obtain ⟨hmem, hne⟩ := List.mem_filter.mp h
  obtain ⟨cs, -, rfl⟩ := List.mem_map.mp hmem
  have hne : collapse cs ≠ [] := by simpa using hne
  refine ⟨hasEnds_trim hne, fun hnewline => ?_⟩
  have hspace := blank_of_mem_squeeze ((isInfix_trim _).subset hnewline) rfl
  exact absurd hspace (by decide)

theorem isPrefix_joinWith (separator part : List Char) (parts : List (List Char)) :
    part <+: joinWith separator (part :: parts) := by
  cases parts with
  | nil => exact List.prefix_rfl
  | cons next parts =>
    exact ⟨separator ++ joinWith separator (next :: parts), (List.append_assoc ..).symm⟩

theorem replaceAll_blankLines (h : ∀ part ∈ parts, part ≠ [] ∧ '\n' ∉ part) :
    replaceAll blankLines (joinWith ['\n', '\n'] parts) = joinWith ['\n', '\n'] parts := by
  induction parts with
  | nil => rfl
  | cons part parts ih =>
    rw [List.forall_mem_cons] at h
    have hpart : Turns (replaceAll blankLines) part part :=
      (blankLines_opensWith.skips_plain h.1.2).replaceAll
    cases parts with
    | nil => exact hpart.apply_eq rfl
    | cons next parts =>
      have hjoin : joinWith ['\n', '\n'] (part :: next :: parts) =
          part ++ ('\n' :: '\n' :: joinWith ['\n', '\n'] (next :: parts)) := by
        simp [joinWith]
      obtain ⟨c, rest, hnext, hc⟩ : ∃ c rest,
          joinWith ['\n', '\n'] (next :: parts) = c :: rest ∧ c ≠ '\n' := by
        obtain ⟨hne, hplain⟩ := h.2 next List.mem_cons_self
        obtain ⟨more, hmore⟩ := isPrefix_joinWith ['\n', '\n'] next parts
        obtain ⟨c, rest, rfl⟩ := List.exists_cons_of_ne_nil hne
        exact ⟨c, rest ++ more, hmore.symm, fun hc => hplain (hc ▸ List.mem_cons_self)⟩
      have hfirst : blankLines none ('\n' :: '\n' :: c :: rest) = none := by simp [blankLines, hc]
      have hsecond : blankLines none ('\n' :: c :: rest) = none := by simp [blankLines, hc]
      rw [hjoin, hpart, hnext, blankLines_opensWith.ahead.replaceAll_cons hfirst,
        blankLines_opensWith.ahead.replaceAll_cons hsecond, ← hnext, ih h.2]

theorem hasEnds_joinWith (h : ∀ part ∈ parts, HasEnds part) (hne : parts ≠ [])
    (separator : List Char) :
    HasEnds (joinWith separator parts) := by
  induction parts with
  | nil => exact absurd rfl hne
  | cons part parts ih =>
    rw [List.forall_mem_cons] at h
    cases parts with
    | nil => exact h.1
    | cons next parts => exact h.1.between (ih h.2 (List.cons_ne_nil next parts)) separator

theorem trim_joinWith (h : ∀ part ∈ parts, HasEnds part) (separator : List Char) :
    trim (joinWith separator parts) = joinWith separator parts := by
  by_cases hne : parts = []
  · rw [hne]
    rfl
  · exact (hasEnds_joinWith h hne separator).trim_eq

/-- Before tokens give way to fences, each block has been turned by itself. -/
theorem tokenized_blocks {blocks : List Block} (h : ∀ b ∈ blocks, b.IsProper)
    (hapart : AreApart (blocks.map Block.isRun)) :
    tokenized (blocks.flatMap Block.markup) =
      joinWith ['\n', '\n']
        (laidOut ((withTokens 0 blocks).map fun p => p.line.write Inline.written)) := by
  have hlines := isLine_withTokens h 0
  rw [← isRun_withTokens 0] at hapart
  rw [tokenized, scan_blocks h, numbered_scanned, paragraphs_passages hlines hapart, inline_eq,
    replaceEach_passages hlines]
  have hends : ∀ part ∈ laidOut ((withTokens 0 blocks).map fun p => p.line.write Inline.written),
      HasEnds part ∧ '\n' ∉ part := fun _ => mem_laidOut
  rw [replaceAll_blankLines fun part hpart => ⟨(hends part hpart).1.ne_nil, (hends part hpart).2⟩]
  exact trim_joinWith (fun part hpart => (hends part hpart).1) _

-- ---------------------------------------------------------------------------
-- Fences
-- ---------------------------------------------------------------------------

theorem tokenMark_opensWith : OpensWith '\x00' tokenMark where
  ahead _ _ _ := rfl
  opens c rest hc := by simp [tokenMark, dropStart?, Ne.symm hc]

def restored (fences : List (List Char)) (cs : List Char) : List Char :=
  (scan tokenMark cs).write fun n => fences.getD n []

theorem collapse_token (n : Nat) : collapse (token n) = token n := by
  have hends : HasEnds (token n) :=
    HasEnds.between (a := ['\x00']) (b := ['\x00']) (by decide) (by decide) _
  rw [collapse, squeeze_solid fun c hc => not_isBlank_of_mem_token hc, hends.trim_eq]

theorem turnsPart_token (before : List (List Char)) (block : CodeBlock)
    (behind : List (List Char)) :
    TurnsPart (restored (before ++ block.fence :: behind)) (token before.length) block.fence := by
  have hget : (before ++ block.fence :: behind).getD before.length [] = block.fence := by simp
  have hturns := tokenMark_opensWith.turns_write (List.cons_ne_nil _ _)
    (tokenMark_token before.length none)
    fun n => (before ++ block.fence :: behind).getD n []
  rw [hget] at hturns
  exact ⟨hturns, by simp [token, CodeBlock.fence]⟩

theorem not_mem_of_between {start stop : String} (h : c ∉ between start cs stop) : c ∉ cs :=
  fun hc => h (List.mem_append_left _ (List.mem_append_right _ hc))

theorem Inline.null_not_mem_written {element : Inline} (h : '\x00' ∉ element.markup) :
    '\x00' ∉ element.written := by
  have hkind : ∀ {value : List Char}, '\x00' ∉ value → '\x00' ∉ withoutKind value :=
    fun hvalue hc => hvalue (withoutKind_subset _ hc)
  have hlink : ∀ {start : String} {value text : List Char},
      '\x00' ∉ between start value "\">" ++ text ++ "</see>".toList →
      '\x00' ∉ value ∧ '\x00' ∉ text := fun h =>
    ⟨not_mem_of_between fun hc => h (List.mem_append_left _ (List.mem_append_left _ hc)),
      fun hc => h (List.mem_append_left _ (List.mem_append_right _ hc))⟩
  cases element with
  | crossReference => exact not_mem_between (by decide) (hkind (not_mem_of_between h)) (by decide)
  | langword | parameter | typeParameter | code =>
    exact not_mem_between (by decide) (not_mem_of_between h) (by decide)
  | crossLink =>
    obtain ⟨hvalue, htext⟩ := hlink h
    exact List.not_mem_append (not_mem_between (by decide) htext (by decide))
      (not_mem_between (by decide) (hkind hvalue) (by decide))
  | hyperlink =>
    obtain ⟨hvalue, htext⟩ := hlink h
    exact List.not_mem_append (not_mem_between (by decide) htext (by decide))
      (not_mem_between (by decide) hvalue (by decide))

theorem null_not_mem_line {line : Scanned Inline} (h : '\x00' ∉ line.write Inline.markup) :
    '\x00' ∉ collapse (line.write Inline.written) := by
  have hwritten : '\x00' ∉ line.write Inline.written := by
    intro hc
    obtain ⟨part, hpart, hc⟩ := List.mem_flatMap.mp hc
    have hmarkup : '\x00' ∉ part.elim (fun c => [c]) Inline.markup :=
      fun hc => h (List.mem_flatMap.mpr ⟨part, hpart, hc⟩)
    cases part with
    | inl c => exact hmarkup hc
    | inr element => exact Inline.null_not_mem_written hmarkup hc
  intro hc
  rcases mem_squeeze ((isInfix_trim _).subset hc) with hspace | hc
  · exact absurd hspace (by decide)
  · exact hwritten hc

theorem Passage.null_not_mem {p : Passage} (h : '\x00' ∉ p.markup) :
    '\x00' ∉ collapse (p.line.write Inline.written) := by
  cases p with
  | run => exact null_not_mem_line h
  | paragraph => exact null_not_mem_line (not_mem_of_between h)
  | emptyParagraph => exact List.not_mem_nil

/-- The induction is on the blocks. The fences of those that stand before them have the first
numbers. -/
theorem turns_blocks {blocks : List Block} (hnull : '\x00' ∉ blocks.flatMap Block.markup)
    (before : List (List Char)) :
    List.Forall₂ (TurnsPart
      (restored (before ++ (blocks.filterMap Block.code?).map CodeBlock.fence)))
      ((withTokens before.length blocks).map fun p => collapse (p.line.write Inline.written))
      (blocks.map Block.written) := by
  induction blocks generalizing before with
  | nil => exact .nil
  | cons b blocks ih =>
    rw [List.flatMap_cons, List.mem_append, not_or] at hnull
    -- Both kinds of code blocks leave the same token, and the fence behind it is the next in order.
    have hcode : ∀ block : CodeBlock, List.Forall₂
        (TurnsPart (restored
          (before ++ block.fence :: (blocks.filterMap Block.code?).map CodeBlock.fence)))
        (collapse (Scanned.write Inline.written ((token before.length).map .inl)) ::
          (withTokens (before.length + 1) blocks).map fun p =>
            collapse (p.line.write Inline.written))
        (block.fence :: blocks.map Block.written) := by
      intro block
      have hrest := ih hnull.2 (before ++ [block.fence])
      rw [List.length_append, List.append_assoc] at hrest
      refine .cons ?_ hrest
      rw [Scanned.write_plain, collapse_token]
      exact turnsPart_token before block _
    cases b with
    | passage p =>
      have hskips := tokenMark_opensWith.skips_plain (Passage.null_not_mem hnull.1)
      exact .cons ⟨hskips.write _, Iff.rfl⟩ (ih hnull.2 before)
    | code body => exact hcode ⟨[], body⟩
    | codeIn name language body => exact hcode ⟨language, body⟩

end DocMerge.Markdown

namespace DocMerge

open Markdown

/-- Blocks between which there are no two runs are turned one by one. What is not empty of them
stands with a blank line between. -/
theorem markdown?_blocks {blocks : List Block} (h : ∀ b ∈ blocks, b.IsProper)
    (hapart : AreApart (blocks.map Block.isRun)) (hnull : '\x00' ∉ blocks.flatMap Block.markup) :
    markdown? (String.ofList (blocks.flatMap Block.markup)) =
      some (String.ofList
        (Text.joinWith ['\n', '\n'] ((blocks.map Block.written).filter (!·.isEmpty)))) := by
  have hseparator : Text.Turns (restored (fences (blocks.flatMap Block.markup)))
      ['\n', '\n'] ['\n', '\n'] :=
    (tokenMark_opensWith.skips_plain (by decide)).write _
  have hblocks := turns_blocks hnull []
  rw [List.nil_append, ← fences_blocks h] at hblocks
  have hrestored := (Text.TurnsPart.joinWith hseparator hblocks).apply_eq rfl
  rw [markdown?, String.toList_ofList, ofMarkup?_eq_some hnull,
    tokenized_blocks h hapart, Option.map_some,
    laidOut, List.map_map]
  exact congrArg (fun cs => some (String.ofList cs)) hrestored

def Markdown.sampleBlocks : List Block :=
  [.passage (.run ("Adds\n  an ".toList.map .inl ++
    [.inr (.crossLink "T:Item".toList "item,\n one".toList)] ++
      " or ".toList.map .inl ++ [.inr (.langword "null".toList), .inl '.', .inl ' '])),
    .codeIn "lang" "cs".toList "\n    if (a &lt; b)\n\n      f();\n".toList,
    .passage .emptyParagraph,
    .passage (.run [.inl '\n']),
    .passage (.paragraph [.inl ' ', .inr (.crossReference "M:Item.F".toList), .inl ':', .inl ' ',
      .inr (.code "f()".toList)])]

theorem markdown?_blocks_sample :
    (∀ b ∈ sampleBlocks, b.IsProper) ∧ AreApart (sampleBlocks.map Block.isRun) ∧
    '\x00' ∉ sampleBlocks.flatMap Block.markup ∧
    String.ofList (sampleBlocks.flatMap Block.markup) =
      "Adds\n  an <see cref=\"T:Item\">item,\n one</see> or <see langword=\"null\"/>. " ++
        "<code lang=\"cs\">\n" ++
        "    if (a &lt; b)\n\n      f();\n</code><para/>\n<para> <see cref=\"M:Item.F\"/>: " ++
        "<c>f()</c></para>" ∧
    markdown? (String.ofList (sampleBlocks.flatMap Block.markup)) =
      some ("Adds an [item, one](xref:Item) or `null`.\n\n```cs\nif (a < b)\n\n  f();\n```\n\n" ++
        "<xref:Item.F>: `f()`") := by
  have hproper : ∀ b ∈ sampleBlocks, b.IsProper := by decide +kernel
  have hapart : AreApart (sampleBlocks.map Block.isRun) := by decide
  have hnull : '\x00' ∉ sampleBlocks.flatMap Block.markup := by decide +kernel
  have hwritten : String.ofList
      (Text.joinWith ['\n', '\n'] ((sampleBlocks.map Block.written).filter (!·.isEmpty))) =
      "Adds an [item, one](xref:Item) or `null`.\n\n```cs\nif (a < b)\n\n  f();\n```\n\n" ++
        "<xref:Item.F>: `f()`" := by
    decide +kernel
  have hmarkdown := markdown?_blocks hproper hapart hnull
  exact ⟨hproper, hapart, hnull, by decide +kernel, hmarkdown.trans (congrArg some hwritten)⟩

end DocMerge

import DocMerge.Proofs.Readers

/-!
# Tokens of what is printed

What documents are cut into is sound: characters that may stand there, names, comments and
instructions that can be written again. Printed, each of them is cut into the same tokens, with as
many sections as it takes to print one that holds the mark of its end.
-/

namespace DocMerge.Xml

open Text (EndsAt endsAt_cons dropStart?_eq_some_iff dropStart?_append)

variable {cs rest : List Char}

-- ---------------------------------------------------------------------------
-- Sound tokens
-- ---------------------------------------------------------------------------

def Token.IsHeld (isOpen : Bool) : Token → Prop
  | .char c | .escaped c => isAllowed c = true
  | .cdata s => AllAllowed s.toList ∧ '\r' ∉ s.toList
  | .comment s => IsComment s ∧ '\r' ∉ s.toList
  | .instruction target data => IsInstruction target data ∧ ∀ d, data = some d → '\r' ∉ d.toList
  | .reference name => IsForeign isOpen name
  | .opening name attributes => name.IsWritten ∧ ∀ a ∈ attributes, RawAttribute.IsHeld isOpen a
  | .closing _ => True

theorem readMarkup?_sound (hplain : '\r' ∉ cs)
    (h : readMarkup? ⟨[], isOpen⟩ fuel cs = some (tokens, rest)) :
    (∀ t ∈ tokens, t.IsHeld isOpen) ∧ IsBehind rest cs := by
  cases readMarkup?_reads h with
  | @comment s hcomment =>
    refine ⟨List.forall_mem_singleton.mpr ⟨hcomment, fun hmem => hplain (by simp [hmem])⟩, ?_⟩
    exact ⟨['!', '-', '-'] ++ s.toList ++ ['-', '-'], '>', by simp, by simp⟩
  | @cdata s _ hallowed =>
    refine ⟨List.forall_mem_singleton.mpr ⟨hallowed, fun hmem => hplain (by simp [hmem])⟩, ?_⟩
    exact ⟨'!' :: "[CDATA[".toList ++ (s.toList ++ [']', ']']), '>', by simp, by simp⟩
  | @instruction target data gap hinstruction _ =>
    refine ⟨List.forall_mem_singleton.mpr ⟨hinstruction, ?_⟩, ?_⟩
    · rintro d rfl hmem
      exact hplain (by simp [hmem])
    · exact ⟨'?' :: (target.toList ++ gap ++ (data.getD "").toList ++ ['?']), '>', by simp, by simp⟩
  | closing hclosing =>
    obtain ⟨⟨name, rfl⟩, hbehind⟩ := readClosing?_sound hclosing
    exact ⟨List.forall_mem_singleton.mpr trivial, hbehind.trans (List.suffix_cons _ _)⟩
  | opening hopening =>
    obtain ⟨⟨name, attributes, empty, hname, hall, rfl⟩, hbehind⟩ := readOpening?_sound hopening
    refine ⟨List.forall_mem_cons.mpr ⟨⟨hname, hall⟩, ?_⟩, hbehind⟩
    cases empty <;> simp [Token.IsHeld]

theorem readTokens?_sound (hplain : '\r' ∉ cs)
    (h : readTokens? ⟨[], isOpen⟩ fuel cs = some (tokens, rest)) :
    (∀ t ∈ tokens, t.IsHeld isOpen) ∧
    (IsBehind rest cs ∨ ∃ c, cs = c :: rest ∧ tokens = [.char c]) := by
  cases readTokens?_reads h with
  | markup hmarkup =>
    obtain ⟨hall, hbehind⟩ :=
      readMarkup?_sound (fun hmem => hplain (List.mem_cons_of_mem _ hmem)) hmarkup
    exact ⟨hall, .inl (hbehind.trans (List.suffix_cons _ _))⟩
  | escaped hreference | reference hreference =>
    obtain ⟨hheld, hbehind⟩ := readReference?_sound hreference
    exact ⟨List.forall_mem_singleton.mpr hheld, .inl (hbehind.trans (List.suffix_cons _ _))⟩
  | char hallowed => exact ⟨List.forall_mem_singleton.mpr hallowed, .inr ⟨_, rfl, rfl⟩⟩

theorem readTokens?_suffix (hplain : '\r' ∉ cs)
    (h : readTokens? ⟨[], isOpen⟩ fuel cs = some (tokens, rest)) :
    rest <:+ cs := by
  rcases (readTokens?_sound hplain h).2 with hbehind | ⟨c, rfl, -⟩
  · exact hbehind.suffix
  · exact List.suffix_cons _ _

theorem tokensWithin?_sound (hplain : '\r' ∉ cs)
    (h : tokensWithin? ⟨[], isOpen⟩ fuel cs = some tokens) :
    ∀ t ∈ tokens, t.IsHeld isOpen := by
  induction fuel generalizing cs tokens with
  | zero => simp [tokensWithin?] at h
  | succ fuel ih =>
    rw [tokensWithin?] at h
    split at h
    · obtain rfl : [] = tokens := by simpa using h
      simp
    · simp only [Option.bind_eq_bind, Option.bind_eq_some_iff, Prod.exists,
        Option.map_eq_some_iff] at h
      obtain ⟨first, behind, hfirst, more, hmore, rfl⟩ := h
      obtain ⟨hall, -⟩ := readTokens?_sound hplain hfirst
      have hmoreSound := ih (fun hmem => hplain ((readTokens?_suffix hplain hfirst).mem hmem)) hmore
      exact fun t ht => (List.mem_append.mp ht).elim (hall t) (hmoreSound t)

theorem tokens?_sound (hplain : '\r' ∉ cs) (h : tokens? ⟨[], isOpen⟩ cs = some tokens) :
    ∀ t ∈ tokens, t.IsHeld isOpen := tokensWithin?_sound hplain h

theorem append_eq_append_cons {first second before after : List α}
    (h : first ++ second = before ++ x :: after)
    (hx : x ∉ second) : ∃ between, first = before ++ x :: between ∧ after = between ++ second := by
  obtain ⟨between, -, hsecond⟩ | ⟨between, rfl, hcons⟩ := List.append_eq_append_iff.mp h
  · exact absurd (by simp [hsecond]) hx
  · cases between with
    | nil =>
      obtain rfl : x :: after = second := hcons
      exact absurd List.mem_cons_self hx
    | cons y between =>
      obtain ⟨rfl, rfl⟩ := List.cons.inj hcons
      exact ⟨between, rfl, rfl⟩

/-- Characters at the end of a text that end no markup are tokens of their own. -/
theorem tokensWithin?_trailing (before : List Char) (hplain : '\r' ∉ before ++ cs)
    (hcs : ∀ c ∈ cs, c ∉ [';', '>'])
    (h : tokensWithin? ⟨[], isOpen⟩ fuel (before ++ cs) = some tokens) :
    ∃ first, tokens = first ++ cs.map .char ∧ (before = [] → first = []) := by
  induction fuel generalizing before cs tokens with
  | zero => simp [tokensWithin?] at h
  | succ fuel ih =>
    rw [tokensWithin?] at h
    split at h
    · rename_i hempty
      obtain ⟨rfl, rfl⟩ : before = [] ∧ cs = [] := by simpa using hempty
      obtain rfl : [] = tokens := by simpa using h
      exact ⟨[], rfl, fun _ => rfl⟩
    · simp only [Option.bind_eq_bind, Option.bind_eq_some_iff, Prod.exists,
        Option.map_eq_some_iff] at h
      obtain ⟨tokens, behind, hfirst, more, hmore, rfl⟩ := h
      have hplain' : '\r' ∉ behind := fun hmem =>
        hplain ((readTokens?_suffix hplain hfirst).mem hmem)
      rcases (readTokens?_sound hplain hfirst).2 with ⟨start, mark, hsplit,
        hmark⟩ | ⟨c, hsplit, rfl⟩
      · have hnot : mark ∉ cs := fun hmem => hcs mark hmem hmark
        obtain ⟨between, rfl, rfl⟩ := append_eq_append_cons hsplit hnot
        obtain ⟨first, rfl, -⟩ := ih between hplain' hcs hmore
        exact ⟨tokens ++ first, by simp, by simp⟩
      · cases before with
        | nil =>
          obtain rfl : cs = c :: behind := hsplit
          obtain ⟨first, rfl, hfirst⟩ := ih [] hplain' (List.forall_mem_cons.mp hcs).2 hmore
          exact ⟨[], by rw [hfirst rfl]; rfl, fun _ => rfl⟩
        | cons d before =>
          obtain ⟨rfl, rfl⟩ := List.cons.inj hsplit
          obtain ⟨first, rfl, -⟩ := ih before hplain' hcs hmore
          exact ⟨.char d :: first, rfl, by simp⟩

-- ---------------------------------------------------------------------------
-- Printed tokens
-- ---------------------------------------------------------------------------

/-- A text is cut into tokens where nothing is declared, whatever fuel there is beyond its
length. -/
def Lexes (isOpen : Bool) (cs : List Char) (tokens : List Token) : Prop :=
  ∀ fuel, cs.length < fuel → tokensWithin? ⟨[], isOpen⟩ fuel cs = some tokens

theorem Lexes.nil : Lexes isOpen [] [] := by
  intro fuel hfuel
  obtain ⟨fuel, rfl⟩ := Nat.exists_eq_add_one_of_ne_zero (Nat.ne_zero_of_lt hfuel)
  rfl

theorem Lexes.cons (h : Lexes isOpen rest more)
    (hread : ∀ fuel, cs.length < fuel → readTokens? ⟨[], isOpen⟩ fuel cs = some (tokens, rest))
    (hshorter : rest.length < cs.length) : Lexes isOpen cs (tokens ++ more) := by
  intro fuel hfuel
  obtain ⟨fuel, rfl⟩ := Nat.exists_eq_add_one_of_ne_zero (Nat.ne_zero_of_lt hfuel)
  have hne : cs.isEmpty = false := by
    cases cs with
    | nil => simp at hshorter
    | cons c cs => rfl
  rw [tokensWithin?, hne, hread _ hfuel]
  simp only [Bool.false_eq_true, if_false, Option.bind_eq_bind, Option.bind_some]
  rw [h fuel (by omega)]
  rfl

theorem Lexes.tokens? (h : Lexes isOpen cs tokens) : tokens? ⟨[], isOpen⟩ cs = some tokens :=
  h _ (by simp [Entities.size])

/-- A tag begins with a name, so it is neither of the other kinds of markup. -/
theorem readMarkup?_name {entities : Entities} (hc : isNameStart c = true) (cs : List Char) :
    readMarkup? entities fuel (c :: cs) = readOpening? entities fuel (c :: cs) := by
  unfold readMarkup?
  split
  · rename_i heq
    exact absurd (List.cons.inj heq).1 (isNameStart_ne hc (by decide))
  · rename_i heq
    exact absurd (List.cons.inj heq).1 (isNameStart_ne hc (by decide))
  · rename_i heq
    exact absurd (List.cons.inj heq).1 (isNameStart_ne hc (by decide))
  · rename_i heq
    exact absurd (List.cons.inj heq).1 (isNameStart_ne hc (by decide))
  · rfl

variable {more : List Token} (h : Lexes isOpen rest more)
include h

theorem Lexes.markup
    (hread : ∀ fuel, cs.length < fuel → readMarkup? ⟨[], isOpen⟩ fuel cs = some (tokens, rest))
    (hshorter : rest.length ≤ cs.length) : Lexes isOpen ('<' :: cs) (tokens ++ more) :=
  h.cons (fun fuel hfuel => hread fuel (by simp only [List.length_cons] at hfuel; omega))
    (by simp only [List.length_cons]; omega)

theorem Lexes.comment (hcomment : IsComment s) :
    Lexes isOpen ("<!--".toList ++ s.toList ++ "-->".toList ++ rest) (.comment s :: more) := by
  have hread : readComment? (s.toList ++ ['-', '-', '>'] ++ rest) = some (s, rest) :=
    readComment?_eq_some_iff.mpr ⟨hcomment, rfl⟩
  show Lexes isOpen ('<' :: '!' :: '-' :: '-' :: (s.toList ++ ['-', '-', '>'] ++ rest))
      ([.comment s] ++ more)
  refine h.markup (fun fuel _ => ?_) ?_
  · rw [readMarkup?, hread]
    rfl
  · simp only [List.length_cons, List.length_append]
    omega

omit h in
def sectionStart : List Char := ['<', '!', '[', 'C', 'D', 'A', 'T', 'A', '[']

omit h in
def sectionEnd : List Char := [']', ']', '>']

theorem Lexes.section (hends : EndsAt sectionEnd s.toList) (hallowed : AllAllowed s.toList) :
    Lexes isOpen (sectionStart ++ s.toList ++ sectionEnd ++ rest) (.cdata s :: more) := by
  have hread : readUntil? "]]>".toList (s.toList ++ sectionEnd ++ rest) = some (s, rest) :=
    readUntil?_eq_some_iff.mpr ⟨hends, hallowed, rfl⟩
  have hopen : Text.dropStart? "[CDATA[".toList
      ("[CDATA[".toList ++ (s.toList ++ sectionEnd ++ rest)) =
      some (s.toList ++ sectionEnd ++ rest) := dropStart?_append _ _
  show Lexes isOpen ('<' :: '!' :: ("[CDATA[".toList ++ (s.toList ++ sectionEnd ++ rest)))
      ([.cdata s] ++ more)
  refine h.markup (fun fuel _ => ?_) ?_
  · rw [readMarkup?, hopen]
    · simp only [Option.bind_eq_bind, Option.bind_some, hread]
    · rintro _ ⟨⟩
  · simp only [List.length_cons, List.length_append]
    omega

omit h in
theorem printInstruction_eq (target : String) (data : Option String) :
    ∃ gap, IsGap data gap ∧ printInstruction target data =
      '<' :: '?' :: (target.toList ++ gap ++ (data.getD "").toList ++ ['?', '>']) := by
  cases data with
  | none => exact ⟨[], ⟨by simp, by simp⟩, by simp [printInstruction]⟩
  | some data => exact ⟨[' '], ⟨by simp [isSpace], by simp⟩, by simp [printInstruction]⟩

theorem Lexes.instruction (hinstruction : IsInstruction target data) :
    Lexes isOpen (printInstruction target data ++ rest) (.instruction target data :: more) := by
  obtain ⟨gap, hgap, hprint⟩ := printInstruction_eq target data
  have hread : readInstruction?
      (target.toList ++ gap ++ (data.getD "").toList ++ ['?', '>'] ++ rest) =
      some (target, data, rest) := readInstruction?_eq_some_iff.mpr ⟨hinstruction, gap, hgap, rfl⟩
  rw [hprint, List.cons_append, List.cons_append]
  show Lexes isOpen _ ([.instruction target data] ++ more)
  refine h.markup (fun fuel _ => ?_) ?_
  · rw [readMarkup?, hread]
    rfl
  · simp only [List.length_cons, List.length_append]
    omega

theorem Lexes.closing (hname : QName.IsWritten name) :
    Lexes isOpen ('<' :: '/' :: (name.print ++ '>' :: rest)) (.closing name :: more) := by
  show Lexes isOpen _ ([.closing name] ++ more)
  refine h.markup (fun fuel _ => ?_) ?_
  · rw [readMarkup?, readClosing?_print hname]
    rfl
  · simp only [List.length_cons, List.length_append]
    omega

theorem Lexes.opening (hname : QName.IsWritten name)
    (hsound : ∀ a ∈ attributes, RawAttribute.IsHeld isOpen a)
    (hstop : IsTagEnd stop empty) :
    Lexes isOpen ('<' :: (printOpening name attributes stop ++ rest))
      (.opening name attributes :: (if empty then [.closing name] else []) ++ more) := by
  refine h.markup (fun fuel hfuel => ?_) ?_
  · rw [← readOpening?_print hname hsound hstop rest hfuel]
    obtain ⟨c, cs, hcs, hc⟩ := hname.print_eq_cons
    rw [printOpening, hcs]
    exact readMarkup?_name hc _
  · simp only [List.length_append]
    omega

theorem Lexes.reference (hname : IsForeign isOpen name) :
    Lexes isOpen (printReference name ++ rest) (.reference name :: more) := by
  have hprint : printReference name ++ rest = '&' :: (name.toList ++ ';' :: rest) := by
    simp [printReference]
  rw [hprint]
  show Lexes isOpen _ ([.reference name] ++ more)
  refine h.cons (fun fuel _ => ?_) ?_
  · rw [readTokens?, hname.read]
    rfl
  · simp only [List.length_cons, List.length_append]
    omega

omit h in
def textToken (c : Char) : Token :=
  if c = '<' ∨ c = '>' ∨ c = '&' ∨ c = '\r' then .escaped c else .char c

omit h in
theorem readTokens?_escapeText (hallowed : isAllowed c = true)
    (hclear : c = ']' → Text.dropStart? [']', '>'] rest = none) :
    readTokens? ⟨[], isOpen⟩ fuel (escapeText c ++ rest) = some ([textToken c], rest) := by
  unfold escapeText
  split
  · rfl
  · rfl
  · rfl
  · rfl
  · rename_i hopen hclose hand hreturn
    have hplain : textToken c = .char c := by
      rw [textToken, if_neg]
      rintro (h | h | h | h) <;> contradiction
    have hstop : (c == ']' && Text.hasStart [']', '>'] rest) = false := by
      by_cases hbracket : c = ']'
      · simp [Text.hasStart, hclear hbracket]
      · simp [hbracket]
    rw [List.singleton_append, readTokens?, hplain]
    · simp [hallowed, hstop]
    · exact hopen
    · exact hand

omit h in
def IsClear (rest : List Char) : Prop := ∀ c ∈ rest.head?, c ≠ ']' ∧ c ≠ '>'

omit h in
theorem head?_escapeText (c : Char) :
    ∃ d ds, escapeText c = d :: ds ∧ d ≠ '>' ∧ (d = ']' → c = ']' ∧ ds = []) := by
  unfold escapeText
  split
  · exact ⟨'&', "lt;".toList, rfl, by decide, by decide⟩
  · exact ⟨'&', "gt;".toList, rfl, by decide, by decide⟩
  · exact ⟨'&', "amp;".toList, rfl, by decide, by decide⟩
  · exact ⟨'&', "#13;".toList, rfl, by decide, by decide⟩
  · rename_i hclose _ _
    exact ⟨c, [], rfl, hclose, fun h => ⟨h, rfl⟩⟩

theorem Lexes.text (hallowed : AllAllowed cs) (hclear : IsClear rest) :
    Lexes isOpen (cs.flatMap escapeText ++ rest) (cs.map textToken ++ more) := by
  have hhead : ∀ cs : List Char, ∀ c ∈ (cs.flatMap escapeText ++ rest).head?, c ≠ '>' := by
    intro cs
    cases cs with
    | nil => exact fun c hc => (hclear c hc).2
    | cons c cs =>
      obtain ⟨d, ds, heq, hd, -⟩ := head?_escapeText c
      rw [List.flatMap_cons, heq]
      rintro _ ⟨rfl⟩
      exact hd
  have hstop : ∀ cs : List Char,
      Text.dropStart? [']', '>'] (cs.flatMap escapeText ++ rest) = none := by
    intro cs
    by_contra hsome
    obtain ⟨behind, hbehind⟩ := Option.ne_none_iff_exists'.mp hsome
    rw [dropStart?_eq_some_iff] at hbehind
    cases cs with
    | nil =>
      exact (hclear ']' (by rw [List.flatMap_nil, List.nil_append] at hbehind; rw [hbehind]; rfl)).1
        rfl
    | cons c cs =>
      obtain ⟨d, ds, heq, -, hbracket⟩ := head?_escapeText c
      rw [List.flatMap_cons, heq] at hbehind
      obtain ⟨rfl, hds⟩ := List.cons.inj hbehind
      obtain ⟨-, rfl⟩ := hbracket rfl
      exact hhead cs '>' (congrArg List.head? hds) rfl
  induction cs with
  | nil => exact h
  | cons c cs ih =>
    obtain ⟨hc, hcs⟩ := List.forall_mem_cons.mp hallowed
    obtain ⟨d, ds, heq, -⟩ := head?_escapeText c
    rw [List.flatMap_cons, List.append_assoc, List.map_cons]
    show Lexes isOpen _ ([textToken c] ++ (cs.map textToken ++ more))
    refine (ih hcs).cons (fun fuel _ => readTokens?_escapeText hc fun _ => hstop cs) ?_
    simp only [List.length_append, heq, List.length_cons]
    omega

-- ---------------------------------------------------------------------------
-- Sections
-- ---------------------------------------------------------------------------

def printSections (parts : List (List Char)) : List Char :=
  parts.flatMap fun part => sectionStart ++ part ++ sectionEnd

omit h in
theorem printSection_body_mark (cs : List Char) :
    printSection.body (']' :: ']' :: '>' :: cs) =
      [']', ']'] ++ sectionEnd ++ sectionStart ++ '>' :: printSection.body cs := by
  have hmark : "]]]]><![CDATA[>".toList = [']', ']'] ++ sectionEnd ++ sectionStart ++ ['>'] := by
    simp [sectionStart, sectionEnd]
  conv => lhs; unfold printSection.body
  rw [List.append_cons, ← hmark]
  generalize "]]]]><![CDATA[>".toList = mark
  rfl

omit h in
theorem printSection_body_cons (hnot : ∀ rest, c = ']' → cs = ']' :: '>' :: rest → False) :
    printSection.body (c :: cs) = c :: printSection.body cs := by
  conv => lhs; unfold printSection.body
  split
  · rename_i heq
    obtain ⟨rfl, rfl⟩ := List.cons.inj heq
    exact (hnot _ rfl rfl).elim
  · rename_i heq
    obtain ⟨rfl, rfl⟩ := List.cons.inj heq
    rfl
  · rename_i heq
    cases heq

omit h in
/-- A section is printed as parts that are cut after the brackets of each mark in it. -/
theorem printSection_body (cs : List Char) :
    ∃ first parts, first ++ parts.flatten = cs ∧ (∀ part ∈ first :: parts, EndsAt sectionEnd part) ∧
      printSection.body cs ++ sectionEnd = first ++ sectionEnd ++ printSections parts := by
  induction cs using printSection.body.induct with
  | case1 cs ih =>
    obtain ⟨first, parts, hjoined, hends, hprint⟩ := ih
    rw [List.forall_mem_cons] at hends
    refine ⟨[']', ']'], ('>' :: first) :: parts, by simp [hjoined], ?_, ?_⟩
    · refine List.forall_mem_cons.mpr ⟨rfl, List.forall_mem_cons.mpr ⟨?_, hends.2⟩⟩
      exact endsAt_cons.mpr ⟨rfl, hends.1⟩
    · have hrest : '>' :: printSection.body cs ++ sectionEnd =
          '>' :: (first ++ sectionEnd ++ printSections parts) := congrArg _ hprint
      rw [printSection_body_mark, List.append_assoc, hrest]
      simp [printSections]
  | case2 c cs hnot ih =>
    obtain ⟨first, parts, hjoined, hends, hprint⟩ := ih
    rw [List.forall_mem_cons] at hends
    refine ⟨c :: first, parts, by simp [hjoined], ?_, ?_⟩
    · refine List.forall_mem_cons.mpr ⟨endsAt_cons.mpr ⟨?_, hends.1⟩, hends.2⟩
      -- A mark that began here would stand in the text.
      by_contra hsome
      obtain ⟨behind, hbehind⟩ := Option.ne_none_iff_exists'.mp hsome
      rw [dropStart?_eq_some_iff] at hbehind
      match first with
      | [] => simp [sectionEnd] at hbehind
      | [d] => simp [sectionEnd] at hbehind
      | d :: e :: first =>
        obtain ⟨rfl, rfl, rfl, -⟩ : c = ']' ∧ d = ']' ∧ e = '>' ∧ _ := by
          simpa [sectionEnd] using hbehind
        exact hnot _ rfl (by rw [← hjoined]; rfl)
    · rw [printSection_body_cons hnot, List.cons_append, hprint]
      rfl
  | case3 =>
    have hnil : printSection.body [] = [] := by conv => lhs; unfold printSection.body
    exact ⟨[], [], rfl, List.forall_mem_singleton.mpr rfl, by rw [hnil]; rfl⟩

theorem Lexes.sections (hends : ∀ part ∈ parts, EndsAt sectionEnd part)
    (hallowed : ∀ part ∈ parts, AllAllowed part) :
    Lexes isOpen (printSections parts ++ rest) (parts.map (.cdata ∘ String.ofList) ++ more) := by
  induction parts with
  | nil => exact h
  | cons part parts ih =>
    rw [List.forall_mem_cons] at hends hallowed
    have hrest := (ih hends.2 hallowed.2).section (s := String.ofList part)
      (by simpa using hends.1) (by simpa using hallowed.1)
    rw [String.toList_ofList] at hrest
    simpa only [printSections, List.flatMap_cons, List.append_assoc, List.map_cons,
      Function.comp_apply, List.cons_append] using hrest

end DocMerge.Xml

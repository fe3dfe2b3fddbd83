import DocMerge.Proofs.Turning

/-!
# Inline markup

Links, names and code spans that stand in a line of text, the markup they are given in and the
markdown they are given back in. The passes of `inline` go over the text one after the other. Each
turns the elements of one kind and skips the others, those that an earlier pass has written
included, so that in the end each element has been turned by itself.
-/

namespace DocMerge.Markdown

open Text

-- ---------------------------------------------------------------------------
-- Elements in a line
-- ---------------------------------------------------------------------------

inductive Inline
  | crossReference (id : List Char)
  | crossLink (id text : List Char)
  | langword (word : List Char)
  | hyperlink (address text : List Char)
  | parameter (name : List Char)
  | typeParameter (name : List Char)
  | code (text : List Char)
  deriving DecidableEq, Repr

def between (start : String) (cs : List Char) (stop : String) : List Char :=
  start.toList ++ cs ++ stop.toList

theorem not_mem_between {start stop : String} (hstart : c ∉ start.toList) (h : c ∉ cs)
    (hstop : c ∉ stop.toList) :
    c ∉ between start cs stop := List.not_mem_append (List.not_mem_append hstart h) hstop

namespace Inline

def markup : Inline → List Char
  | crossReference id => between "<see cref=\"" id "\"/>"
  | crossLink id text => between "<see cref=\"" id "\">" ++ text ++ "</see>".toList
  | langword word => between "<see langword=\"" word "\"/>"
  | hyperlink address text => between "<see href=\"" address "\">" ++ text ++ "</see>".toList
  | parameter name => between "<paramref name=\"" name "\"/>"
  | typeParameter name => between "<typeparamref name=\"" name "\"/>"
  | code text => between "<c>" text "</c>"

def written : Inline → List Char
  | crossReference id => between "<xref:" (withoutKind id) ">"
  | crossLink id text => between "[" text "]" ++ between "(xref:" (withoutKind id) ")"
  | hyperlink address text => between "[" text "]" ++ between "(" address ")"
  | langword text | parameter text | typeParameter text | code text => between "`" text "`"

def squeeze : Inline → Inline
  | crossLink id text => crossLink id (Text.squeeze text)
  | hyperlink address text => hyperlink address (Text.squeeze text)
  | code text => code (Text.squeeze text)
  | element => element

end Inline

def IsValue (cs : List Char) : Prop := cs ≠ [] ∧ ∀ c ∈ cs, c ≠ '"' ∧ c ≠ '<' ∧ isBlank c = false

instance (cs : List Char) : Decidable (IsValue cs) := inferInstanceAs (Decidable (_ ∧ _))

def Inline.IsProper : Inline → Prop
  | crossReference value | langword value | parameter value | typeParameter value => IsValue value
  | crossLink value text | hyperlink value text => IsValue value ∧ '<' ∉ text
  | code text => '<' ∉ text

instance : (element : Inline) → Decidable element.IsProper
  | .crossReference value | .langword value | .parameter value | .typeParameter value =>
    inferInstanceAs (Decidable (IsValue value))
  | .crossLink value text | .hyperlink value text =>
    inferInstanceAs (Decidable (IsValue value ∧ '<' ∉ text))
  | .code text => inferInstanceAs (Decidable ('<' ∉ text))

def IsLine (line : Scanned Inline) : Prop := ∀ part ∈ line, part.elim (· ≠ '<') Inline.IsProper

instance (line : Scanned Inline) : Decidable (IsLine line) :=
  @List.decidableBAll _ _ (fun
    | .inl c => inferInstanceAs (Decidable (c ≠ '<'))
    | .inr element => inferInstanceAs (Decidable element.IsProper)) line

theorem IsValue.not_mem_quote (h : IsValue cs) : '"' ∉ cs := fun hc => (h.2 _ hc).1 rfl

theorem IsValue.not_mem_open (h : IsValue cs) : '<' ∉ cs := fun hc => (h.2 _ hc).2.1 rfl

theorem IsValue.solid (h : IsValue cs) : ∀ c ∈ cs, isBlank c = false := fun c hc => (h.2 c hc).2.2

theorem withoutKind_subset (reference : List Char) : withoutKind reference ⊆ reference := by
  unfold withoutKind
  split
  · split
    · exact fun c hc => by simp [hc]
    · exact fun c hc => hc
  · exact fun c hc => hc

-- ---------------------------------------------------------------------------
-- On one line
-- ---------------------------------------------------------------------------

namespace Inline

theorem hasEnds_markup (element : Inline) : HasEnds element.markup := by
  cases element with
  | crossReference | langword | parameter | typeParameter | code =>
    exact .between (by decide) (by decide) _
  | crossLink | hyperlink => exact .between (.between (by decide) (by decide) _) (by decide) _

theorem hasEnds_written (element : Inline) : HasEnds element.written := by
  cases element with
  | crossReference | langword | parameter | typeParameter | code =>
    exact .between (by decide) (by decide) _
  | crossLink | hyperlink =>
    exact HasEnds.append (.between (by decide) (by decide) _) (.between (by decide) (by decide) _)

theorem turns_squeeze_value {start stop : String} (hstart : IsDelimiter start.toList)
    (hvalue : ∀ c ∈ value, isBlank c = false) (hstop : IsDelimiter stop.toList) :
    Turns Text.squeeze (between start value stop) (between start value stop) :=
  (hstart.turns_squeeze.append (turns_squeeze_solid hvalue)).append hstop.turns_squeeze

theorem turns_squeeze_text (hstart : Turns Text.squeeze start start) (text : List Char)
    (hstop : IsDelimiter stop) :
    Turns Text.squeeze (start ++ text ++ stop) (start ++ Text.squeeze text ++ stop) := by
  rw [List.append_assoc, List.append_assoc]
  exact hstart.append (hstop.turns_squeeze_append text)

theorem turns_squeeze_markup {element : Inline} (h : element.IsProper) :
    Turns Text.squeeze element.markup element.squeeze.markup := by
  cases element with
  | crossReference | langword | parameter | typeParameter =>
    exact turns_squeeze_value (by decide) h.solid (by decide)
  | crossLink | hyperlink =>
    exact turns_squeeze_text (turns_squeeze_value (by decide) h.1.solid (by decide)) _ (by decide)
  | code => exact turns_squeeze_text (IsDelimiter.turns_squeeze (by decide)) _ (by decide)

theorem turns_squeeze_written {element : Inline} (h : element.IsProper) :
    Turns Text.squeeze element.written element.squeeze.written := by
  have hkind : ∀ {id : List Char}, IsValue id → ∀ c ∈ withoutKind id, isBlank c = false :=
    fun hid c hc => hid.solid c (withoutKind_subset _ hc)
  cases element with
  | crossReference => exact turns_squeeze_value (by decide) (hkind h) (by decide)
  | langword | parameter | typeParameter =>
    exact turns_squeeze_value (by decide) h.solid (by decide)
  | code => exact turns_squeeze_text (IsDelimiter.turns_squeeze (by decide)) _ (by decide)
  | crossLink =>
    exact Turns.append (turns_squeeze_text (IsDelimiter.turns_squeeze (by decide)) _ (by decide))
      (turns_squeeze_value (by decide) (hkind h.1) (by decide))
  | hyperlink =>
    exact Turns.append (turns_squeeze_text (IsDelimiter.turns_squeeze (by decide)) _ (by decide))
      (turns_squeeze_value (by decide) h.1.solid (by decide))

theorem IsProper.squeeze {element : Inline} (h : element.IsProper) : element.squeeze.IsProper := by
  have htext : ∀ {text : List Char}, '<' ∉ text → '<' ∉ Text.squeeze text :=
    fun htext hc => (mem_squeeze hc).elim (by decide) htext
  cases element with
  | crossReference | langword | parameter | typeParameter => exact h
  | crossLink | hyperlink => exact ⟨h.1, htext h.2⟩
  | code => exact htext h

end Inline

-- ---------------------------------------------------------------------------
-- Readers
-- ---------------------------------------------------------------------------

theorem attribute?_value (name : String) (hvalue : '"' ∉ value) (rest : List Char) :
    attribute? name (name.toList ++ ['=', '"'] ++ (value ++ '"' :: rest)) = some (value, rest) := by
  have hstart : dropStart? (name.toList ++ ['=', '"'])
      (name.toList ++ ['=', '"'] ++ (value ++ '"' :: rest)) =
      some (value ++ '"' :: rest) := dropStart?_eq_some_iff.mpr rfl
  have hplain : ∀ c ∈ value, (c != '"') = true := fun c hc => by
    simpa using ne_of_mem_of_not_mem hc hvalue
  have htake : (value ++ '"' :: rest).takeWhile (· != '"') = value := by
    rw [List.takeWhile_append_of_pos hplain]
    simp
  have hdrop : (value ++ '"' :: rest).dropWhile (· != '"') = '"' :: rest := by
    rw [List.dropWhile_append_of_pos hplain]
    simp
  rw [attribute?, hstart, Option.bind_eq_bind, Option.bind_some, htake, hdrop]
  rfl

def IsTagStart (tag name start : String) : Prop :=
  start.toList = '<' :: tag.toList ++ ' ' :: (name.toList ++ ['=', '"']) ∧
    ∀ c ∈ (name.toList ++ ['=', '"']).head?, isBlank c = false

instance (tag name start : String) : Decidable (IsTagStart tag name start) :=
  inferInstanceAs (Decidable (_ ∧ _))

section
variable {tag name start : String}

theorem tagged?_value (hstart : IsTagStart tag name start) (hvalue : IsValue value)
    (rest : List Char) :
    tagged? tag name (start.toList ++ (value ++ '"' :: rest)) = some (value, rest) := by
  obtain ⟨hstart, hname⟩ := hstart
  have hblanks : dropBlanks? (' ' :: (name.toList ++ ['=', '"'] ++ (value ++ '"' :: rest))) =
      some (name.toList ++ ['=', '"'] ++ (value ++ '"' :: rest)) := by
    obtain ⟨c, more, hcs⟩ :=
      List.exists_cons_of_ne_nil (show name.toList ++ ['=', '"'] ≠ [] by simp)
    have hc : isBlank c = false := hname c (by rw [hcs]; rfl)
    rw [hcs]
    simp [dropBlanks?, hc, show isBlank ' ' = true from rfl]
  have htag : dropStart? ('<' :: tag.toList) (start.toList ++ (value ++ '"' :: rest)) =
      some (' ' :: (name.toList ++ ['=', '"'] ++ (value ++ '"' :: rest))) := by
    rw [dropStart?_eq_some_iff, hstart]
    simp only [List.append_assoc, List.cons_append]
  have hne : value.isEmpty = false := List.isEmpty_eq_false_iff.mpr hvalue.1
  simp only [tagged?, htag, hblanks, attribute?_value name hvalue.not_mem_quote,
    Option.bind_eq_bind,
    Option.bind_some, hne, Bool.false_eq_true, if_false]

theorem tagged?_empty (hstart : IsTagStart tag name start) (hvalue : IsValue value)
    (rest : List Char) :
    tagged? tag name (between start value "\"/>" ++ rest) = some (value, '/' :: '>' :: rest) := by
  rw [between, List.append_assoc, List.append_assoc]
  exact tagged?_value hstart hvalue _

theorem tagged?_open (hstart : IsTagStart tag name start) (hvalue : IsValue value)
    (text stop rest : List Char) :
    tagged? tag name (between start value "\">" ++ text ++ stop ++ rest) =
      some (value, '>' :: (text ++ (stop ++ rest))) := by
  simp only [between, List.append_assoc]
  exact tagged?_value hstart hvalue _

end

theorem content?_ends {tag : String} (h : EndsAt ("</".toList ++ tag.toList ++ ['>']) text)
    (rest : List Char) :
    content? tag ('>' :: (text ++ ("</".toList ++ tag.toList ++ ['>'] ++ rest))) =
    some (text, rest) := by
  rw [← List.append_assoc]
  exact cutAt?_eq_some_iff.mpr ⟨h, rfl⟩

theorem endsAt_plain (h : '<' ∉ text) (mark : List Char) : EndsAt ('<' :: mark) text := by
  have hends := endsAt_append (endsAt_nil ('<' :: mark)) (fun c hc => ne_of_mem_of_not_mem hc h)
  rwa [List.append_nil] at hends

-- ---------------------------------------------------------------------------
-- Passes
-- ---------------------------------------------------------------------------

def replaceEach (patterns : List (Pattern (List Char))) (cs : List Char) : List Char :=
  patterns.foldl (fun text pattern => replaceAll pattern text) cs

def elementPatterns : List (Pattern (List Char)) :=
  [textLink, bareLink, keyword, webLink, parameterName, codeSpan]

theorem inline_eq (cs : List Char) :
    inline cs = replaceAll blankLines (replaceEach elementPatterns cs) := by
  rw [replaceEach, elementPatterns, inline]
  simp only [List.foldl_cons, List.foldl_nil]

theorem turns_replaceEach_of_skips (h : ∀ p ∈ patterns, Skips p m) :
    Turns (replaceEach patterns) m m := by
  induction patterns with
  | nil => exact fun _ => rfl
  | cons p patterns ih =>
    rw [List.forall_mem_cons] at h
    exact h.1.replaceAll.comp (ih h.2)

/-- One pass turns a text, those before it skip it, and those behind it skip what it has been turned
into. -/
theorem turns_replaceEach (hbefore : ∀ p ∈ before, Skips p m) (hturns : Turns (replaceAll p) m out)
    (hafter : ∀ p ∈ after, Skips p out) : Turns (replaceEach (before ++ p :: after)) m out := by
  have hall : replaceEach (before ++ p :: after) =
      replaceEach after ∘ replaceAll p ∘ replaceEach before := by
    funext cs
    exact List.foldl_append
  rw [hall]
  exact ((turns_replaceEach_of_skips hbefore).comp hturns).comp (turns_replaceEach_of_skips hafter)

structure ReadsStarts (pattern : Pattern σ) : Prop extends OpensWith '<' pattern where
  see : ∀ rest, pattern none ("</see>".toList ++ rest) = none
  code : ∀ rest, pattern none ("</c>".toList ++ rest) = none

theorem elementPatterns_readsStarts : ∀ p ∈ elementPatterns, ReadsStarts p := by
  simp only [elementPatterns, List.forall_mem_cons, List.not_mem_nil, false_imp_iff,
    implies_true, and_true]
  refine ⟨?_, ?_, ?_, ?_, ?_, ?_⟩ <;>
    refine ⟨⟨fun _ _ _ => rfl, fun c rest hc => ?_⟩, fun _ => rfl, fun _ => rfl⟩
  · simp [textLink, tagged?, dropStart?, Ne.symm hc]
  · simp [bareLink, tagged?, dropStart?, Ne.symm hc]
  · simp [keyword, tagged?, dropStart?, Ne.symm hc]
  · simp [webLink, tagged?, dropStart?, Ne.symm hc]
  · simp [parameterName, tagged?, dropStart?, Ne.symm hc]
  · simp [codeSpan, dropStart?, Ne.symm hc]

namespace Inline

theorem exists_behind {element : Inline} (hp : ReadsStarts pattern) (h : element.IsProper) :
    ∃ behind, element.markup = '<' :: behind ∧ Skips pattern behind := by
  have hsee : Skips pattern "</see>".toList := hp.skips_alike hp.see (by decide)
  have hcode : Skips pattern "</c>".toList := hp.skips_alike hp.code (by decide)
  have hvalue : ∀ {start stop : String} {value : List Char}, '<' ∉ start.toList → IsValue value →
      '<' ∉ stop.toList →
      Skips pattern (between start value stop) := fun hstart hvalue hstop =>
    ((hp.skips_plain hstart).append (hp.skips_plain hvalue.not_mem_open)).append
      (hp.skips_plain hstop)
  cases element with
  | crossReference id =>
    exact ⟨between "see cref=\"" id "\"/>", rfl, hvalue (by decide) h (by decide)⟩
  | langword word =>
    exact ⟨between "see langword=\"" word "\"/>", rfl, hvalue (by decide) h (by decide)⟩
  | parameter name =>
    exact ⟨between "paramref name=\"" name "\"/>", rfl, hvalue (by decide) h (by decide)⟩
  | typeParameter name =>
    exact ⟨between "typeparamref name=\"" name "\"/>", rfl, hvalue (by decide) h (by decide)⟩
  | crossLink id text =>
    exact ⟨between "see cref=\"" id "\">" ++ text ++ "</see>".toList, rfl,
      ((hvalue (by decide) h.1 (by decide)).append (hp.skips_plain h.2)).append hsee⟩
  | hyperlink address text =>
    exact ⟨between "see href=\"" address "\">" ++ text ++ "</see>".toList, rfl,
      ((hvalue (by decide) h.1 (by decide)).append (hp.skips_plain h.2)).append hsee⟩
  | code text =>
    exact ⟨between "c>" text "</c>", rfl,
      ((hp.skips_plain (by decide)).append (hp.skips_plain h)).append hcode⟩

theorem skips {element : Inline} (hp : ReadsStarts pattern) (h : element.IsProper)
    (hnone : ∀ rest, pattern none (element.markup ++ rest) = none) :
    Skips pattern element.markup := by
  obtain ⟨behind, hmarkup, hbehind⟩ := exists_behind hp h
  rw [hmarkup] at hnone ⊢
  exact hp.skips_cons hnone hbehind

end Inline

-- ---------------------------------------------------------------------------
-- Matches
-- ---------------------------------------------------------------------------

namespace Inline

theorem content?_see (h : '<' ∉ text) (rest : List Char) :
    content? "see" ('>' :: (text ++ ("</see>".toList ++ rest))) = some (text, rest) :=
  content?_ends (endsAt_plain h _) rest

theorem textLink_markup (h : (crossLink value text).IsProper) (rest : List Char) :
    textLink none ((crossLink value text).markup ++ rest) =
    some ((crossLink value text).written, rest) := by
  have hout : link text ("xref:".toList ++ withoutKind value) = (crossLink value text).written := by
    simp only [link, written, between, List.append_assoc]
    rfl
  rw [textLink, markup, tagged?_open (by decide) h.1]
  simp only [Option.bind_eq_bind, Option.bind_some, content?_see h.2, hout]

theorem webLink_markup (h : (hyperlink value text).IsProper) (rest : List Char) :
    webLink none ((hyperlink value text).markup ++ rest) =
    some ((hyperlink value text).written, rest) := by
  have hout : link text value = (hyperlink value text).written := by
    simp only [link, written, between, List.append_assoc]
    rfl
  rw [webLink, markup, tagged?_open (by decide) h.1]
  simp only [Option.bind_eq_bind, Option.bind_some, content?_see h.2, hout]

theorem codeSpan_markup (h : (code text).IsProper) (rest : List Char) :
    codeSpan none ((code text).markup ++ rest) = some ((code text).written, rest) := by
  have hstart : dropStart? "<c>".toList ((code text).markup ++ rest) =
      some (text ++ ("</c>".toList ++ rest)) := by
    rw [markup, between, List.append_assoc, List.append_assoc, dropStart?_append]
  have hcut : cutAt? "</c>".toList (text ++ ("</c>".toList ++ rest)) = some (text, rest) := by
    rw [← List.append_assoc]
    exact cutAt?_eq_some_iff.mpr ⟨endsAt_plain h _, rfl⟩
  rw [codeSpan, hstart, Option.bind_eq_bind, Option.bind_some, hcut]
  rfl

theorem textLink_crossReference (h : (crossReference value).IsProper) (rest : List Char) :
    textLink none ((crossReference value).markup ++ rest) = none := by
  rw [textLink, markup, tagged?_empty (by decide) h]
  rfl

theorem bareLink_markup (h : (crossReference value).IsProper) (rest : List Char) :
    bareLink none ((crossReference value).markup ++ rest) =
    some ((crossReference value).written, rest) := by
  rw [bareLink, markup, tagged?_empty (by decide) h]
  rfl

theorem keyword_markup (h : (langword value).IsProper) (rest : List Char) :
    keyword none ((langword value).markup ++ rest) = some ((langword value).written, rest) := by
  rw [keyword, markup, tagged?_empty (by decide) h]
  rfl

theorem parameterName_parameter (h : (parameter value).IsProper) (rest : List Char) :
    parameterName none ((parameter value).markup ++ rest) =
    some ((parameter value).written, rest) := by
  rw [parameterName, markup, tagged?_empty (by decide) h]
  rfl

theorem parameterName_typeParameter (h : (typeParameter value).IsProper) (rest : List Char) :
    parameterName none ((typeParameter value).markup ++ rest) =
    some ((typeParameter value).written, rest) := by
  have hother : tagged? "paramref" "name" ((typeParameter value).markup ++ rest) = none := rfl
  rw [parameterName, hother, Option.none_or, markup, tagged?_empty (by decide) h]
  rfl

-- ---------------------------------------------------------------------------
-- All passes
-- ---------------------------------------------------------------------------

theorem turns_of_read {element : Inline} (hpatterns : elementPatterns = before ++ pattern :: after)
    (h : element.IsProper) (hbefore : ∀ p ∈ before, ∀ rest, p none (element.markup ++ rest) = none)
    (hread : ∀ rest, pattern none (element.markup ++ rest) = some (out, rest))
    (hafter : ∀ p ∈ after, ReadsStarts p → Skips p out) :
    Turns (replaceEach elementPatterns) element.markup out := by
  have hall := elementPatterns_readsStarts
  rw [hpatterns, List.forall_mem_append, List.forall_mem_cons] at hall
  obtain ⟨hstarts, hstart, hstarts'⟩ := hall
  obtain ⟨behind, hmarkup, -⟩ := exists_behind hstart h
  rw [hpatterns]
  have hskips : ∀ p ∈ before, Skips p element.markup :=
    fun p hp => skips (hstarts p hp) h (hbefore p hp)
  have hturns : Turns (replaceAll pattern) element.markup out :=
    hstart.turns_write (by simp [hmarkup]) hread id
  exact turns_replaceEach hskips hturns fun p hp => hafter p hp (hstarts' p hp)

theorem not_mem_written {element : Inline} (h : element.IsProper)
    (hlink : ∀ value, element ≠ crossReference value) :
    '<' ∉ element.written := by
  cases element with
  | crossReference value => exact absurd rfl (hlink value)
  | langword | parameter | typeParameter =>
    exact not_mem_between (by decide) h.not_mem_open (by decide)
  | code => exact not_mem_between (by decide) h (by decide)
  | crossLink value text =>
    have hvalue : '<' ∉ withoutKind value := fun hmem =>
      h.1.not_mem_open (withoutKind_subset value hmem)
    exact List.not_mem_append (not_mem_between (by decide) h.2 (by decide))
      (not_mem_between (by decide) hvalue (by decide))
  | hyperlink =>
    exact List.not_mem_append (not_mem_between (by decide) h.2 (by decide))
      (not_mem_between (by decide) h.1.not_mem_open (by decide))

theorem turns_markup {element : Inline} (h : element.IsProper) :
    Turns (replaceEach elementPatterns) element.markup element.written := by
  have hplain : (∀ value, element ≠ crossReference value) →
      ∀ {after : List (Pattern (List Char))}, ∀ p ∈ after, ReadsStarts p →
      Skips p element.written :=
    fun hlink _ p _ hp => hp.skips_plain (not_mem_written h hlink)
  cases element with
  | crossLink =>
    have hpatterns : elementPatterns = [] ++ textLink ::
        [bareLink, keyword, webLink, parameterName, codeSpan] := rfl
    exact turns_of_read hpatterns h (by simp) (textLink_markup h) (hplain (by simp))
  | crossReference value =>
    have hpatterns : elementPatterns = [textLink] ++ bareLink ::
        [keyword, webLink, parameterName, codeSpan] := rfl
    have hvalue : '<' ∉ withoutKind value := fun hmem =>
      h.not_mem_open (withoutKind_subset value hmem)
    have hbehind : '<' ∉ between "xref:" (withoutKind value) ">" :=
      not_mem_between (by decide) hvalue (by decide)
    -- The link that is written looks like a tag, but like none that a later pass reads.
    have hother : ∀ p ∈ [textLink], ∀ rest,
        p none ((crossReference value).markup ++ rest) = none := by
      simpa using textLink_crossReference h
    refine turns_of_read hpatterns h hother (bareLink_markup h) fun p hp hstarts => ?_
    refine hstarts.skips_alike ?_ hbehind
    revert p
    simp only [List.mem_cons, List.not_mem_nil, or_false, forall_eq_or_imp, forall_eq]
    exact ⟨fun _ _ => rfl, fun _ _ => rfl, fun _ _ => rfl, fun _ _ => rfl⟩
  | langword =>
    have hpatterns : elementPatterns = [textLink, bareLink] ++ keyword ::
        [webLink, parameterName, codeSpan] := rfl
    refine turns_of_read hpatterns h ?_ (keyword_markup h) (hplain (by simp))
    simp only [List.mem_cons, List.not_mem_nil, or_false, forall_eq_or_imp, forall_eq]
    exact ⟨fun _ => rfl, fun _ => rfl⟩
  | hyperlink =>
    have hpatterns : elementPatterns = [textLink, bareLink, keyword] ++ webLink ::
        [parameterName, codeSpan] := rfl
    refine turns_of_read hpatterns h ?_ (webLink_markup h) (hplain (by simp))
    simp only [List.mem_cons, List.not_mem_nil, or_false, forall_eq_or_imp, forall_eq]
    exact ⟨fun _ => rfl, fun _ => rfl, fun _ => rfl⟩
  | parameter =>
    have hpatterns : elementPatterns = [textLink, bareLink, keyword, webLink] ++
        parameterName :: [codeSpan] := rfl
    refine turns_of_read hpatterns h ?_ (parameterName_parameter h) (hplain (by simp))
    simp only [List.mem_cons, List.not_mem_nil, or_false, forall_eq_or_imp, forall_eq]
    exact ⟨fun _ => rfl, fun _ => rfl, fun _ => rfl, fun _ => rfl⟩
  | typeParameter =>
    have hpatterns : elementPatterns = [textLink, bareLink, keyword, webLink] ++
        parameterName :: [codeSpan] := rfl
    refine turns_of_read hpatterns h ?_ (parameterName_typeParameter h) (hplain (by simp))
    simp only [List.mem_cons, List.not_mem_nil, or_false, forall_eq_or_imp, forall_eq]
    exact ⟨fun _ => rfl, fun _ => rfl, fun _ => rfl, fun _ => rfl⟩
  | code =>
    have hpatterns : elementPatterns = [textLink, bareLink, keyword, webLink, parameterName] ++
        codeSpan :: [] := rfl
    refine turns_of_read hpatterns h ?_ (codeSpan_markup h) (hplain (by simp))
    simp only [List.mem_cons, List.not_mem_nil, or_false, forall_eq_or_imp, forall_eq]
    exact ⟨fun _ => rfl, fun _ => rfl, fun _ => rfl, fun _ => rfl, fun _ => rfl⟩

end Inline

-- ---------------------------------------------------------------------------
-- Lines
-- ---------------------------------------------------------------------------

namespace IsLine
variable {line : Scanned Inline}

theorem collapse (h : IsLine line) : IsLine (line.collapse Inline.squeeze) := by
  intro part hpart
  obtain rfl | ⟨c, rfl, hc⟩ | ⟨element, rfl, helement⟩ := Scanned.mem_collapse hpart
  · exact (by decide : ' ' ≠ '<')
  · exact h _ hc
  · exact Inline.IsProper.squeeze (h _ helement)

theorem collapse_markup (h : IsLine line) :
    Text.collapse (line.write Inline.markup) = (line.collapse Inline.squeeze).write Inline.markup :=
  Scanned.collapse_write Inline.hasEnds_markup fun _ hmem => Inline.turns_squeeze_markup (h _ hmem)

theorem collapse_written (h : IsLine line) :
    Text.collapse (line.write Inline.written) =
    (line.collapse Inline.squeeze).write Inline.written :=
  Scanned.collapse_write Inline.hasEnds_written fun _ hmem =>
    Inline.turns_squeeze_written (h _ hmem)

theorem skips (h : IsLine line) (hp : ReadsStarts pattern)
    (hnone : ∀ (element : Inline) (rest : List Char),
      pattern none (element.markup ++ rest) = none) :
    Skips pattern (line.write Inline.markup) := by
  rw [Skips, Scanned.write, List.map_flatMap]
  refine Turns.flatMap fun part hpart => ?_
  cases part with
  | inl c => exact hp.skips_plain (by simpa using (h _ hpart).symm)
  | inr element => exact Inline.skips hp (h _ hpart) (hnone element)

theorem turns_markup (h : IsLine line) :
    Turns (replaceEach elementPatterns) (line.write Inline.markup) (line.write Inline.written) := by
  refine Turns.flatMap fun part hpart => ?_
  cases part with
  | inl c =>
    refine turns_replaceEach_of_skips fun p hp => ?_
    exact (elementPatterns_readsStarts p hp).skips_plain (by simpa using (h _ hpart).symm)
  | inr element => exact Inline.turns_markup (h _ hpart)

/-- A text is laid out on one line before its elements are turned or after. -/
theorem turns_collapse (h : IsLine line) : Turns (replaceEach elementPatterns)
    (Text.collapse (line.write Inline.markup)) (Text.collapse (line.write Inline.written)) := by
  rw [h.collapse_markup, h.collapse_written]
  exact h.collapse.turns_markup

theorem collapse_eq_nil_iff (h : IsLine line) :
    Text.collapse (line.write Inline.markup) = [] ↔
    Text.collapse (line.write Inline.written) = [] := by
  rw [h.collapse_markup, h.collapse_written, Scanned.write_eq_nil_iff fun x =>
    (Inline.hasEnds_markup x).ne_nil,
    Scanned.write_eq_nil_iff fun x => (Inline.hasEnds_written x).ne_nil]

end IsLine

end DocMerge.Markdown

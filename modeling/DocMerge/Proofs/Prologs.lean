import DocMerge.Proofs.LineEnds
import DocMerge.Proofs.Styling
import DocMerge.Xml.File

/-!
# What stands before a root

A declaration, blanks, comments and instructions are read up to the root, whatever the root is. A
file takes the same text for its prolog, though it looks at it before its line ends are read.
-/

namespace DocMerge.Xml

open Text (EndsAt cutAt? dropStart? hasStart cutAt?_eq_some_iff dropStart?_eq_some_iff
  dropStart?_append endsAt_nil
  endsAt_append)

variable {cs rest : List Char}

def AllSpaces (cs : List Char) : Prop := ∀ c ∈ cs, isSpace c = true

def StartsElement (cs : List Char) : Prop := ∃ c rest, cs = '<' :: c :: rest ∧ isNameStart c = true

-- ---------------------------------------------------------------------------
-- Settings
-- ---------------------------------------------------------------------------

def IsSetting (word value cs : List Char) : Prop :=
  ∃ before after quote, AllSpaces before ∧ AllSpaces after ∧ (quote = '"' ∨ quote = '\'') ∧
    EndsAt [quote] value ∧ cs = word ++ before ++ '=' :: after ++ quote :: value ++ [quote]

theorem skipSpaces_spaces (h : AllSpaces spaces) (hc : isSpace c = false) (cs : List Char) :
    skipSpaces (spaces ++ c :: cs) = c :: cs := by
  rw [skipSpaces_append h, skipSpaces_eq_self]
  rintro _ ⟨rfl⟩
  exact hc

theorem readSetting?_eq_some_iff :
    readSetting? word cs = some (value, rest) ↔
    ∃ setting, IsSetting word value setting ∧ cs = setting ++ rest := by
  simp only [readSetting?, Option.bind_eq_bind, Option.bind_eq_some_iff, dropStart?_eq_some_iff]
  constructor
  · rintro ⟨behind, rfl, quoted, hequals, hread⟩
    obtain ⟨before, hbefore, hsplit, -⟩ := skipSpaces_split behind
    obtain ⟨after, hafter, hsplit', -⟩ := skipSpaces_split quoted
    obtain ⟨quote, text, hquote, htext, hcut⟩ : ∃ quote text, (quote = '"' ∨ quote = '\'') ∧
        skipSpaces quoted = quote :: text ∧ cutAt? [quote] text = some (value, rest) := by
      split at hread
      · exact ⟨_, _, .inl rfl, by assumption, hread⟩
      · exact ⟨_, _, .inr rfl, by assumption, hread⟩
      · simp at hread
    obtain ⟨hends, rfl⟩ := cutAt?_eq_some_iff.mp hcut
    refine ⟨_, ⟨before, after, quote, hbefore, hafter, hquote, hends, rfl⟩, ?_⟩
    rw [hsplit, hequals, hsplit', htext]
    simp
  · rintro ⟨_, ⟨before, after, quote, hbefore, hafter, hquote, hends, rfl⟩, rfl⟩
    have hcut : cutAt? [quote] (value ++ [quote] ++ rest) = some (value, rest) :=
      cutAt?_eq_some_iff.mpr ⟨hends, rfl⟩
    have hspace : isSpace quote = false := by rcases hquote with rfl | rfl <;> decide
    have hskip := skipSpaces_spaces hafter hspace (value ++ [quote] ++ rest)
    refine ⟨before ++ '=' :: (after ++ quote :: (value ++ [quote] ++ rest)), by simp,
      after ++ quote :: (value ++ [quote] ++ rest), skipSpaces_spaces hbefore (by decide) _, ?_⟩
    rw [hskip]
    rcases hquote with rfl | rfl <;> exact hcut

def IsOptionalSetting (word : List Char) (value? : Option (List Char)) (cs : List Char) : Prop :=
  match value? with
  | none => cs = []
  | some value => ∃ spaces setting, AllSpaces spaces ∧ spaces ≠ [] ∧ IsSetting word value setting ∧
      cs = spaces ++ setting

theorem readOptionalSetting?_eq_some (h : readOptionalSetting? word cs = some (value?, rest)) :
    ∃ setting, IsOptionalSetting word value? setting ∧ cs = setting ++ rest := by
  rw [readOptionalSetting?] at h
  split at h
  · simp only [Option.ite_none_right_eq_some, Option.map_eq_some_iff, Prod.exists, Prod.mk.injEq,
      readSetting?_eq_some_iff] at h
    obtain ⟨hspace, value, _, ⟨setting, hsetting, hcs⟩, rfl, rfl⟩ := h
    obtain ⟨spaces, hspaces, hsplit, hhead⟩ := skipSpaces_split cs
    refine ⟨spaces ++ setting, ⟨spaces, setting, hspaces, ?_, hsetting, rfl⟩, ?_⟩
    · rintro rfl
      cases cs with
      | nil => simp at hspace
      | cons c cs =>
        rw [List.nil_append] at hsplit
        have := hhead c (by rw [← hsplit]; rfl)
        simp [this] at hspace
    · rw [hsplit, hcs, List.append_assoc]
  · obtain ⟨rfl, rfl⟩ : none = value? ∧ cs = rest := by simpa using h
    exact ⟨[], rfl, rfl⟩

theorem readOptionalSetting?_setting (hword : isSpace w = false)
    (h : IsOptionalSetting (w :: word) value? setting)
    (hrest : value? = none → hasStart (w :: word) (skipSpaces rest) = false) :
    readOptionalSetting? (w :: word) (setting ++ rest) = some (value?, rest) := by
  cases value? with
  | none =>
    obtain rfl : setting = [] := h
    rw [readOptionalSetting?, List.nil_append, hrest rfl]
    rfl
  | some value =>
    obtain ⟨spaces, setting, hspaces, hne, hsetting, rfl⟩ := h
    have hread : readSetting? (w :: word) (setting ++ rest) = some (value, rest) :=
      readSetting?_eq_some_iff.mpr ⟨setting, hsetting, rfl⟩
    obtain ⟨before, after, quote, -, -, -, -, hsetting'⟩ := hsetting
    have hskip : skipSpaces (spaces ++ setting ++ rest) = setting ++ rest := by
      rw [List.append_assoc, hsetting']
      simp only [List.cons_append]
      exact skipSpaces_spaces hspaces hword _
    have hstart : hasStart (w :: word) (setting ++ rest) = true := by
      simp only [hsetting', hasStart, List.append_assoc, dropStart?_append, Option.isSome_some]
    obtain ⟨c, spaces, rfl⟩ := List.exists_cons_of_ne_nil hne
    have hc : isSpace c = true := hspaces c List.mem_cons_self
    rw [readOptionalSetting?, hskip, hstart, hread]
    simp [hc]

-- ---------------------------------------------------------------------------
-- Declarations
-- ---------------------------------------------------------------------------

inductive IsDeclaration : Prologue → List Char → Prop
  | intro (first_spaces : AllSpaces first) (first_ne : first ≠ []) (last_spaces : AllSpaces last)
      (version_text : IsSetting "version".toList version versionText)
      (encoding_text : IsOptionalSetting "encoding".toList encoding encodingText)
      (standalone_text : IsOptionalSetting "standalone".toList standalone standaloneText)
      (version_valid : isVersion version = true)
      (encoding_valid : encoding.all isEncodingName = true)
      (standalone_valid : standalone.all (fun s => s == "yes".toList || s == "no".toList) = true) :
      IsDeclaration
        { encoding := encoding.map String.ofList, standalone := standalone == some "yes".toList }
        ("<?xml".toList ++
          (first ++ (versionText ++ (encodingText ++ (standaloneText ++ (last ++ ['?', '>']))))))

def startsDeclaration (cs : List Char) : Bool :=
  ((dropStart? "<?xml".toList cs).bind List.head?).any isSpace

theorem readDeclaration?_of_not (h : startsDeclaration cs = false) :
    readDeclaration? cs = some ({}, cs) := by
  unfold startsDeclaration at h
  unfold readDeclaration?
  cases hdrop : dropStart? "<?xml".toList cs with
  | none => rfl
  | some rest =>
    rw [hdrop] at h
    cases rest with
    | nil => rfl
    | cons c rest =>
      have hc : isSpace c = false := by simpa using h
      simp [hc]

theorem exists_spaces (h : (cs.head?.map isSpace).getD false = true) :
    ∃ spaces, AllSpaces spaces ∧ spaces ≠ [] ∧ cs = spaces ++ skipSpaces cs := by
  obtain ⟨spaces, hspaces, hsplit, hhead⟩ := skipSpaces_split cs
  refine ⟨spaces, hspaces, ?_, hsplit⟩
  rintro rfl
  cases cs with
  | nil => simp at h
  | cons c cs =>
    rw [List.nil_append] at hsplit
    have hc := hhead c (by rw [← hsplit]; rfl)
    simp [hc] at h

theorem readDeclaration?_eq_some (h : readDeclaration? cs = some (prologue, rest)) :
    (startsDeclaration cs = false ∧ prologue = {} ∧ rest = cs) ∨
      ∃ text, IsDeclaration prologue text ∧ cs = text ++ rest := by
  cases hstarts : startsDeclaration cs with
  | false =>
    rw [readDeclaration?_of_not hstarts] at h
    obtain ⟨rfl, rfl⟩ : {} = prologue ∧ cs = rest := by simpa using h
    exact .inl ⟨rfl, rfl, rfl⟩
  | true =>
    refine .inr ?_
    unfold readDeclaration? at h
    cases hdrop : dropStart? "<?xml".toList cs with
    | none =>
      rw [startsDeclaration, hdrop] at hstarts
      cases hstarts
    | some behind =>
      have hspace : (behind.head?.map isSpace).getD false = true := by
        rw [startsDeclaration, hdrop] at hstarts
        cases behind with
        | nil => cases hstarts
        | cons c behind => exact hstarts
      obtain ⟨first, hfirst, hne, hsplit⟩ := exists_spaces hspace
      rw [hdrop] at h
      simp only [-String.reduceToList, hspace, Bool.not_true, Bool.false_eq_true, if_false,
        Option.bind_eq_bind,
        Option.bind_eq_some_iff, Prod.exists, readSetting?_eq_some_iff, dropStart?_eq_some_iff,
        Option.ite_none_right_eq_some, Bool.and_eq_true, Option.some.injEq, Prod.mk.injEq] at h
      obtain ⟨version, _, ⟨versionText, hversion, hskip⟩, encoding, _, hencoding, standalone,
          behind', hstandalone,
        _, hend, ⟨⟨hversionValid, hencodingValid⟩, hstandaloneValid⟩, rfl, rfl⟩ := h
      obtain ⟨encodingText, hencodingText, rfl⟩ := readOptionalSetting?_eq_some hencoding
      obtain ⟨standaloneText, hstandaloneText, rfl⟩ := readOptionalSetting?_eq_some hstandalone
      obtain ⟨last, hlast, hlastSplit, -⟩ := skipSpaces_split behind'
      refine ⟨_, .intro hfirst hne hlast hversion hencodingText hstandaloneText
        hversionValid hencodingValid
        hstandaloneValid, ?_⟩
      rw [dropStart?_eq_some_iff.mp hdrop, hsplit, hskip, hlastSplit, hend]
      simp only [List.append_assoc]

theorem hasStart_skipSpaces (h : IsOptionalSetting (w :: word) value? setting)
    (hw : isSpace w = false)
    (hlast : AllSpaces last) (hne : other ≠ w) (hmark : other ≠ '?') (start rest : List Char) :
    hasStart (other :: start) (skipSpaces (setting ++ (last ++ '?' :: rest))) = false := by
  cases value? with
  | none =>
    obtain rfl : setting = [] := h
    rw [List.nil_append, skipSpaces_spaces hlast (by decide), hasStart, dropStart?, if_neg hmark]
    rfl
  | some value =>
    obtain ⟨spaces, _, hspaces, -, ⟨before, after, quote, -, -, -, -, rfl⟩, rfl⟩ := h
    simp only [List.append_assoc, List.cons_append]
    rw [skipSpaces_spaces hspaces hw, hasStart, dropStart?, if_neg hne]
    rfl

theorem skipSpaces_setting (h : AllSpaces spaces) (hsetting : IsSetting (w :: word) value setting)
    (hw : isSpace w = false) (rest : List Char) :
    skipSpaces (spaces ++ (setting ++ rest)) = setting ++ rest := by
  obtain ⟨before, after, quote, -, -, -, -, rfl⟩ := hsetting
  simp only [List.append_assoc, List.cons_append]
  exact skipSpaces_spaces h hw _

theorem IsDeclaration.read (h : IsDeclaration prologue text) (rest : List Char) :
    readDeclaration? (text ++ rest) = some (prologue, rest) := by
  cases h with
  | @intro first last version versionText encoding encodingText standalone standaloneText hfirst
    hne hlast hversion
      hencoding hstandalone hversionValid hencodingValid hstandaloneValid =>
    have hspace : ∀ more, ((first ++ more).head?.map isSpace).getD false = true := by
      obtain ⟨c, spaces, rfl⟩ := List.exists_cons_of_ne_nil hne
      exact fun _ => hfirst c List.mem_cons_self
    have hskip := skipSpaces_setting hfirst hversion (by decide)
    have hversionRead : ∀ more, readSetting? "version".toList (versionText ++ more) =
        some (version, more) :=
      fun more => readSetting?_eq_some_iff.mpr ⟨versionText, hversion, rfl⟩
    have hencodingRead : readOptionalSetting? "encoding".toList
        (encodingText ++ (standaloneText ++ (last ++ '?' :: '>' :: rest))) =
          some (encoding, standaloneText ++ (last ++ '?' :: '>' :: rest)) :=
      readOptionalSetting?_setting (by decide) hencoding fun _ =>
        hasStart_skipSpaces hstandalone (by decide) hlast (by decide) (by decide) _ _
    have hnothing : IsOptionalSetting ['e'] none [] := rfl
    have hstandaloneRead : readOptionalSetting? "standalone".toList
        (standaloneText ++ (last ++ '?' :: '>' :: rest)) =
        some (standalone, last ++ '?' :: '>' :: rest) :=
      readOptionalSetting?_setting (by decide) hstandalone fun _ =>
        hasStart_skipSpaces hnothing (by decide) hlast (by decide) (by decide) _ _
    have hend : dropStart? ['?', '>'] (skipSpaces (last ++ '?' :: '>' :: rest)) = some rest := by
      rw [skipSpaces_spaces hlast (by decide)]
      rfl
    simp only [-String.reduceToList, List.append_assoc, List.cons_append, List.nil_append]
    rw [readDeclaration?, dropStart?_append]
    simp only [-String.reduceToList, hspace, hskip, hversionRead, hencodingRead,
      hstandaloneRead, hend,
      hversionValid, hencodingValid, hstandaloneValid, Bool.not_true, Bool.false_eq_true, if_false,
      Option.bind_eq_bind, Option.bind_some, Bool.and_self, if_true]

-- ---------------------------------------------------------------------------
-- Comments, instructions and blanks
-- ---------------------------------------------------------------------------

inductive IsMiscellany : List Char → Prop
  | nil : IsMiscellany []
  | space (space : isSpace c = true) (behind : IsMiscellany text) : IsMiscellany (c :: text)
  | comment (comment : IsComment s) (behind : IsMiscellany text) :
      IsMiscellany ('<' :: '!' :: '-' :: '-' :: (s.toList ++ ['-', '-', '>'] ++ text))
  | instruction (instruction : IsInstruction target data) (gap : IsGap data between)
      (behind : IsMiscellany text) :
      IsMiscellany ('<' :: '?' ::
        (target.toList ++ between ++ (data.getD "").toList ++ ['?', '>'] ++ text))

theorem IsMiscellany.behindSpaces {spaces : List Char} (h : IsMiscellany text)
    (hspaces : AllSpaces spaces) :
    IsMiscellany (spaces ++ text) := by
  induction spaces with
  | nil => exact h
  | cons c spaces ih =>
    obtain ⟨hc, hrest⟩ := List.forall_mem_cons.mp hspaces
    exact .space hc (ih hrest)

theorem skipMiscellaneousWithin?_eq_some (h : skipMiscellaneousWithin? fuel cs = some rest) :
    ∃ text, IsMiscellany text ∧ cs = text ++ rest := by
  induction fuel generalizing cs with
  | zero => simp [skipMiscellaneousWithin?] at h
  | succ fuel ih =>
    obtain ⟨spaces, hspaces, hsplit, -⟩ := skipSpaces_split cs
    rw [skipMiscellaneousWithin?] at h
    split at h
    · rename_i behind hskip
      simp only [Option.bind_eq_bind, Option.bind_eq_some_iff, Prod.exists,
        readComment?_eq_some_iff] at h
      obtain ⟨s, more, ⟨hcomment, rfl⟩, hmore⟩ := h
      obtain ⟨text, htext, rfl⟩ := ih hmore
      refine ⟨_, (IsMiscellany.comment hcomment htext).behindSpaces hspaces, ?_⟩
      rw [hsplit, hskip]
      simp
    · rename_i behind hskip
      simp only [Option.bind_eq_bind, Option.bind_eq_some_iff, Prod.exists,
        readInstruction?_eq_some_iff] at h
      obtain ⟨target, data, more, ⟨hinstruction, gap, hgap, rfl⟩, hmore⟩ := h
      obtain ⟨text, htext, rfl⟩ := ih hmore
      refine ⟨_, (IsMiscellany.instruction hinstruction hgap htext).behindSpaces hspaces, ?_⟩
      rw [hsplit, hskip]
      simp
    · obtain rfl := Option.some.inj h
      exact ⟨spaces, by simpa using IsMiscellany.nil.behindSpaces hspaces, hsplit⟩

structure EndsMiscellany (rest : List Char) : Prop where
  spaces : skipSpaces rest = rest
  comment : ∀ more, rest ≠ '<' :: '!' :: '-' :: '-' :: more
  instruction : ∀ more, rest ≠ '<' :: '?' :: more

theorem StartsElement.endsMiscellany (h : StartsElement cs) : EndsMiscellany cs := by
  obtain ⟨c, rest, rfl, hc⟩ := h
  refine ⟨skipSpaces_eq_self (by rintro _ ⟨rfl⟩; decide), fun more heq => ?_, fun more heq => ?_⟩
  · exact absurd (List.cons.inj (List.cons.inj heq).2).1 (isNameStart_ne hc (by decide))
  · exact absurd (List.cons.inj (List.cons.inj heq).2).1 (isNameStart_ne hc (by decide))

/-- Blanks, comments and instructions are passed over up to what is none of them. -/
theorem IsMiscellany.skip (h : IsMiscellany text) (hrest : EndsMiscellany rest)
    (hfuel : (text ++ rest).length < fuel) :
    skipMiscellaneousWithin? fuel (text ++ rest) = some rest := by
  obtain ⟨fuel, rfl⟩ := Nat.exists_eq_add_one_of_ne_zero (Nat.ne_zero_of_lt hfuel)
  have hskip : ∀ more, Xml.skipSpaces ('<' :: more) = '<' :: more :=
    fun _ => skipSpaces_eq_self (by rintro _ ⟨rfl⟩; decide)
  induction h generalizing fuel with
  | nil =>
    rw [skipMiscellaneousWithin?, List.nil_append, hrest.spaces]
    split
    · exact absurd rfl (hrest.comment _)
    · exact absurd rfl (hrest.instruction _)
    · rfl
  | @space c text hc _ ih =>
    have hspace : Xml.skipSpaces (c :: text ++ rest) = Xml.skipSpaces (text ++ rest) :=
      skipSpaces_append (List.forall_mem_singleton.mpr hc) _
    have hrest := ih fuel (by simp only [List.cons_append, List.length_cons] at hfuel; omega)
    rw [skipMiscellaneousWithin?] at hrest ⊢
    rw [hspace]
    exact hrest
  | @comment s text hcomment _ ih =>
    have hread : readComment? (s.toList ++ ['-', '-', '>'] ++ (text ++ rest)) =
        some (s, text ++ rest) :=
      readComment?_eq_some_iff.mpr ⟨hcomment, rfl⟩
    simp only [List.cons_append, List.append_assoc, List.length_cons,
      List.length_append] at hfuel hread ⊢
    obtain ⟨fuel, rfl⟩ : ∃ n, fuel = n + 1 := ⟨fuel - 1, by omega⟩
    rw [skipMiscellaneousWithin?, hskip]
    simp only [hread, Option.bind_eq_bind, Option.bind_some]
    exact ih fuel (by rw [List.length_append]; omega)
  | @instruction target data between text hinstruction hgap _ ih =>
    have hread : readInstruction?
        (target.toList ++ between ++ (data.getD "").toList ++ ['?', '>'] ++ (text ++ rest)) =
          some (target, data, text ++ rest) :=
      readInstruction?_eq_some_iff.mpr ⟨hinstruction, between, hgap, rfl⟩
    simp only [List.cons_append, List.append_assoc, List.length_cons,
      List.length_append] at hfuel hread ⊢
    obtain ⟨fuel, rfl⟩ : ∃ n, fuel = n + 1 := ⟨fuel - 1, by omega⟩
    rw [skipMiscellaneousWithin?, hskip]
    simp only [hread, Option.bind_eq_bind, Option.bind_some]
    exact ih fuel (by rw [List.length_append]; omega)

-- ---------------------------------------------------------------------------
-- Heads
-- ---------------------------------------------------------------------------

inductive IsLeading : List Char → Prop
  | nil : IsLeading []
  | space (space : isSpace c = true) (behind : IsLeading text) : IsLeading (c :: text)
  | comment (comment : IsEnclosed ['<', '!', '-', '-'] ['-', '-', '>'] s)
    (behind : IsLeading text) :
      IsLeading (s ++ text)
  | instruction (instruction : IsEnclosed ['<', '?'] ['?', '>'] s) (behind : IsLeading text) :
      IsLeading (s ++ text)

theorem isEnclosed_comment (h : IsComment s) :
    IsEnclosed ['<', '!', '-', '-'] ['-', '-', '>']
      ('<' :: '!' :: '-' :: '-' :: (s.toList ++ ['-', '-', '>'])) :=
  ⟨s.toList, rfl, Text.endsAt_of_prefix h.ends ['>']⟩

theorem IsMiscellany.isLeading (h : IsMiscellany text) : IsLeading text := by
  induction h with
  | nil => exact .nil
  | space hc _ ih => exact .space hc ih
  | comment hcomment _ ih =>
    have h := IsLeading.comment (isEnclosed_comment hcomment) ih
    simpa using h
  | instruction hinstruction hgap _ ih =>
    have h := IsLeading.instruction (isEnclosed_instruction hinstruction hgap) ih
    simpa using h

theorem IsSetting.not_mem (h : IsSetting word value setting) (hword : '?' ∉ word)
    (hvalue : '?' ∉ value) :
    '?' ∉ setting := by
  obtain ⟨before, after, quote, hbefore, hafter, hquote, -, rfl⟩ := h
  have hspaces : ∀ {spaces : List Char}, AllSpaces spaces → '?' ∉ spaces :=
    fun hall hmem => absurd (hall _ hmem) (by decide)
  have hmark : '?' ≠ quote := by rcases hquote with rfl | rfl <;> decide
  simp [hword, hvalue, hspaces hbefore, hspaces hafter, hmark]

theorem IsOptionalSetting.not_mem (h : IsOptionalSetting word value? setting) (hword : '?' ∉ word)
    (hvalue : ∀ value, value? = some value → '?' ∉ value) : '?' ∉ setting := by
  cases value? with
  | none =>
    obtain rfl : setting = [] := h
    simp
  | some value =>
    obtain ⟨spaces, text, hspaces, -, htext, rfl⟩ := h
    rw [List.mem_append]
    exact not_or.mpr ⟨fun hmem => absurd (hspaces _ hmem) (by decide),
      htext.not_mem hword (hvalue value rfl)⟩

theorem IsDeclaration.isEnclosed (h : IsDeclaration prologue text) :
    IsEnclosed ['<', '?'] ['?', '>'] text := by
  cases h with
  | @intro first last version versionText encoding encodingText standalone standaloneText hfirst
    hne hlast hversion
      hencoding hstandalone hversionValid hencodingValid hstandaloneValid =>
    have hspaces : ∀ {spaces : List Char}, AllSpaces spaces → '?' ∉ spaces :=
      fun hall hmem => absurd (hall _ hmem) (by decide)
    have hversionText : '?' ∉ versionText := by
      refine hversion.not_mem (by simp) fun hmem => ?_
      unfold isVersion at hversionValid
      split at hversionValid
      · simp only [List.all_eq_true] at hversionValid
        simp only [List.mem_cons, Char.reduceEq, false_or] at hmem
        exact absurd (hversionValid _ hmem) (by decide)
      · cases hversionValid
    have hencodingText : '?' ∉ encodingText := by
      refine hencoding.not_mem (by simp) ?_
      rintro value rfl hmem
      simp only [Option.all_some, isEncodingName, Bool.and_eq_true,
        List.all_eq_true] at hencodingValid
      exact absurd (hencodingValid.2 _ hmem) (by decide)
    have hstandaloneText : '?' ∉ standaloneText := by
      refine hstandalone.not_mem (by simp) ?_
      rintro value rfl hmem
      simp only [Option.all_some, Bool.or_eq_true, beq_iff_eq] at hstandaloneValid
      rcases hstandaloneValid with rfl | rfl <;> simp at hmem
    refine ⟨['x', 'm', 'l'] ++
      (first ++ (versionText ++ (encodingText ++ (standaloneText ++ last)))) ++ [], ?_,
      endsAt_append (endsAt_nil _) ?_⟩
    · simp
    · rintro c hc rfl
      simp [hspaces hfirst, hversionText, hencodingText, hstandaloneText, hspaces hlast] at hc

theorem prologItem?_instruction (h : IsEnclosed ['<', '?'] ['?', '>'] s) (rest : List Char) :
    prologItem? (s ++ rest) = some rest := by
  obtain ⟨body, rfl, hends⟩ := h
  have hdrop : dropStart? ['<', '?'] (['<', '?'] ++ body ++ ['?', '>'] ++ rest) =
      some (body ++ ['?', '>'] ++ rest) := rfl
  have hcut : cutAt? ['?', '>'] (body ++ ['?', '>'] ++ rest) = some (body, rest) :=
    cutAt?_eq_some_iff.mpr ⟨hends, rfl⟩
  simp only [prologItem?, hdrop, hcut, Option.map_some]

theorem prologItem?_comment (h : IsEnclosed ['<', '!', '-', '-'] ['-', '-', '>'] s)
    (rest : List Char) :
    prologItem? (s ++ rest) = some rest := by
  obtain ⟨body, rfl, hends⟩ := h
  have hnot : dropStart? ['<', '?']
      (['<', '!', '-', '-'] ++ body ++ ['-', '-', '>'] ++ rest) = none := rfl
  have hdrop : dropStart? "<!--".toList (['<', '!', '-', '-'] ++ body ++ ['-', '-', '>'] ++ rest) =
      some (body ++ ['-', '-', '>'] ++ rest) := rfl
  have hcut : cutAt? "-->".toList (body ++ ['-', '-', '>'] ++ rest) = some (body, rest) :=
    cutAt?_eq_some_iff.mpr ⟨hends, rfl⟩
  simp only [prologItem?, hnot, hdrop, hcut, Option.map_some]

theorem prologItem?_type (h : IsEnclosed "<!DOCTYPE".toList ['>'] s) (rest : List Char) :
    prologItem? (s ++ rest) = some rest := by
  obtain ⟨body, rfl, hends⟩ := h
  have hinstruction :
      dropStart? ['<', '?'] ("<!DOCTYPE".toList ++ body ++ ['>'] ++ rest) = none := rfl
  have hcomment : dropStart? "<!--".toList ("<!DOCTYPE".toList ++ body ++ ['>'] ++ rest) = none :=
    rfl
  have hdrop : dropStart? "<!DOCTYPE".toList ("<!DOCTYPE".toList ++ body ++ ['>'] ++ rest) =
      some (body ++ ['>'] ++ rest) := by
    rw [List.append_assoc, List.append_assoc, dropStart?_append, List.append_assoc]
  have hcut : cutAt? ['>'] (body ++ ['>'] ++ rest) = some (body, rest) :=
    cutAt?_eq_some_iff.mpr ⟨hends, rfl⟩
  simp only [prologItem?, hinstruction, hcomment, hdrop, hcut,
    Option.bind_eq_bind, Option.bind_some]

theorem prologItem?_eq_some (h : prologItem? cs = some rest) : ∃ s, cs = s ++ rest ∧
    (IsEnclosed ['<', '?'] ['?', '>'] s ∨ IsEnclosed ['<', '!', '-', '-'] ['-', '-', '>'] s ∨
      IsEnclosed "<!DOCTYPE".toList ['>'] s) := by
  unfold prologItem? at h
  split at h
  · rename_i behind hdrop
    obtain ⟨⟨body, _⟩, hcut, rfl⟩ := Option.map_eq_some_iff.mp h
    obtain ⟨hends, rfl⟩ := cutAt?_eq_some_iff.mp hcut
    exact ⟨_, by simpa using dropStart?_eq_some_iff.mp hdrop, .inl ⟨body, rfl, hends⟩⟩
  · split at h
    · rename_i behind hdrop
      obtain ⟨⟨body, _⟩, hcut, rfl⟩ := Option.map_eq_some_iff.mp h
      obtain ⟨hends, rfl⟩ := cutAt?_eq_some_iff.mp hcut
      exact ⟨_, by simpa using dropStart?_eq_some_iff.mp hdrop, .inr (.inl ⟨body, rfl, hends⟩)⟩
    · simp only [Option.bind_eq_bind, Option.bind_eq_some_iff, Prod.exists, Option.some.injEq] at h
      obtain ⟨behind, hdrop, body, _, hcut, rfl⟩ := h
      obtain ⟨hends, rfl⟩ := cutAt?_eq_some_iff.mp hcut
      exact ⟨_, by simpa using dropStart?_eq_some_iff.mp hdrop, .inr (.inr ⟨body, rfl, hends⟩)⟩

theorem isBlank_of_isSpace (h : isSpace c = true) : Text.isBlank c = true := by
  simp only [isSpace, Bool.or_eq_true, beq_iff_eq] at h
  rcases h with ((rfl | rfl) | rfl) | rfl <;> decide

theorem trimStart_open (cs : List Char) : Text.trimStart ('<' :: cs) = '<' :: cs :=
  Text.trimStart_cons '<' cs

theorem behindProlog_item {s : List Char} (hs : s.head? = some '<')
    (hitem : ∀ more, prologItem? (s ++ more) = some more) (fuel : Nat) (more : List Char) :
    behindProlog (fuel + 1) (s ++ more) = behindProlog fuel more := by
  have hread := hitem more
  obtain ⟨cs, rfl⟩ := List.head?_eq_some_iff.mp hs
  rw [behindProlog, List.cons_append, trimStart_open, ← List.cons_append, hread]

theorem IsEnclosed.head? {start : List Char} (h : IsEnclosed (c :: start) stop s) :
    s.head? = some c := by
  obtain ⟨body, rfl, -⟩ := h
  rfl

/-- What a file takes for its prolog: blanks of all kinds, comments, instructions, and document
types that end where the first one of their marks closes. -/
inductive IsPassed : List Char → Prop
  | nil : IsPassed []
  | blank (blank : Text.isBlank c = true) (behind : IsPassed text) : IsPassed (c :: text)
  | comment (comment : IsEnclosed ['<', '!', '-', '-'] ['-', '-', '>'] s) (behind : IsPassed text) :
      IsPassed (s ++ text)
  | instruction (instruction : IsEnclosed ['<', '?'] ['?', '>'] s) (behind : IsPassed text) :
    IsPassed (s ++ text)
  | type (type : IsEnclosed "<!DOCTYPE".toList ['>'] s) (behind : IsPassed text) :
    IsPassed (s ++ text)

theorem IsLeading.isPassed (h : IsLeading text) : IsPassed text := by
  induction h with
  | nil => exact .nil
  | space hc _ ih => exact .blank (isBlank_of_isSpace hc) ih
  | comment hcomment _ ih => exact .comment hcomment ih
  | instruction hinstruction _ ih => exact .instruction hinstruction ih

theorem IsPassed.append (h : IsPassed first) (hsecond : IsPassed second) :
    IsPassed (first ++ second) := by
  induction h with
  | nil => exact hsecond
  | blank hc _ ih => exact .blank hc ih
  | comment hcomment _ ih =>
    rw [List.append_assoc]
    exact .comment hcomment ih
  | instruction hinstruction _ ih =>
    rw [List.append_assoc]
    exact .instruction hinstruction ih
  | type htype _ ih =>
    rw [List.append_assoc]
    exact .type htype ih

/-- Whether a file finds its root at the start of a text: a tag, and no mark of anything else. -/
def EndsProlog (rest : List Char) :
    Prop := ∃ more, rest = '<' :: more ∧ ∀ c ∈ more.head?, c ≠ '!' ∧ c ≠ '?'

theorem StartsElement.endsProlog (h : StartsElement cs) : EndsProlog cs := by
  obtain ⟨c, rest, rfl, hc⟩ := h
  refine ⟨c :: rest, rfl, ?_⟩
  rintro _ ⟨rfl⟩
  exact ⟨isNameStart_ne hc (by decide), isNameStart_ne hc (by decide)⟩

theorem EndsProlog.prologItem? (h : EndsProlog rest) : Xml.prologItem? rest = none := by
  obtain ⟨more, rfl, hmore⟩ := h
  have hdrop : ∀ d start, d = '!' ∨ d = '?' →
      dropStart? ('<' :: d :: start) ('<' :: more) = none := by
    intro d start hd
    rw [dropStart?, if_pos rfl]
    cases more with
    | nil => rfl
    | cons c more =>
      obtain ⟨hmark, hquestion⟩ := hmore c rfl
      have hne : d ≠ c := by
        rintro rfl
        exact hd.elim hmark hquestion
      rw [dropStart?, if_neg hne]
  have hinstruction := hdrop '?' [] (.inr rfl)
  have hcomment : dropStart? "<!--".toList ('<' :: more) = none := hdrop '!' _ (.inl rfl)
  have htype : dropStart? "<!DOCTYPE".toList ('<' :: more) = none := hdrop '!' _ (.inl rfl)
  simp only [Xml.prologItem?, hinstruction, hcomment, htype, Option.bind_eq_bind, Option.bind_none]

theorem IsPassed.behindProlog (h : IsPassed text) (hrest : EndsProlog rest)
    (hfuel : text.length < fuel) : Xml.behindProlog fuel (text ++ rest) = rest := by
  obtain ⟨fuel, rfl⟩ := Nat.exists_eq_add_one_of_ne_zero (Nat.ne_zero_of_lt hfuel)
  -- An item takes one step.
  have item : ∀ {s text : List Char} {fuel : Nat}, s.head? = some '<' →
      (∀ more, prologItem? (s ++ more) = some more) →
      (∀ fuel, text.length < fuel + 1 → Xml.behindProlog (fuel + 1) (text ++ rest) = rest) →
      (s ++ text).length < fuel + 1 → Xml.behindProlog (fuel + 1) (s ++ text ++ rest) = rest := by
    intro s text fuel hs hitem ih hfuel
    obtain ⟨cs, rfl⟩ := List.head?_eq_some_iff.mp hs
    rw [List.length_append, List.length_cons] at hfuel
    obtain ⟨fuel, rfl⟩ : ∃ n, fuel = n + 1 := ⟨fuel - 1, by omega⟩
    rw [List.append_assoc, behindProlog_item rfl hitem]
    exact ih fuel (by omega)
  induction h generalizing fuel with
  | nil =>
    obtain ⟨more, hsplit, -⟩ := id hrest
    have htrim : Text.trimStart rest = rest := by
      rw [hsplit]
      exact trimStart_open more
    rw [List.nil_append, Xml.behindProlog, htrim, hrest.prologItem?]
  | @blank c text hc _ ih =>
    have hskip : Text.trimStart (c :: text ++ rest) = Text.trimStart (text ++ rest) := by
      rw [List.cons_append, Text.trimStart_cons, if_pos hc]
    have hbehind := ih fuel (by simp only [List.length_cons] at hfuel; omega)
    rw [Xml.behindProlog] at hbehind ⊢
    rw [hskip]
    exact hbehind
  | comment hcomment _ ih => exact item hcomment.head? (prologItem?_comment hcomment) ih hfuel
  | instruction hinstruction _ ih =>
    exact item hinstruction.head? (prologItem?_instruction hinstruction) ih hfuel
  | type htype _ ih => exact item htype.head? (prologItem?_type htype) ih hfuel

theorem behindProlog_split (fuel : Nat) (cs : List Char) :
    ∃ text, IsPassed text ∧ cs = text ++ behindProlog fuel cs := by
  induction fuel generalizing cs with
  | zero => exact ⟨[], .nil, rfl⟩
  | succ fuel ih =>
    obtain ⟨blanks, hblanks, hsplit⟩ : ∃ blanks, IsPassed blanks ∧
        cs = blanks ++ Text.trimStart cs := by
      refine ⟨cs.takeWhile Text.isBlank, ?_, (List.takeWhile_append_dropWhile).symm⟩
      have hall : ∀ c ∈ cs.takeWhile Text.isBlank, Text.isBlank c = true :=
        fun c hc => List.mem_takeWhile_imp hc
      generalize cs.takeWhile Text.isBlank = blanks at hall
      induction blanks with
      | nil => exact .nil
      | cons c blanks ih =>
        obtain ⟨hc, hblanks⟩ := List.forall_mem_cons.mp hall
        exact .blank hc (ih hblanks)
    rw [behindProlog]
    split
    · rename_i rest hitem
      obtain ⟨s, hs, henclosed⟩ := prologItem?_eq_some hitem
      obtain ⟨text, htext, hrest⟩ := ih rest
      refine ⟨blanks ++ (s ++ text), hblanks.append ?_, ?_⟩
      · rcases henclosed with henclosed | henclosed | henclosed
        · exact .instruction henclosed htext
        · exact .comment henclosed htext
        · exact .type henclosed htext
      · rw [List.append_assoc, List.append_assoc, ← hrest, ← hs, ← hsplit]
    · exact ⟨blanks, hblanks, hsplit⟩

theorem isPassed_prologOf (cs : List Char) : IsPassed (prologOf cs) := by
  obtain ⟨text, htext, hsplit⟩ := behindProlog_split (cs.length + 1) cs
  rw [prologOf]
  generalize behindProlog (cs.length + 1) cs = rest at hsplit
  rwa [hsplit, List.length_append, Nat.add_sub_cancel, List.take_left]

/-- The prolog of a file is what stands before its root exactly if that is passed over as one. -/
theorem prologOf_eq_iff (hrest : EndsProlog rest) : prologOf (text ++ rest) = text ↔
    IsPassed text := by
  constructor
  · intro heq
    rw [← heq]
    exact isPassed_prologOf _
  · intro h
    rw [prologOf, h.behindProlog hrest (by rw [List.length_append]; omega), List.length_append,
      Nat.add_sub_cancel,
      List.take_left]

-- ---------------------------------------------------------------------------
-- Line ends before a root
-- ---------------------------------------------------------------------------

theorem IsEnclosed.of_plainLines (h : IsEnclosed start (m :: stop) (Files.plainLines text))
    (hstart : ∀ c ∈ start, c ≠ '\n' ∧ c ≠ '\r') (hstop : ∀ c ∈ m :: stop, c ≠ '\n' ∧ c ≠ '\r') :
    IsEnclosed start (m :: stop) text := by
  obtain ⟨body, hplain, hends⟩ := h
  have hdrop : dropStart? start (Files.plainLines text) = some (body ++ (m :: stop)) :=
    dropStart?_eq_some_iff.mpr (by rw [hplain, List.append_assoc])
  rw [Files.dropStart?_plainLines hstart, Option.map_eq_some_iff] at hdrop
  obtain ⟨behind, hbehind, hplainBehind⟩ := hdrop
  have hcut : cutAt? (m :: stop) (Files.plainLines behind) = some (body, []) := by
    rw [hplainBehind]
    exact hends
  simp only [Files.cutAt?_plainLines hstop, Option.map_eq_some_iff, Prod.exists,
    Prod.mk.injEq] at hcut
  obtain ⟨body', rest, hcut, -, hrest⟩ := hcut
  obtain rfl := Files.plainLines_eq_nil hrest
  obtain ⟨hends', rfl⟩ := cutAt?_eq_some_iff.mp hcut
  exact ⟨body', by simpa using dropStart?_eq_some_iff.mp hbehind, hends'⟩

theorem IsSealed.of_plainLines (h : IsSealed (Files.plainLines text)) : IsSealed text := by
  obtain ⟨marks, hmarks, henclosed⟩ := h
  refine ⟨marks, hmarks, ?_⟩
  simp only [seals, List.mem_cons, List.not_mem_nil, or_false] at hmarks
  rcases hmarks with rfl | rfl | rfl <;> exact henclosed.of_plainLines (by decide) (by decide)

theorem IsEnclosed.split_plainLines (m : Char) (stop : List Char)
    (h : IsEnclosed start (m :: stop ++ ['>']) s)
    (hstart : ∀ c ∈ start, c ≠ '\n' ∧ c ≠ '\r')
    (hstop : ∀ c ∈ m :: stop ++ ['>'], c ≠ '\n' ∧ c ≠ '\r')
    (hplain : Files.plainLines text = s ++ rest) :
    ∃ s' rest', text = s' ++ rest' ∧ Files.plainLines rest' = rest ∧
    IsEnclosed start (m :: stop ++ ['>']) s' := by
  obtain ⟨body, rfl, hends⟩ := h
  have hsplit : Files.plainLines text = (start ++ body ++ (m :: stop)) ++ '>' :: rest := by
    rw [hplain]
    simp
  obtain ⟨before, after, rfl, hbefore, hafter⟩ := Files.plainLines_eq_append (by decide) hsplit
  refine ⟨before ++ ['>'],
    after, by simp, hafter, IsEnclosed.of_plainLines ⟨body, ?_, hends⟩ hstart hstop⟩
  have hclose : ∀ c ∈ ['>'].head?, c ≠ '\n' := by simp
  rw [Files.plainLines_append before hclose, hbefore, Files.plainLines_eq_self (by decide)]
  simp

theorem IsLeading.prologOf (h : IsLeading text) (hrest : StartsElement rest) :
    Xml.prologOf (text ++ rest) = text :=
  (prologOf_eq_iff hrest.endsProlog).mpr h.isPassed

/-- What leads to a root still does when its line ends are written in other ways. -/
theorem IsLeading.of_plainLines (h : IsLeading (Files.plainLines text)) : IsLeading text := by
  generalize hplain : Files.plainLines text = plain at h
  induction h generalizing text with
  | nil =>
    obtain rfl := Files.plainLines_eq_nil hplain
    exact .nil
  | @space c plain hc _ ih =>
    have hreturn : isSpace '\r' = true := by decide
    have hnewline : isSpace '\n' = true := by decide
    cases text using Files.plainLines_induction with
    | nil => simp at hplain
    | pair rest =>
      rw [Files.plainLines_return_newline] at hplain
      exact .space hreturn (.space hnewline (ih (List.cons.inj hplain).2))
    | single rest hhead =>
      rw [Files.plainLines_return hhead] at hplain
      exact .space hreturn (ih (List.cons.inj hplain).2)
    | char d rest hd =>
      rw [Files.plainLines_cons hd] at hplain
      obtain ⟨rfl, hrest⟩ := List.cons.inj hplain
      exact .space hc (ih hrest)
  | comment hcomment _ ih =>
    obtain ⟨s, rest, rfl, hrest, henclosed⟩ :=
      hcomment.split_plainLines '-' ['-'] (by decide) (by decide) hplain
    exact .comment henclosed (ih hrest)
  | instruction hinstruction _ ih =>
    obtain ⟨s, rest, rfl, hrest, henclosed⟩ :=
      hinstruction.split_plainLines '?' [] (by decide) (by decide) hplain
    exact .instruction henclosed (ih hrest)

theorem IsLeading.isDrawn (h : IsLeading text) : ∃ pieces, IsDrawn pieces fun _ => text := by
  induction h with
  | nil => exact ⟨[], .nil⟩
  | @space c text hc _ ih =>
    obtain ⟨pieces, hpieces⟩ := ih
    refine ⟨_, (isDrawn_plain (List.forall_mem_singleton.mpr ⟨?_, ?_⟩)).append hpieces⟩
    · rintro rfl
      exact absurd hc (by decide)
    · rintro rfl
      exact absurd hc (by decide)
  | comment hcomment _ ih =>
    obtain ⟨pieces, hpieces⟩ := ih
    exact ⟨_, (isDrawn_sealed ⟨_, List.mem_cons_of_mem _ List.mem_cons_self, hcomment⟩).append
      hpieces⟩
  | instruction hinstruction _ ih =>
    obtain ⟨pieces, hpieces⟩ := ih
    exact ⟨_,
      (isDrawn_sealed ⟨_, List.mem_cons_of_mem _ (List.mem_cons_of_mem _ List.mem_cons_self),
      hinstruction⟩).append hpieces⟩

-- ---------------------------------------------------------------------------
-- Heads
-- ---------------------------------------------------------------------------

/-- What stands before a document type or a root and is read as the same declaration, whatever
follows. -/
structure IsHead (prologue : Prologue) (text : List Char) : Prop where
  leading : IsLeading text
  read : ∀ {rest}, EndsMiscellany rest → ∃ behind,
    readDeclaration? (text ++ rest) = some (prologue, behind) ∧
    skipMiscellaneous? behind = some rest

theorem startsDeclaration_eq_false (h : dropStart? "<?xml".toList cs = none) :
    startsDeclaration cs = false := by
  rw [startsDeclaration, h]
  rfl

theorem not_startsDeclaration_of_instruction (h : IsInstruction target data) (hgap : IsGap data gap)
    (rest : List Char) :
    startsDeclaration ('<' :: '?' ::
      (target.toList ++ gap ++ (data.getD "").toList ++ ['?', '>'] ++ rest)) =
      false := by
  obtain ⟨text, htext⟩ : ∃ text, text = target.toList ++ gap ++ (data.getD "").toList ++
      ['?', '>'] ++ rest :=
    ⟨_, rfl⟩
  have hread : readInstruction? text = some (target, data, rest) :=
    readInstruction?_eq_some_iff.mpr ⟨h, gap, hgap, htext⟩
  rw [← htext]
  cases hdrop : dropStart? "<?xml".toList ('<' :: '?' :: text) with
  | none => exact startsDeclaration_eq_false hdrop
  | some behind =>
    rw [startsDeclaration, hdrop]
    by_contra hspace
    have htarget : text = "xml".toList ++ behind := by
      have hsplit := dropStart?_eq_some_iff.mp hdrop
      exact (List.cons.inj (List.cons.inj hsplit).2).2
    have hname : readName? text = some ("xml", behind) := by
      refine readName?_eq_some_iff.mpr ⟨by decide, htarget, fun c hc => ?_⟩
      rw [Option.bind_some, hc, Option.any_some, Bool.not_eq_false] at hspace
      cases hchar : isNameChar c with
      | false => rfl
      | true => simp [not_isSpace_of_isNameChar hchar] at hspace
    have hlower : "xml".toLower = "xml" := String.toList_inj.mp (String.toList_map.trans rfl)
    rw [readInstruction?, hname] at hread
    simp [hlower] at hread

theorem IsMiscellany.not_startsDeclaration (h : IsMiscellany text) (hrest : EndsMiscellany rest) :
    startsDeclaration (text ++ rest) = false := by
  cases h with
  | nil =>
    refine startsDeclaration_eq_false (Option.eq_none_iff_forall_ne_some.mpr fun behind hdrop => ?_)
    exact hrest.instruction _ (dropStart?_eq_some_iff.mp hdrop)
  | @space c text hc _ =>
    have hne : '<' ≠ c := by
      rintro rfl
      exact absurd hc (by decide)
    refine startsDeclaration_eq_false ?_
    show dropStart? ('<' :: '?' :: "xml".toList) (c :: (text ++ rest)) = none
    rw [dropStart?, if_neg hne]
  | comment hcomment _ => exact startsDeclaration_eq_false rfl
  | @instruction target data between text hinstruction hgap _ =>
    have h := not_startsDeclaration_of_instruction hinstruction hgap (text ++ rest)
    rw [← List.append_assoc] at h
    exact h

theorem isHead_of_read (hdeclaration : readDeclaration? cs = some (prologue, behind))
    (hbehind : skipMiscellaneous? behind = some rest) :
    ∃ text, IsHead prologue text ∧ cs = text ++ rest := by
  obtain ⟨between, hbetween, rfl⟩ := skipMiscellaneousWithin?_eq_some hbehind
  have hskip : ∀ {rest}, EndsMiscellany rest → skipMiscellaneous? (between ++ rest) = some rest :=
    fun hrest => hbetween.skip hrest (Nat.lt_succ_self _)
  rcases readDeclaration?_eq_some hdeclaration with ⟨-, rfl, rfl⟩ | ⟨text, htext, rfl⟩
  · refine ⟨between, ⟨hbetween.isLeading, fun hrest => ?_⟩, rfl⟩
    exact ⟨_, readDeclaration?_of_not (hbetween.not_startsDeclaration hrest), hskip hrest⟩
  · refine ⟨text ++ between,
      ⟨.instruction htext.isEnclosed hbetween.isLeading, fun {rest} hrest => ?_⟩, by simp⟩
    exact ⟨_, by rw [List.append_assoc]; exact htext.read _, hskip hrest⟩

end DocMerge.Xml

import DocMerge.Proofs.Scanning
import DocMerge.Xml.Document
import DocMerge.Xml.Printer
import Mathlib.Data.List.TakeWhile

/-!
# What the readers of markup read

Names, comments and instructions stand in a text as they are read, so a reader accepts exactly the
texts that are written in this way, whatever follows them. Values and tags can be written in several
ways; of these it is shown what they have in common.
-/

namespace DocMerge.Text

-- ---------------------------------------------------------------------------
-- Texts up to a mark
-- ---------------------------------------------------------------------------

theorem dropStart?_append (start cs : List Char) : dropStart? start (start ++ cs) = some cs :=
  dropStart?_eq_some_iff.mpr rfl

theorem dropStart?_append_of_le (h : start.length ≤ cs.length) (more : List Char) :
    dropStart? start (cs ++ more) = (dropStart? start cs).map (· ++ more) := by
  induction start generalizing cs with
  | nil => simp [dropStart?]
  | cons p start ih =>
    cases cs with
    | nil => simp at h
    | cons c cs =>
      simp only [List.cons_append, dropStart?]
      split
      · exact ih (by simpa using h)
      · rfl

def EndsAt (mark body : List Char) : Prop := cutAt? mark (body ++ mark) = some (body, [])

theorem cutAt?_mark (mark more : List Char) : cutAt? mark (mark ++ more) = some ([], more) := by
  cases mark with
  | nil => cases more <;> rfl
  | cons m ms => rw [List.cons_append, cutAt?, ← List.cons_append, dropStart?_append]

theorem endsAt_nil (mark : List Char) : EndsAt mark [] := by
  have h := cutAt?_mark mark []
  rwa [List.append_nil] at h

theorem endsAt_cons :
    EndsAt mark (c :: cs) ↔ dropStart? mark (c :: (cs ++ mark)) = none ∧ EndsAt mark cs := by
  unfold EndsAt
  rw [List.cons_append, cutAt?]
  cases hdrop : dropStart? mark (c :: (cs ++ mark)) with
  | some rest => simp
  | none => simp

theorem endsAt_of_prefix (h : EndsAt mark cs) (more : List Char) : EndsAt (mark ++ more) cs := by
  induction cs with
  | nil => exact endsAt_nil _
  | cons c cs ih =>
    obtain ⟨hnone, hrest⟩ := endsAt_cons.mp h
    refine endsAt_cons.mpr ⟨?_, ih hrest⟩
    have hlength : mark.length ≤ (c :: (cs ++ mark)).length := by simp; omega
    by_contra hsome
    obtain ⟨rest, hrest⟩ := Option.ne_none_iff_exists'.mp hsome
    have hstart : dropStart? mark (c :: (cs ++ mark) ++ more) = some (more ++ rest) := by
      rw [dropStart?_eq_some_iff] at hrest ⊢
      simpa using hrest
    rw [dropStart?_append_of_le hlength, hnone] at hstart
    simp at hstart

theorem endsAt_append (h : EndsAt (m :: mark) cs) (hfirst : ∀ c ∈ first, c ≠ m) :
    EndsAt (m :: mark) (first ++ cs) := by
  induction first with
  | nil => exact h
  | cons c first ih =>
    rw [List.forall_mem_cons] at hfirst
    refine endsAt_cons.mpr ⟨?_, ih hfirst.2⟩
    rw [dropStart?, if_neg (Ne.symm hfirst.1)]

theorem endsAt_of_append (h : EndsAt mark (first ++ cs)) : EndsAt mark cs := by
  induction first with
  | nil => exact h
  | cons c first ih => exact ih (endsAt_cons.mp h).2

/-- A mark that has its first character only once ends each text that it does not stand in. -/
theorem endsAt_of_not_infix (hmark : m ∉ mark) (h : ¬(m :: mark) <:+: cs) :
    EndsAt (m :: mark) cs := by
  induction cs with
  | nil => exact endsAt_nil _
  | cons c cs ih =>
    refine endsAt_cons.mpr ⟨?_, ih fun hpart => h (hpart.trans (List.suffix_cons c cs).isInfix)⟩
    rw [Option.eq_none_iff_forall_ne_some]
    intro rest hstart
    rw [dropStart?_eq_some_iff, ← List.cons_append] at hstart
    rcases List.append_eq_append_iff.mp hstart with ⟨behind, hfirst, hrest⟩ | ⟨behind, hfirst, -⟩
    · cases behind with
      | nil => exact h ⟨[], [], by simp [hfirst]⟩
      | cons d behind =>
        obtain ⟨rfl, -⟩ := List.cons.inj hrest
        refine hmark ?_
        rw [(List.cons.inj hfirst).2]
        simp
    · exact h ⟨[], behind, by simp [hfirst]⟩

theorem cutAt?_append (h : cutAt? mark cs = some (body, rest)) (more : List Char) :
    cutAt? mark (body ++ mark ++ more) = some (body, more) := by
  induction cs generalizing body with
  | nil =>
    simp only [cutAt?, Option.ite_none_right_eq_some, Option.some.injEq, Prod.mk.injEq] at h
    obtain ⟨-, rfl, -⟩ := h
    exact cutAt?_mark mark more
  | cons c cs ih =>
    rw [cutAt?] at h
    split at h
    · simp only [Option.some.injEq, Prod.mk.injEq] at h
      obtain ⟨rfl, -⟩ := h
      exact cutAt?_mark mark more
    · rename_i hnone
      simp only [Option.map_eq_some_iff, Prod.mk.injEq, Prod.exists] at h
      obtain ⟨body, rest, hrest, rfl, rfl⟩ := h
      -- The mark does not stand at the first character, whatever comes behind the text.
      have hlength : mark.length ≤ (c :: body ++ mark).length := by
        rw [List.length_append]
        exact Nat.le_add_left _ _
      have hnot : ∀ more, dropStart? mark (c :: body ++ mark ++ more) = none := by
        have hearlier := dropStart?_append_of_le hlength rest
        rw [List.cons_append, List.cons_append, ← cutAt?_eq_some hrest, hnone, eq_comm,
          Option.map_eq_none_iff] at hearlier
        intro more
        rw [dropStart?_append_of_le hlength]
        exact Option.map_eq_none_iff.mpr hearlier
      have hcut := hnot more
      rw [List.cons_append, List.cons_append] at hcut ⊢
      rw [cutAt?, hcut, ih hrest]
      rfl

theorem cutAt?_eq_some_iff :
    cutAt? mark cs = some (body, rest) ↔ EndsAt mark body ∧ cs = body ++ mark ++ rest := by
  constructor
  · intro h
    exact ⟨by simpa [EndsAt] using cutAt?_append h [], cutAt?_eq_some h⟩
  · rintro ⟨h, rfl⟩
    exact cutAt?_append h rest

theorem EndsAt.unique (h : EndsAt mark body) (h' : EndsAt mark body')
    (heq : body ++ mark ++ rest = body' ++ mark ++ rest') : body = body' ∧ rest = rest' := by
  have hcut : cutAt? mark (body ++ mark ++ rest) = some (body, rest) :=
    cutAt?_eq_some_iff.mpr ⟨h, rfl⟩
  rw [cutAt?_eq_some_iff.mpr ⟨h', heq⟩] at hcut
  exact Prod.mk.inj (Option.some.inj hcut.symm)

end DocMerge.Text

namespace DocMerge.Xml

open Text (EndsAt cutAt?_eq_some_iff dropStart?_eq_some_iff dropStart?_append)

variable {cs rest : List Char}

def AllAllowed (cs : List Char) : Prop := ∀ c ∈ cs, isAllowed c = true

theorem readUntil?_eq_some_iff :
    readUntil? mark cs = some (s, rest) ↔
      EndsAt mark s.toList ∧ AllAllowed s.toList ∧ cs = s.toList ++ mark ++ rest := by
  simp only [readUntil?, Option.bind_eq_bind, Option.bind_eq_some_iff, Prod.exists,
    cutAt?_eq_some_iff,
    Option.ite_none_right_eq_some, Option.some.injEq, Prod.mk.injEq, List.all_eq_true]
  constructor
  · rintro ⟨body, _, ⟨hends, rfl⟩, hallowed, rfl, rfl⟩
    simpa using ⟨hends, hallowed⟩
  · rintro ⟨hends, hallowed, rfl⟩
    exact ⟨s.toList, rest, ⟨hends, rfl⟩, hallowed, String.ofList_toList, rfl⟩

-- ---------------------------------------------------------------------------
-- Names
-- ---------------------------------------------------------------------------

theorem isNameChar_of_isNameStart (h : isNameStart c = true) : isNameChar c = true := by
  simp [isNameChar, h]

def EndsName (rest : List Char) : Prop := ∀ c ∈ rest.head?, isNameChar c = false ∧ c ≠ ':'

theorem dropWhile_eq_self {p : Char → Bool} (h : ∀ c ∈ cs.head?, p c = false) :
    cs.dropWhile p = cs := by
  cases cs with
  | nil => rfl
  | cons c cs => simp [h c rfl]

theorem takeWhile_eq_nil {p : Char → Bool} (h : ∀ c ∈ cs.head?, p c = false) :
    cs.takeWhile p = [] := by
  cases cs with
  | nil => rfl
  | cons c cs => simp [h c rfl]

theorem head?_dropWhile {p : Char → Bool} (h : c ∈ (cs.dropWhile p).head?) : p c = false := by
  have hnot := List.head?_dropWhile_not p cs
  rw [Option.mem_def] at h
  rwa [h] at hnot

theorem readName?_eq_some_iff :
    readName? cs = some (s, rest) ↔
      isName s.toList = true ∧ cs = s.toList ++ rest ∧ ∀ c ∈ rest.head?, isNameChar c = false := by
  cases cs with
  | nil =>
    simp only [readName?, reduceCtorEq, false_iff, not_and]
    intro hname heq
    obtain ⟨hs, -⟩ := List.append_eq_nil_iff.mp heq.symm
    simp [hs, isName] at hname
  | cons c cs =>
    simp only [readName?, Option.ite_none_right_eq_some, Option.some.injEq, Prod.mk.injEq]
    constructor
    · rintro ⟨hstart, rfl, rfl⟩
      refine ⟨?_, by simp, fun d => head?_dropWhile⟩
      simp [isName, hstart, isNameChar_of_isNameStart hstart]
    · rintro ⟨hname, heq, hrest⟩
      cases hs : s.toList with
      | nil => simp [hs, isName] at hname
      | cons d ds =>
        rw [hs, List.cons_append, List.cons.injEq] at heq
        obtain ⟨rfl, rfl⟩ := heq
        simp only [hs, isName, List.head?_cons, Option.any_some, List.all_cons, Bool.and_eq_true,
          List.all_eq_true] at hname
        obtain ⟨hstart, -, hall⟩ := hname
        refine ⟨hstart, ?_, ?_⟩
        · rw [List.takeWhile_append_of_pos hall, takeWhile_eq_nil hrest, List.append_nil, ← hs,
            String.ofList_toList]
        · rw [List.dropWhile_append_of_pos hall, dropWhile_eq_self hrest]

structure QName.IsWritten (q : QName) : Prop where
  localName : isName q.localName.toList = true
  nsPrefix : q.nsPrefix = "" ∨ isName q.nsPrefix.toList = true

theorem isName_ne_empty (h : isName s.toList = true) : s ≠ "" := by
  rintro rfl
  exact absurd h (by decide)

theorem readQName?_eq_some_iff :
    readQName? cs = some (q, rest) ↔ q.IsWritten ∧ cs = q.print ++ rest ∧ EndsName rest := by
  have hcolon : isNameChar ':' = false := by decide
  simp only [readQName?, Option.bind_eq_bind, Option.bind_eq_some_iff, Prod.exists,
    readName?_eq_some_iff]
  constructor
  · rintro ⟨first, behind, ⟨hfirst, rfl, hbehind⟩, hread⟩
    split at hread
    · rename_i behind'
      simp only [Option.bind_eq_some_iff, Prod.exists, readName?_eq_some_iff,
        Option.ite_none_left_eq_some,
        Option.some.injEq, Prod.mk.injEq, beq_iff_eq] at hread
      obtain ⟨second, _, ⟨hsecond, rfl, hrest⟩, hnot, rfl, rfl⟩ := hread
      refine ⟨⟨hsecond, .inr hfirst⟩, ?_, fun c hc => ⟨hrest c hc, ?_⟩⟩
      · simp [QName.print, isName_ne_empty hfirst]
      · rintro rfl
        exact hnot hc
    · rename_i hnot
      simp only [Option.some.injEq, Prod.mk.injEq] at hread
      obtain ⟨rfl, rfl⟩ := hread
      refine ⟨⟨hfirst, .inl rfl⟩, by simp [QName.print], fun c hc => ⟨hbehind c hc, ?_⟩⟩
      rintro rfl
      obtain ⟨behind', hcons⟩ := List.head?_eq_some_iff.mp hc
      exact hnot behind' hcons
  · rintro ⟨hwritten, rfl, hends⟩
    obtain ⟨nsPrefix, localName⟩ := q
    rcases hwritten.nsPrefix with rfl | hns
    · refine ⟨localName, rest,
        ⟨hwritten.localName, by simp [QName.print], fun c hc => (hends c hc).1⟩, ?_⟩
      split
      · exact absurd rfl (hends ':' rfl).2
      · rfl
    · refine ⟨nsPrefix, ':' :: localName.toList ++ rest, ⟨hns, ?_, by simp [hcolon]⟩, ?_⟩
      · simp [QName.print, isName_ne_empty hns]
      · simp only [List.cons_append, Option.bind_eq_some_iff, Prod.exists, readName?_eq_some_iff]
        refine ⟨localName, rest, ⟨hwritten.localName, rfl, fun c hc => (hends c hc).1⟩, ?_⟩
        rw [if_neg]
        intro heq
        exact (hends ':' (by simpa using heq)).2 rfl

-- ---------------------------------------------------------------------------
-- Comments, instructions and sections
-- ---------------------------------------------------------------------------

structure IsComment (s : String) : Prop where
  ends : EndsAt ['-', '-'] s.toList
  allowed : AllAllowed s.toList

theorem readComment?_eq_some_iff :
    readComment? cs = some (s, rest) ↔ IsComment s ∧ cs = s.toList ++ ['-', '-', '>'] ++ rest := by
  simp only [readComment?, Option.bind_eq_bind, Option.bind_eq_some_iff, Prod.exists,
    readUntil?_eq_some_iff, dropStart?_eq_some_iff, Option.some.injEq, Prod.mk.injEq]
  constructor
  · rintro ⟨_, _, ⟨hends, hallowed, rfl⟩, _, rfl, rfl, rfl⟩
    exact ⟨⟨hends, hallowed⟩, by simp⟩
  · rintro ⟨hcomment, rfl⟩
    exact ⟨s, '>' :: rest, ⟨hcomment.ends, hcomment.allowed, by simp⟩, rest, rfl, rfl, rfl⟩

structure IsData (data : String) : Prop where
  ends : EndsAt ['?', '>'] data.toList
  allowed : AllAllowed data.toList
  start : ∀ c ∈ data.toList.head?, isSpace c = false

structure IsInstruction (target : String) (data : Option String) : Prop where
  name : isName target.toList = true
  notDeclaration : target.toLower ≠ "xml"
  data : ∀ d, data = some d → IsData d

def IsGap (data : Option String) (gap : List Char) : Prop :=
  (∀ c ∈ gap, isSpace c = true) ∧ (gap = [] ↔ data = none)

theorem not_isSpace_of_isNameChar (h : isNameChar c = true) : isSpace c = false := by
  rw [← Bool.not_eq_true]
  intro hspace
  simp only [isSpace, Bool.or_eq_true, beq_iff_eq] at hspace
  rcases hspace with ((rfl | rfl) | rfl) | rfl <;> exact absurd h (by decide)

theorem skipSpaces_append (hspaces : ∀ c ∈ spaces, isSpace c = true) (cs : List Char) :
    skipSpaces (spaces ++ cs) = skipSpaces cs :=
  List.dropWhile_append_of_pos hspaces

theorem skipSpaces_eq_self (h : ∀ c ∈ cs.head?, isSpace c = false) : skipSpaces cs = cs :=
  dropWhile_eq_self h

theorem skipSpaces_split (cs : List Char) :
    ∃ spaces, (∀ c ∈ spaces, isSpace c = true) ∧ cs = spaces ++ skipSpaces cs ∧
      ∀ c ∈ (skipSpaces cs).head?, isSpace c = false :=
  ⟨cs.takeWhile isSpace, fun _ => List.mem_takeWhile_imp, List.takeWhile_append_dropWhile.symm,
    fun _ => head?_dropWhile⟩

theorem readInstruction?_sound (h : readInstruction? cs = some (target, data, rest)) :
    IsInstruction target data ∧ ∃ gap, IsGap data gap ∧
      cs = target.toList ++ gap ++ (data.getD "").toList ++ ['?', '>'] ++ rest := by
  simp only [readInstruction?, Option.bind_eq_bind, Option.bind_eq_some_iff, Prod.exists,
    readName?_eq_some_iff] at h
  obtain ⟨target', behind, ⟨hname, rfl, hbehind⟩, hread⟩ := h
  simp only [Option.ite_none_left_eq_some, beq_iff_eq] at hread
  obtain ⟨hxml, hread⟩ := hread
  split at hread
  · rename_i hend
    simp only [Option.some.injEq, Prod.mk.injEq] at hread
    obtain ⟨rfl, rfl, rfl⟩ := hread
    refine ⟨⟨hname, hxml, by simp⟩, [], ⟨by simp, by simp⟩, ?_⟩
    simp [dropStart?_eq_some_iff.mp hend]
  · simp only [Option.ite_none_right_eq_some, Option.bind_eq_some_iff, Prod.exists,
      readUntil?_eq_some_iff, Option.some.injEq, Prod.mk.injEq] at hread
    obtain ⟨hspace, text, _, ⟨hends, hallowed, hskip⟩, rfl, rfl, rfl⟩ := hread
    obtain ⟨spaces, hspaces, hsplit, hstart⟩ := skipSpaces_split behind
    refine ⟨⟨hname, hxml, ?_⟩, spaces, ⟨hspaces, ?_⟩, ?_⟩
    · rintro _ ⟨rfl⟩
      refine ⟨hends, hallowed, fun c hc => hstart c ?_⟩
      simp only [hskip, Option.mem_def] at hc ⊢
      simp [hc]
    · simp only [reduceCtorEq, iff_false]
      rintro rfl
      cases behind with
      | nil => simp at hspace
      | cons c behind =>
        rw [List.nil_append] at hsplit
        have := hstart c (by rw [← hsplit]; rfl)
        simp [this] at hspace
    · rw [hsplit, hskip]
      simp

/-- The target of an instruction goes as far as its name. -/
theorem IsGap.endsName (h : IsGap data gap) (rest : List Char) :
    ∀ c ∈ (gap ++ (data.getD "").toList ++ ['?', '>'] ++ rest).head?, isNameChar c = false := by
  obtain ⟨hspaces, hgap⟩ := h
  intro c hc
  rw [← Bool.not_eq_true]
  intro hchar
  cases gap with
  | nil =>
    obtain rfl := hgap.mp rfl
    obtain rfl : '?' = c := by simpa using hc
    exact absurd hchar (by decide)
  | cons d gap =>
    obtain rfl : d = c := by simpa using hc
    simp [not_isSpace_of_isNameChar hchar] at hspaces

/-- The data begin behind the blanks, also where they are empty. -/
theorem IsData.skipSpaces_gap {data : String} (h : IsData data)
    (hspaces : ∀ c ∈ gap, isSpace c = true)
    (rest : List Char) :
    skipSpaces (gap ++ data.toList ++ ['?', '>'] ++ rest) = data.toList ++ ['?', '>'] ++ rest := by
  rw [List.append_assoc, List.append_assoc, skipSpaces_append hspaces, skipSpaces_eq_self,
    List.append_assoc]
  intro c hc
  cases hdata : data.toList with
  | nil =>
    obtain rfl : '?' = c := by simpa [hdata] using hc
    decide
  | cons d behind => exact h.start c (by simpa [hdata] using hc)

theorem readInstruction?_written (h : IsInstruction target data) (hgap : IsGap data gap)
    (rest : List Char) :
    readInstruction? (target.toList ++ gap ++ (data.getD "").toList ++ ['?', '>'] ++ rest) =
      some (target, data, rest) := by
  have hname : readName? (target.toList ++ gap ++ (data.getD "").toList ++ ['?', '>'] ++ rest) =
      some (target, gap ++ (data.getD "").toList ++ ['?', '>'] ++ rest) :=
    readName?_eq_some_iff.mpr ⟨h.name, by simp, hgap.endsName rest⟩
  have hxml : ¬ (target.toLower == "xml") = true := by simpa using h.notDeclaration
  simp only [readInstruction?, Option.bind_eq_bind, hname, Option.bind_some]
  rw [if_neg hxml]
  obtain ⟨hspaces, hnil⟩ := hgap
  cases data with
  | none =>
    obtain rfl := hnil.mpr rfl
    have hend : Text.dropStart? ['?', '>'] ([] ++ "".toList ++ ['?', '>'] ++ rest) = some rest :=
      dropStart?_append ['?', '>'] rest
    simp only [Option.getD_none, hend]
  | some text =>
    have hdata := h.data text rfl
    obtain ⟨d, gap, rfl⟩ := List.exists_cons_of_ne_nil fun hempty => by cases hnil.mp hempty
    have hd : isSpace d = true := hspaces d List.mem_cons_self
    have hnot : Text.dropStart? ['?', '>'] (d :: gap ++ text.toList ++ ['?', '>'] ++ rest) = none :=
      if_neg fun hmark => by subst hmark; exact absurd hd (by decide)
    have hread : readUntil? ['?', '>'] (text.toList ++ ['?', '>'] ++ rest) = some (text, rest) :=
      readUntil?_eq_some_iff.mpr ⟨hdata.ends, hdata.allowed, rfl⟩
    have hskip := hdata.skipSpaces_gap hspaces rest
    simp only [Option.getD_some, hnot]
    rw [hskip, hread]
    simp [hd]

theorem readInstruction?_eq_some_iff :
    readInstruction? cs = some (target, data, rest) ↔
      IsInstruction target data ∧ ∃ gap, IsGap data gap ∧
        cs = target.toList ++ gap ++ (data.getD "").toList ++ ['?', '>'] ++ rest := by
  refine ⟨readInstruction?_sound, ?_⟩
  rintro ⟨h, gap, hgap, rfl⟩
  exact readInstruction?_written h hgap rest

-- ---------------------------------------------------------------------------
-- Values
-- ---------------------------------------------------------------------------

def Value.IsPlain (v : Value) : Prop := ∀ piece ∈ v, ∃ c, piece = .char c ∧ isAllowed c = true

structure IsForeign (isOpen : Bool) (name : String) : Prop where
  elsewhere : isOpen = true
  named : isName name.toList = true
  other : standing.lookup name = none

def Reference.IsHeld (isOpen : Bool) : Reference → Prop
  | .character c => isAllowed c = true
  | .entity name => IsForeign isOpen name

/-- A piece that a value can have where nothing is declared. A reference stands for itself there. -/
def ValuePiece.IsHeld (isOpen : Bool) : ValuePiece → Prop
  | .char c => isAllowed c = true
  | .reference name meaning => IsForeign isOpen name ∧ meaning = '&' :: name.toList ++ [';']

/-- Where all entities are declared and none is, values are characters alone. -/
theorem Value.forall_isHeld_false {v : Value} : (∀ piece ∈ v, piece.IsHeld false) ↔ v.IsPlain := by
  refine forall₂_congr fun piece _ => ?_
  cases piece with
  | char c => simp [ValuePiece.IsHeld]
  | reference name meaning =>
    simp only [ValuePiece.IsHeld, reduceCtorEq, false_and, exists_false, iff_false, not_and]
    exact fun h => absurd h.elsewhere (by decide)

def IsBehind (rest cs : List Char) : Prop :=
  ∃ before mark, cs = before ++ mark :: rest ∧ mark ∈ [';', '>']

theorem IsBehind.suffix (h : IsBehind rest cs) : rest <:+ cs := by
  obtain ⟨before, mark, rfl, -⟩ := h
  exact ⟨before ++ [mark], by simp⟩

theorem IsBehind.trans (h : IsBehind rest cs) (hsuffix : cs <:+ all) : IsBehind rest all := by
  obtain ⟨before, mark, rfl, hmark⟩ := h
  obtain ⟨start, rfl⟩ := hsuffix
  exact ⟨start ++ before, mark, by simp, hmark⟩

theorem readReference?_sound (h : readReference? ⟨[], isOpen⟩ cs = some (reference, rest)) :
    reference.IsHeld isOpen ∧ IsBehind rest cs := by
  unfold readReference? at h
  split at h
  · rename_i number
    simp only [Option.bind_eq_bind, Option.bind_eq_some_iff, Prod.exists] at h
    obtain ⟨digits, rest', hcut, hread⟩ := h
    obtain ⟨n, c, hc, rfl, rfl⟩ :
        ∃ n c, numbered? n = some c ∧ .character c = reference ∧ rest' = rest := by
      split at hread
      · split at hread
        · simp at hread
        · simp only [Option.bind_eq_some_iff, Option.some.injEq, Prod.mk.injEq] at hread
          obtain ⟨n, -, c, hc, hreference⟩ := hread
          exact ⟨n, c, hc, hreference⟩
      · simp only [Option.bind_eq_some_iff, Option.some.injEq, Prod.mk.injEq] at hread
        obtain ⟨n, -, c, hc, hreference⟩ := hread
        exact ⟨n, c, hc, hreference⟩
    refine ⟨?_, ⟨'#' :: digits, ';', by simp [Text.cutAt?_eq_some hcut], by simp⟩⟩
    simp only [numbered?, Option.dite_none_right_eq_some, Option.ite_none_right_eq_some] at hc
    obtain ⟨-, hallowed, ⟨rfl⟩⟩ := hc
    exact hallowed
  · simp only [Option.bind_eq_bind, Option.bind_eq_some_iff, Prod.exists, readName?_eq_some_iff,
      dropStart?_eq_some_iff] at h
    obtain ⟨name, _, ⟨hname, rfl, -⟩, rest', rfl, hread⟩ := h
    have hbehind : IsBehind rest' (name.toList ++ ([';'] ++ rest')) :=
      ⟨name.toList, ';', by simp, by simp⟩
    split at hread
    · rename_i c hstanding
      simp only [Option.some.injEq, Prod.mk.injEq] at hread
      obtain ⟨rfl, rfl⟩ := hread
      refine ⟨?_, hbehind⟩
      obtain ⟨before, after, hsplit, -⟩ := List.lookup_eq_some_iff.mp hstanding
      have hall : ∀ entry ∈ standing, isAllowed entry.2 = true := by decide
      exact hall (name, c) (by simp [hsplit])
    · rename_i hother
      simp only [Entities.accepts, Entities.find?, List.lookup_nil,
        Option.isSome_none, Bool.or_false,
        Option.ite_none_right_eq_some, Option.some.injEq, Prod.mk.injEq] at hread
      obtain ⟨hopen, rfl, rfl⟩ := hread
      exact ⟨⟨hopen, hname, hother⟩, hbehind⟩

theorem IsForeign.read (h : IsForeign isOpen name) (rest : List Char) :
    readReference? ⟨[], isOpen⟩ (name.toList ++ ';' :: rest) = some (.entity name, rest) := by
  have hread : readName? (name.toList ++ ';' :: rest) = some (name, ';' :: rest) :=
    readName?_eq_some_iff.mpr ⟨h.named, rfl, by rintro _ ⟨rfl⟩; decide⟩
  have hdrop : Text.dropStart? [';'] (';' :: rest) = some rest := dropStart?_append [';'] rest
  unfold readReference?
  split
  · rename_i heq
    obtain ⟨c, cs, hcs, hc⟩ : ∃ c cs, name.toList = c :: cs ∧ isNameStart c = true := by
      have hname := h.named
      cases hcs : name.toList with
      | nil => simp [hcs, isName] at hname
      | cons c cs => exact ⟨c, cs, rfl, by simp_all [isName]⟩
    rw [hcs] at heq
    obtain ⟨rfl, -⟩ := List.cons.inj heq
    exact absurd hc (by decide)
  · simp only [hread, Option.bind_eq_bind, Option.bind_some, hdrop, h.other,
      Entities.accepts, h.elsewhere,
      Bool.true_or, if_true]

theorem readValue?_sound (h : readValue? ⟨[], isOpen⟩ quote? fuel cs = some (v, rest)) :
    (∀ piece ∈ v, piece.IsHeld isOpen) ∧ rest <:+ cs := by
  induction fuel generalizing cs v with
  | zero => simp [readValue?] at h
  | succ fuel ih =>
    unfold readValue? at h
    split at h
    · split at h
      · obtain ⟨rfl, rfl⟩ : [] = v ∧ [] = rest := by simpa using h
        exact ⟨by simp, List.suffix_refl _⟩
      · simp at h
    · simp only [Option.bind_eq_bind, Option.bind_eq_some_iff, Prod.exists] at h
      obtain ⟨reference, behind, hreference, hread⟩ := h
      obtain ⟨hheld, hbehind⟩ := readReference?_sound hreference
      obtain ⟨piece, more, hpiece, hmore, rfl⟩ : ∃ piece more, piece.IsHeld isOpen ∧
          readValue? ⟨[], isOpen⟩ quote? fuel behind = some (more, rest) ∧ v = piece :: more := by
        cases reference with
        | character c =>
          simp only [Option.bind_some, Option.bind_eq_some_iff, Prod.exists, Option.some.injEq,
            Prod.mk.injEq] at hread
          obtain ⟨more, _, hmore, rfl, rfl⟩ := hread
          exact ⟨.char c, more, hheld, hmore, rfl⟩
        | entity name =>
          simp only [Entities.find?, List.lookup_nil, Option.bind_some,
            Option.bind_eq_some_iff, Prod.exists,
            Option.some.injEq, Prod.mk.injEq] at hread
          obtain ⟨more, _, hmore, rfl, rfl⟩ := hread
          exact ⟨.reference name _, more, ⟨hheld, rfl⟩, hmore, rfl⟩
      obtain ⟨hrest, hsuffix⟩ := ih hmore
      exact ⟨List.forall_mem_cons.mpr ⟨hpiece, hrest⟩,
        hsuffix.trans (hbehind.suffix.trans (List.suffix_cons _ _))⟩
    · rename_i c behind _
      split at h
      · obtain ⟨rfl, rfl⟩ : [] = v ∧ behind = rest := by simpa using h
        exact ⟨by simp, List.suffix_cons _ _⟩
      · simp only [Option.ite_none_left_eq_some, Option.bind_eq_bind, Option.bind_eq_some_iff,
          Prod.exists, Option.some.injEq, Prod.mk.injEq] at h
        obtain ⟨hc, more, _, hmore, rfl, rfl⟩ := h
        obtain ⟨hrest, hsuffix⟩ := ih hmore
        refine ⟨List.forall_mem_cons.mpr ⟨?_, hrest⟩, hsuffix.trans (List.suffix_cons _ _)⟩
        show isAllowed _ = true
        split
        · decide
        · simp only [Bool.or_eq_true, not_or, Bool.not_eq_true', Bool.not_eq_false] at hc
          exact hc.2

theorem readValue?_reference (cs : List Char)
    (h : readReference? ⟨[], isOpen⟩ cs = some (.character c, rest)) :
    readValue? ⟨[], isOpen⟩ quote? (fuel + 1) ('&' :: cs) =
      (readValue? ⟨[], isOpen⟩ quote? fuel rest).map fun (v, rest) => (.char c :: v, rest) := by
  rw [readValue?]
  simp only [h, Option.bind_eq_bind, Option.bind_some]
  cases readValue? ⟨[], isOpen⟩ quote? fuel rest <;> rfl

theorem readValue?_escapeValue (hallowed : isAllowed c = true) (fuel : Nat) (rest : List Char) :
    readValue? ⟨[], isOpen⟩ (some '"') (fuel + 1) (escapeValue c ++ rest) =
      (readValue? ⟨[], isOpen⟩ (some '"') fuel rest).map fun (v, rest) => (.char c :: v, rest) := by
  unfold escapeValue
  split
  · exact readValue?_reference ("quot;".toList ++ rest) rfl
  · exact readValue?_reference ("#10;".toList ++ rest) rfl
  · exact readValue?_reference ("#9;".toList ++ rest) rfl
  · unfold escapeText
    split
    · exact readValue?_reference ("lt;".toList ++ rest) rfl
    · exact readValue?_reference ("gt;".toList ++ rest) rfl
    · exact readValue?_reference ("amp;".toList ++ rest) rfl
    · exact readValue?_reference ("#13;".toList ++ rest) rfl
    · rename_i _ hquote hnewline htab _ hopen hclose hand hreturn
      have hspace : (if (isSpace c && (some '"').isSome) = true then ' ' else c) = c := by
        simp_all [isSpace]
      have hother : ('"' == c) = false ∧ (c == '<' || !isAllowed c) = false :=
        ⟨beq_eq_false_iff_ne.mpr (Ne.symm hquote), by simpa [hallowed] using hopen⟩
      rw [List.singleton_append, readValue?]
      · simp only [Option.some_beq_some, hother.1, hother.2, Option.bind_eq_bind]
        rw [hspace]
        cases readValue? ⟨[], isOpen⟩ (some '"') fuel rest <;> rfl
      · exact hand

theorem escapeValue_ne_nil (c : Char) : escapeValue c ≠ [] := by
  unfold escapeValue escapeText
  split <;> (try split) <;> simp

theorem IsForeign.readValue? (h : IsForeign isOpen name) (fuel : Nat) (rest : List Char) :
    Xml.readValue? ⟨[], isOpen⟩ quote? (fuel + 1) (printReference name ++ rest) =
      (Xml.readValue? ⟨[], isOpen⟩ quote? fuel rest).map fun (v, rest) =>
        (.reference name ('&' :: name.toList ++ [';']) :: v, rest) := by
  have hprint : printReference name ++ rest = '&' :: (name.toList ++ ';' :: rest) := by
    simp [printReference]
  rw [hprint, Xml.readValue?]
  simp only [h.read, Entities.find?, List.lookup_nil, Option.bind_eq_bind, Option.bind_some]
  cases Xml.readValue? ⟨[], isOpen⟩ quote? fuel rest <;> rfl

/-- A piece of a value is read as it was written. -/
theorem ValuePiece.IsHeld.read {piece : ValuePiece} (h : piece.IsHeld isOpen) (fuel : Nat)
    (rest : List Char) :
    readValue? ⟨[], isOpen⟩ (some '"') (fuel + 1) (piece.print ++ rest) =
      (readValue? ⟨[], isOpen⟩ (some '"') fuel rest).map fun (v, rest) => (piece :: v, rest) := by
  cases piece with
  | char c => exact readValue?_escapeValue h fuel rest
  | reference name meaning =>
    obtain ⟨hname, rfl⟩ := h
    exact hname.readValue? fuel rest

theorem ValuePiece.print_ne_nil (piece : ValuePiece) : piece.print ≠ [] := by
  cases piece with
  | char c => exact escapeValue_ne_nil c
  | reference name meaning => simp [print, printReference]

theorem readValue?_print (hheld : ∀ piece ∈ v, piece.IsHeld isOpen) (rest : List Char)
    (hfuel : (v.flatMap ValuePiece.print ++ '"' :: rest).length < fuel) :
    readValue? ⟨[], isOpen⟩ (some '"') fuel (v.flatMap ValuePiece.print ++ '"' :: rest) =
    some (v, rest) := by
  obtain ⟨fuel, rfl⟩ := Nat.exists_eq_add_one_of_ne_zero (Nat.ne_zero_of_lt hfuel)
  induction v generalizing fuel with
  | nil =>
    rw [List.flatMap_nil, List.nil_append, readValue?]
    · simp
    · simp
  | cons piece v ih =>
    obtain ⟨hpiece, hrest⟩ := List.forall_mem_cons.mp hheld
    have hlength := List.length_pos_iff.mpr piece.print_ne_nil
    simp only [List.flatMap_cons, List.append_assoc] at hfuel ⊢
    rw [List.length_append] at hfuel
    obtain ⟨fuel, rfl⟩ : ∃ n, fuel = n + 1 := ⟨fuel - 1, by omega⟩
    rw [hpiece.read, ih hrest fuel (by omega)]
    rfl

-- ---------------------------------------------------------------------------
-- Tags
-- ---------------------------------------------------------------------------

def RawAttribute.print (a : RawAttribute) : List Char := a.1.print ++ '=' :: a.2.print

structure RawAttribute.IsSound (a : RawAttribute) : Prop where
  name : a.1.IsWritten
  value : a.2.IsPlain

structure RawAttribute.IsHeld (isOpen : Bool) (a : RawAttribute) : Prop where
  name : a.1.IsWritten
  value : ∀ piece ∈ a.2, piece.IsHeld isOpen

theorem RawAttribute.isHeld_false {a : RawAttribute} : a.IsHeld false ↔ a.IsSound :=
  ⟨fun h => ⟨h.name, Value.forall_isHeld_false.mp h.value⟩, fun h =>
    ⟨h.name, Value.forall_isHeld_false.mpr h.value⟩⟩

theorem skipSpaces_suffix (cs : List Char) : skipSpaces cs <:+ cs := List.dropWhile_suffix _

theorem readQuoted?_sound (h : readQuoted? ⟨[], isOpen⟩ fuel cs = some (v, rest)) :
    (∀ piece ∈ v, piece.IsHeld isOpen) ∧ rest <:+ cs := by
  cases cs with
  | nil => simp [readQuoted?] at h
  | cons quote cs =>
    simp only [readQuoted?, Option.ite_none_right_eq_some] at h
    obtain ⟨hheld, hsuffix⟩ := readValue?_sound h.2
    exact ⟨hheld, hsuffix.trans (List.suffix_cons _ _)⟩

theorem readAttribute?_sound (h : readAttribute? ⟨[], isOpen⟩ fuel cs = some (a, rest)) :
    RawAttribute.IsHeld isOpen a ∧ rest <:+ cs := by
  simp only [readAttribute?, Option.bind_eq_bind, Option.bind_eq_some_iff, Prod.exists,
    readQName?_eq_some_iff, dropStart?_eq_some_iff, Option.some.injEq, Prod.mk.injEq] at h
  obtain ⟨name, behind, ⟨hname, rfl, -⟩, more, hequals, value, rest', hvalue, rfl, rfl⟩ := h
  obtain ⟨hheld, hsuffix⟩ := readQuoted?_sound hvalue
  refine ⟨⟨hname, hheld⟩, hsuffix.trans ((skipSpaces_suffix more).trans ?_)⟩
  have hmore : more <:+ skipSpaces behind := hequals ▸ List.suffix_cons '=' more
  exact hmore.trans ((skipSpaces_suffix behind).trans (List.suffix_append _ _))

theorem readTagEnd?_isBehind (h : readTagEnd? cs = some (empty, rest)) : IsBehind rest cs := by
  unfold readTagEnd? at h
  split at h
  · obtain ⟨-, rfl⟩ : false = empty ∧ _ = rest := by simpa using h
    exact ⟨[], '>', rfl, by simp⟩
  · obtain ⟨-, rfl⟩ : true = empty ∧ _ = rest := by simpa using h
    exact ⟨['/'], '>', rfl, by simp⟩
  · simp at h

theorem readAttributes?_sound
    (h : readAttributes? ⟨[], isOpen⟩ fuel cs = some (attributes, empty, rest)) :
    (∀ a ∈ attributes, RawAttribute.IsHeld isOpen a) ∧ IsBehind rest cs := by
  induction fuel generalizing cs attributes with
  | zero => simp [readAttributes?] at h
  | succ fuel ih =>
    rw [readAttributes?] at h
    split at h
    · rename_i hend
      obtain ⟨rfl, rfl, rfl⟩ : [] = attributes ∧ _ = empty ∧ _ = rest := by simpa using h
      exact ⟨by simp, (readTagEnd?_isBehind hend).trans (skipSpaces_suffix cs)⟩
    · simp only [Option.ite_none_right_eq_some, Option.bind_eq_bind, Option.bind_eq_some_iff,
        Prod.exists, Option.some.injEq, Prod.mk.injEq] at h
      obtain ⟨-, name, value, behind, hfirst, more, _, _, hmore, rfl, rfl, rfl⟩ := h
      obtain ⟨hheld, hsuffix⟩ := readAttribute?_sound hfirst
      obtain ⟨hall, hbehind⟩ := ih hmore
      exact ⟨List.forall_mem_cons.mpr ⟨hheld, hall⟩,
        hbehind.trans (hsuffix.trans (skipSpaces_suffix cs))⟩

theorem not_isNameStart : ∀ c ∈ [' ', '!', '?', '/', '>', '<', '&'], isNameStart c = false := by
  decide

theorem isNameStart_ne (h : isNameStart c = true) (hd : d ∈ [' ', '!', '?', '/', '>', '<', '&']) :
    c ≠ d := by
  rintro rfl
  simp [not_isNameStart c hd] at h

theorem QName.IsWritten.print_eq_cons (h : QName.IsWritten q) :
    ∃ c cs, q.print = c :: cs ∧ isNameStart c = true := by
  have hstart : ∀ {s : String}, isName s.toList = true →
      ∃ c cs, s.toList = c :: cs ∧ isNameStart c = true := by
    intro s hname
    cases hs : s.toList with
    | nil => simp [hs, isName] at hname
    | cons c cs => exact ⟨c, cs, rfl, by simp_all [isName]⟩
  unfold QName.print
  split
  · exact hstart h.localName
  · rename_i hns
    obtain ⟨c, cs, heq, hc⟩ := hstart (h.nsPrefix.resolve_left (by simpa using hns))
    exact ⟨c, cs ++ ':' :: q.localName.toList, by rw [heq]; rfl, hc⟩

inductive IsTagEnd : List Char → Bool → Prop
  | plain : IsTagEnd ['>'] false
  | compact : IsTagEnd ['/', '>'] true
  | spaced : IsTagEnd [' ', '/', '>'] true

theorem IsTagEnd.read (h : IsTagEnd stop empty) (rest : List Char) :
    readTagEnd? (skipSpaces (stop ++ rest)) = some (empty, rest) := by
  cases h <;> rfl

theorem endsName_cons (h : isNameChar c = false) (hcolon : c ≠ ':') (rest : List Char) :
    EndsName (c :: rest) := by
  rintro _ ⟨rfl⟩
  exact ⟨h, hcolon⟩

/-- Of an attribute as it is printed, only the value is left to be read. -/
theorem readAttribute?_written {a : RawAttribute} (h : QName.IsWritten a.1)
    (entities : Entities) (fuel : Nat)
    (rest : List Char) :
    readAttribute? entities fuel (a.print ++ rest) =
      (readValue? entities (some '"') fuel (a.2.flatMap ValuePiece.print ++ '"' :: rest)).map
        fun (value, rest) => ((a.1, value), rest) := by
  have hprint : a.print ++ rest = a.1.print ++ '=' :: '"' ::
      (a.2.flatMap ValuePiece.print ++ '"' :: rest) := by
    simp [RawAttribute.print, Value.print]
  have hname : readQName? (a.print ++ rest) = some (a.1, _) :=
    readQName?_eq_some_iff.mpr ⟨h, hprint, endsName_cons (by decide) (by decide) _⟩
  have hskip : ∀ c cs, isSpace c = false → skipSpaces (c :: cs) = c :: cs := fun c cs hc =>
    skipSpaces_eq_self (by rintro _ ⟨rfl⟩; exact hc)
  have hequals : ∀ cs, Text.dropStart? ['='] ('=' :: cs) = some cs :=
    fun cs => dropStart?_append ['='] cs
  simp only [readAttribute?, hname, Option.bind_eq_bind, Option.bind_some,
    hskip '=' _ (by decide), hequals,
    hskip '"' _ (by decide), readQuoted?, beq_self_eq_true, Bool.true_or, if_true,
    Option.map_eq_bind]
  rfl

theorem readAttributes?_written {a : RawAttribute} (h : QName.IsWritten a.1)
    (entities : Entities) (fuel : Nat)
    (more : List Char) :
    readAttributes? entities (fuel + 1) (' ' :: (a.print ++ more)) =
      (readAttribute? entities (fuel + 1) (a.print ++ more)).bind fun (first, rest) =>
        (readAttributes? entities fuel rest).map fun (attributes, empty, rest) =>
          (first :: attributes, empty, rest) := by
  obtain ⟨c, cs, hprint, hc⟩ := h.print_eq_cons
  obtain ⟨behind, hhead⟩ : ∃ behind, a.print ++ more = c :: behind :=
    ⟨_, by rw [RawAttribute.print, hprint]; rfl⟩
  have hskip : skipSpaces (' ' :: (a.print ++ more)) = a.print ++ more := by
    rw [skipSpaces, List.dropWhile_cons_of_pos (by decide), hhead]
    refine skipSpaces_eq_self ?_
    rintro _ ⟨rfl⟩
    exact not_isSpace_of_isNameChar (isNameChar_of_isNameStart hc)
  -- What begins with a name is no end of a tag.
  have hend : readTagEnd? (a.print ++ more) = none := by
    rw [hhead]
    unfold readTagEnd?
    split
    · rename_i heq
      exact absurd (List.cons.inj heq).1 (isNameStart_ne hc (by decide))
    · rename_i heq
      exact absurd (List.cons.inj heq).1 (isNameStart_ne hc (by decide))
    · rfl
  rw [readAttributes?, hskip, hend]
  simp only [List.head?_cons, Option.bind_eq_bind, Option.map_eq_bind]
  rfl

theorem readAttribute?_print {a : RawAttribute} (h : RawAttribute.IsHeld isOpen a)
    (rest : List Char)
    (hfuel : (a.print ++ rest).length < fuel) :
    readAttribute? ⟨[], isOpen⟩ fuel (a.print ++ rest) = some (a, rest) := by
  have hless : (a.2.flatMap ValuePiece.print ++ '"' :: rest).length < fuel := by
    simp only [RawAttribute.print, Value.print, List.length_append, List.length_cons] at hfuel ⊢
    omega
  rw [readAttribute?_written h.name, readValue?_print h.value rest hless]
  rfl

theorem readAttributes?_print (hheld : ∀ a ∈ attributes, RawAttribute.IsHeld isOpen a)
    (hstop : IsTagEnd stop empty) (rest : List Char)
    (hfuel : (attributes.flatMap (fun a => ' ' :: RawAttribute.print a) ++
      (stop ++ rest)).length < fuel) :
    readAttributes? ⟨[], isOpen⟩ fuel
      (attributes.flatMap (fun a => ' ' :: RawAttribute.print a) ++ (stop ++ rest)) =
      some (attributes, empty, rest) := by
  induction attributes generalizing fuel with
  | nil =>
    obtain ⟨fuel, rfl⟩ := Nat.exists_eq_add_one_of_ne_zero (Nat.ne_zero_of_lt hfuel)
    rw [List.flatMap_nil, List.nil_append, readAttributes?, hstop.read]
  | cons a attributes ih =>
    obtain ⟨fuel, rfl⟩ := Nat.exists_eq_add_one_of_ne_zero (Nat.ne_zero_of_lt hfuel)
    obtain ⟨ha, hall⟩ := List.forall_mem_cons.mp hheld
    simp only [List.flatMap_cons, List.cons_append, List.append_assoc] at hfuel ⊢
    generalize hmore : attributes.flatMap (fun a => ' ' :: RawAttribute.print a) ++
      (stop ++ rest) = more
      at hfuel ih ⊢
    have hfirst : readAttribute? ⟨[], isOpen⟩ (fuel + 1)
        (RawAttribute.print a ++ more) = some (a, more) :=
      readAttribute?_print ha more (by simp only [List.length_cons] at hfuel; omega)
    have hrest : readAttributes? ⟨[], isOpen⟩ fuel more = some (attributes, empty, rest) :=
      ih hall (by simp only [List.length_cons, List.length_append] at hfuel; omega)
    rw [readAttributes?_written ha.name, hfirst]
    simp only [Option.bind_some, hrest, Option.map_some]

def printOpening (name : QName) (attributes : List RawAttribute) (stop : List Char) : List Char :=
  name.print ++ attributes.flatMap (fun a => ' ' :: RawAttribute.print a) ++ stop

theorem readOpening?_sound (h : readOpening? ⟨[], isOpen⟩ fuel cs = some (tokens, rest)) :
    (∃ name attributes, ∃ empty : Bool, QName.IsWritten name ∧
      (∀ a ∈ attributes, RawAttribute.IsHeld isOpen a) ∧
      tokens = .opening name attributes :: if empty then [.closing name] else []) ∧
        IsBehind rest cs := by
  simp only [readOpening?, Option.bind_eq_bind, Option.bind_eq_some_iff, Prod.exists,
    readQName?_eq_some_iff, Option.some.injEq, Prod.mk.injEq] at h
  obtain ⟨name, behind, ⟨hname, rfl, -⟩, attributes, empty, _, hattributes, rfl, rfl⟩ := h
  obtain ⟨hall, hbehind⟩ := readAttributes?_sound hattributes
  exact ⟨⟨name, attributes, empty, hname, hall, rfl⟩, hbehind.trans (List.suffix_append _ _)⟩

theorem IsTagEnd.head (h : IsTagEnd stop empty) (rest : List Char) : EndsName (stop ++ rest) := by
  cases h <;> exact endsName_cons (by decide) (by decide) _

/-- Of a tag as it is printed, only the attributes are left to be read. -/
theorem readOpening?_written (hname : QName.IsWritten name) (attributes : List RawAttribute)
    (hstop : IsTagEnd stop empty) (entities : Entities) (fuel : Nat) (rest : List Char) :
    readOpening? entities fuel (printOpening name attributes stop ++ rest) =
      (readAttributes? entities fuel
        (attributes.flatMap (fun a => ' ' :: RawAttribute.print a) ++ (stop ++ rest))).map
          fun (attributes, empty, rest) =>
            (.opening name attributes :: (if empty then [.closing name] else []), rest) := by
  have hends : EndsName
      (attributes.flatMap (fun a => ' ' :: RawAttribute.print a) ++ (stop ++ rest)) := by
    cases attributes with
    | nil => exact hstop.head rest
    | cons a attributes => exact endsName_cons (by decide) (by decide) _
  have hread := readQName?_eq_some_iff.mpr ⟨hname, rfl, hends⟩
  simp only [printOpening, List.append_assoc, readOpening?, hread,
    Option.bind_eq_bind, Option.bind_some,
    Option.map_eq_bind]
  rfl

theorem readOpening?_print (hname : QName.IsWritten name)
    (hheld : ∀ a ∈ attributes, RawAttribute.IsHeld isOpen a) (hstop : IsTagEnd stop empty)
    (rest : List Char)
    (hfuel : (printOpening name attributes stop ++ rest).length < fuel) :
    readOpening? ⟨[], isOpen⟩ fuel (printOpening name attributes stop ++ rest) =
      some (.opening name attributes :: (if empty then [.closing name] else []), rest) := by
  rw [readOpening?_written hname attributes hstop, readAttributes?_print hheld hstop rest]
  · rfl
  · simp only [printOpening, List.length_append] at hfuel ⊢
    omega

theorem readClosing?_sound (h : readClosing? cs = some (token, rest)) :
    (∃ name, token = .closing name) ∧ IsBehind rest cs := by
  simp only [readClosing?, Option.bind_eq_bind, Option.bind_eq_some_iff, Prod.exists,
    readQName?_eq_some_iff, dropStart?_eq_some_iff, Option.some.injEq, Prod.mk.injEq] at h
  obtain ⟨name, behind, ⟨-, rfl, -⟩, _, hend, rfl, rfl⟩ := h
  refine ⟨⟨name, rfl⟩, ?_⟩
  have hmark : IsBehind _ (skipSpaces behind) := ⟨[], '>', hend, by simp⟩
  exact hmark.trans ((skipSpaces_suffix behind).trans (List.suffix_append _ _))

theorem readClosing?_print (hname : QName.IsWritten name) (rest : List Char) :
    readClosing? (name.print ++ '>' :: rest) = some (.closing name, rest) := by
  have hread := readQName?_eq_some_iff.mpr
    ⟨hname, rfl, endsName_cons (c := '>') (by decide) (by decide) rest⟩
  have hskip : skipSpaces ('>' :: rest) = '>' :: rest :=
    skipSpaces_eq_self (by rintro _ ⟨rfl⟩; decide)
  have hend : Text.dropStart? ['>'] ('>' :: rest) = some rest := dropStart?_append ['>'] rest
  simp only [readClosing?, hread, Option.bind_eq_bind, Option.bind_some, hskip, hend]

-- ---------------------------------------------------------------------------
-- Markup
-- ---------------------------------------------------------------------------

inductive ReadsMarkup (entities : Entities) (fuel : Nat) (rest : List Char) :
    List Char → List Token → Prop
  | comment (sound : IsComment s) :
      ReadsMarkup entities fuel rest
        ('!' :: '-' :: '-' :: (s.toList ++ ['-', '-', '>'] ++ rest)) [.comment s]
  | cdata (ends : EndsAt "]]>".toList s.toList) (allowed : AllAllowed s.toList) :
      ReadsMarkup entities fuel rest
        ('!' :: ("[CDATA[".toList ++ (s.toList ++ "]]>".toList ++ rest))) [.cdata s]
  | instruction (sound : IsInstruction target data) (isGap : IsGap data gap) :
      ReadsMarkup entities fuel rest
        ('?' :: (target.toList ++ gap ++ (data.getD "").toList ++ ['?', '>'] ++ rest))
          [.instruction target data]
  | closing (h : readClosing? tag = some (token, rest)) :
    ReadsMarkup entities fuel rest ('/' :: tag) [token]
  | opening (h : readOpening? entities fuel tag = some (tokens, rest)) :
    ReadsMarkup entities fuel rest tag tokens

theorem readMarkup?_reads {entities : Entities}
    (h : readMarkup? entities fuel cs = some (tokens, rest)) :
    ReadsMarkup entities fuel rest cs tokens := by
  unfold readMarkup? at h
  split at h
  · simp only [Option.map_eq_some_iff, Prod.exists, Prod.mk.injEq, readComment?_eq_some_iff] at h
    obtain ⟨s, _, ⟨hcomment, rfl⟩, rfl, rfl⟩ := h
    exact .comment hcomment
  · simp only [Option.bind_eq_bind, Option.bind_eq_some_iff, Prod.exists, Option.some.injEq,
      Prod.mk.injEq, dropStart?_eq_some_iff, readUntil?_eq_some_iff] at h
    obtain ⟨_, rfl, s, _, ⟨hends, hallowed, rfl⟩, rfl, rfl⟩ := h
    exact .cdata hends hallowed
  · simp only [Option.map_eq_some_iff, Prod.exists, Prod.mk.injEq,
      readInstruction?_eq_some_iff] at h
    obtain ⟨target, data, _, ⟨hinstruction, gap, hgap, rfl⟩, rfl, rfl⟩ := h
    exact .instruction hinstruction hgap
  · simp only [Option.map_eq_some_iff, Prod.exists, Prod.mk.injEq] at h
    obtain ⟨token, _, hclosing, rfl, rfl⟩ := h
    exact .closing hclosing
  · exact .opening h

inductive ReadsTokens (entities : Entities) (fuel : Nat) (rest : List Char) :
    List Char → List Token → Prop
  | markup (h : readMarkup? entities fuel behind = some (tokens, rest)) :
      ReadsTokens entities fuel rest ('<' :: behind) tokens
  | escaped (h : readReference? entities behind = some (.character c, rest)) :
      ReadsTokens entities fuel rest ('&' :: behind) [.escaped c]
  | reference (h : readReference? entities behind = some (.entity name, rest)) :
      ReadsTokens entities fuel rest ('&' :: behind) [.reference name]
  | char (allowed : isAllowed c = true) : ReadsTokens entities fuel rest (c :: rest) [.char c]

theorem readTokens?_reads {entities : Entities}
    (h : readTokens? entities fuel cs = some (tokens, rest)) :
    ReadsTokens entities fuel rest cs tokens := by
  unfold readTokens? at h
  split at h
  · cases h
  · exact .markup h
  · simp only [Option.map_eq_some_iff, Prod.exists] at h
    obtain ⟨reference, _, hreference, hread⟩ := h
    cases reference with
    | character c =>
      obtain ⟨rfl, rfl⟩ := Prod.mk.inj hread
      exact .escaped hreference
    | entity name =>
      obtain ⟨rfl, rfl⟩ := Prod.mk.inj hread
      exact .reference hreference
  · simp only [Option.ite_none_right_eq_some, Bool.and_eq_true, Option.some.injEq,
      Prod.mk.injEq] at h
    obtain ⟨⟨hallowed, -⟩, rfl, rfl⟩ := h
    exact .char hallowed

end DocMerge.Xml

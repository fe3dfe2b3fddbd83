import DocMerge.Docs.Content
import DocMerge.Proofs.LineEnds
import DocMerge.Proofs.Tokens
import DocMerge.Proofs.Trees
import Mathlib.Data.List.DropRight

/-!
# Markup on one line

A text of documentation is markup whose runs of blanks are single spaces. Squeezing the markup of a
tree gives the markup of a tree again: the one in which texts, sections, comments and values are
squeezed as far as their blanks are written as they are.
-/

namespace DocMerge.Text

open Markdown (squeeze_cons_of_not_blank squeeze_append trimEnd_append isPrefix_trimEnd)

-- ---------------------------------------------------------------------------
-- Squeezed texts
-- ---------------------------------------------------------------------------

theorem squeeze_cons_of_blank (h : isBlank c = true) (cs : List Char) :
    squeeze (c :: cs) = if cs.head?.any isBlank then squeeze cs else ' ' :: squeeze cs := by
  cases cs with
  | nil => simp [squeeze, h]
  | cons d cs => rw [squeeze, if_pos h, List.head?_cons, Option.any_some]

/-- A text is squeezed part by part, unless a run of blanks is cut in two. -/
theorem squeeze_append_of_head (first : List Char) (h : ∀ c ∈ second.head?, isBlank c = false) :
    squeeze (first ++ second) = squeeze first ++ squeeze second := by
  have hnone : second.head?.any isBlank = false := by
    cases hhead : second.head? with
    | none => rfl
    | some c => exact h c hhead
  induction first with
  | nil => rfl
  | cons c first ih =>
    cases hc : isBlank c with
    | false =>
      rw [List.cons_append, squeeze_cons_of_not_blank hc, squeeze_cons_of_not_blank hc,
        ih, List.cons_append]
    | true =>
      rw [List.cons_append, squeeze_cons_of_blank hc, squeeze_cons_of_blank hc, ih]
      cases first with
      | nil => simp [hnone]
      | cons d first =>
        rw [List.cons_append, List.head?_cons, List.head?_cons]
        by_cases hd : isBlank d = true <;> simp [hd]

theorem squeeze_mark (first : List Char) (h : isBlank c = false) (second : List Char) :
    squeeze (first ++ c :: second) = squeeze first ++ c :: squeeze second := by
  have hhead : ∀ d ∈ (c :: second).head?, isBlank d = false := by
    rintro _ ⟨rfl⟩
    exact h
  rw [squeeze_append_of_head first hhead, squeeze_cons_of_not_blank h]

theorem squeeze_solid (h : ∀ c ∈ cs, isBlank c = false) : squeeze cs = cs := by
  have hall := squeeze_append h []
  rwa [List.append_nil, squeeze, List.append_nil] at hall

theorem mem_squeeze (h : d ∈ squeeze cs) : d = ' ' ∨ d ∈ cs := by
  induction cs with
  | nil => exact .inr h
  | cons c cs ih =>
    cases hc : isBlank c with
    | false =>
      rw [squeeze_cons_of_not_blank hc, List.mem_cons] at h
      rcases h with rfl | h
      · exact .inr List.mem_cons_self
      · exact (ih h).imp_right (List.mem_cons_of_mem c)
    | true =>
      rw [squeeze_cons_of_blank hc] at h
      split at h
      · exact (ih h).imp_right (List.mem_cons_of_mem c)
      · rcases List.mem_cons.mp h with rfl | h
        · exact .inl rfl
        · exact (ih h).imp_right (List.mem_cons_of_mem c)

theorem blank_of_mem_squeeze (h : c ∈ squeeze cs) (hc : isBlank c = true) : c = ' ' := by
  induction cs with
  | nil => cases h
  | cons d cs ih =>
    cases hd : isBlank d with
    | false =>
      rw [squeeze_cons_of_not_blank hd, List.mem_cons] at h
      rcases h with rfl | h
      · simp [hc] at hd
      · exact ih h
    | true =>
      rw [squeeze_cons_of_blank hd] at h
      split at h
      · exact ih h
      · rcases List.mem_cons.mp h with rfl | h
        · rfl
        · exact ih h

def IsSqueezed (cs : List Char) : Prop :=
  (∀ c ∈ cs, isBlank c = true → c = ' ') ∧ cs.IsChain fun a b =>
    isBlank a = true → isBlank b = false

theorem head?_squeeze (cs : List Char) : (squeeze cs).head?.any isBlank = cs.head?.any isBlank := by
  induction cs with
  | nil => rfl
  | cons c cs ih =>
    cases hc : isBlank c with
    | false => simp [squeeze_cons_of_not_blank hc]
    | true =>
      rw [squeeze_cons_of_blank hc]
      split
      · rename_i h
        rw [ih, h, List.head?_cons, Option.any_some, hc]
      · rw [List.head?_cons, List.head?_cons, Option.any_some, Option.any_some, hc]
        rfl

theorem isSqueezed_squeeze (cs : List Char) : IsSqueezed (squeeze cs) := by
  refine ⟨fun c hc => blank_of_mem_squeeze hc, ?_⟩
  induction cs with
  | nil => exact List.isChain_nil
  | cons c cs ih =>
    cases hc : isBlank c with
    | false =>
      rw [squeeze_cons_of_not_blank hc]
      exact List.isChain_cons.mpr ⟨fun d _ h => by simp [hc] at h, ih⟩
    | true =>
      rw [squeeze_cons_of_blank hc]
      split
      · exact ih
      · rename_i hhead
        refine List.isChain_cons.mpr ⟨fun d hd _ => ?_, ih⟩
        rw [← head?_squeeze, hd] at hhead
        simpa using hhead

theorem IsSqueezed.squeeze_eq (h : IsSqueezed cs) : squeeze cs = cs := by
  induction cs with
  | nil => rfl
  | cons c cs ih =>
    obtain ⟨hblanks, hchain⟩ := h
    obtain ⟨hnext, hrest⟩ := List.isChain_cons.mp hchain
    have htail := ih ⟨fun d hd => hblanks d (List.mem_cons_of_mem c hd), hrest⟩
    cases hc : isBlank c with
    | false => rw [squeeze_cons_of_not_blank hc, htail]
    | true =>
      have hhead : cs.head?.any isBlank = false := by
        cases hd : cs.head? with
        | none => rfl
        | some d => exact hnext d hd hc
      rw [squeeze_cons_of_blank hc, hhead, htail, hblanks c List.mem_cons_self hc]
      rfl

theorem IsSqueezed.of_isInfix (h : IsSqueezed cs) (hpart : part <:+: cs) : IsSqueezed part :=
  ⟨fun c hc => h.1 c (hpart.subset hc), List.IsChain.infix h.2 hpart⟩

theorem isInfix_trim (cs : List Char) : trim cs <:+: cs := by
  have hfirst : trim cs <+: trimStart cs := isPrefix_trimEnd (trimStart cs)
  exact hfirst.isInfix.trans (List.dropWhile_suffix isBlank).isInfix

theorem trim_between (cs : List Char) : ∃ before after, (∀ c ∈ before, isBlank c = true) ∧
    (∀ c ∈ after, isBlank c = true) ∧ cs = before ++ (trim cs ++ after) := by
  obtain ⟨after, hafter, hend⟩ := trimEnd_append (trimStart cs)
  refine ⟨cs.takeWhile isBlank, after, fun c hc => List.mem_takeWhile_imp hc, hafter, ?_⟩
  calc cs = cs.takeWhile isBlank ++ trimStart cs := List.takeWhile_append_dropWhile.symm
    _ = cs.takeWhile isBlank ++ (trim cs ++ after) := by rw [trim, ← hend]

theorem trimEnd_concat (cs : List Char) (c : Char) :
    trimEnd (cs ++ [c]) = if isBlank c then trimEnd cs else cs ++ [c] := by
  induction cs with
  | nil => cases hc : isBlank c <;> simp [trimEnd, hc]
  | cons d cs ih =>
    cases hc : isBlank c with
    | true => rw [List.cons_append, trimEnd, trimEnd, ih, hc, if_pos rfl, if_pos rfl]
    | false =>
      rw [List.cons_append, trimEnd, ih, hc, if_neg Bool.false_ne_true, if_neg Bool.false_ne_true]
      cases cs <;> rfl

theorem trimEnd_eq_rdropWhile (cs : List Char) : trimEnd cs = cs.rdropWhile isBlank := by
  induction cs using List.reverseRecOn with
  | nil => rfl
  | append_singleton cs c ih =>
    rw [trimEnd_concat, List.rdropWhile_concat, ih]

def HasEnds (cs : List Char) : Prop :=
  cs.head?.any (fun c => !isBlank c) = true ∧ cs.getLast?.any (fun c => !isBlank c) = true

instance (cs : List Char) : Decidable (HasEnds cs) := inferInstanceAs (Decidable (_ ∧ _))

namespace HasEnds

theorem ne_nil (h : HasEnds cs) : cs ≠ [] := by
  rintro rfl
  exact Bool.false_ne_true h.1

theorem first (h : HasEnds cs) : ∃ c rest, cs = c :: rest ∧ isBlank c = false := by
  obtain ⟨c, rest, rfl⟩ := List.exists_cons_of_ne_nil h.ne_nil
  exact ⟨c, rest, rfl, by simpa using h.1⟩

theorem last (h : HasEnds cs) : ∃ rest c, cs = rest ++ [c] ∧ isBlank c = false := by
  obtain ⟨rest, c, rfl⟩ := List.eq_nil_or_concat'  cs |>.resolve_left h.ne_nil
  exact ⟨rest, c, rfl, by simpa using h.2⟩

theorem trim_eq (h : HasEnds cs) : trim cs = cs := by
  obtain ⟨c, rest, hcs, hc⟩ := h.first
  obtain ⟨first, d, hcs', hd⟩ := h.last
  have hstart : trimStart cs = cs := by
    rw [hcs, trimStart_cons, if_neg (by simp [hc])]
  rw [trim, hstart, hcs', trimEnd_concat, if_neg (by simp [hd])]

theorem between (h : HasEnds a) (h' : HasEnds b) (m : List Char) : HasEnds (a ++ m ++ b) := by
  obtain ⟨c, rest, rfl, hc⟩ := h.first
  obtain ⟨rest', d, rfl, hd⟩ := h'.last
  refine ⟨by simp [hc], ?_⟩
  rw [← List.append_assoc, List.getLast?_concat]
  simp [hd]

theorem append (h : HasEnds a) (h' : HasEnds b) : HasEnds (a ++ b) := by simpa using h.between h' []

end HasEnds

theorem hasEnds_trim (hne : trim cs ≠ []) : HasEnds (trim cs) := by
  have hends : trim cs = (trimStart (trim cs)).rdropWhile isBlank := by
    rw [← trimEnd_eq_rdropWhile, ← trim, trim_trim]
  generalize trim cs = text at hne hends
  constructor
  · obtain ⟨c, rest, rfl⟩ := List.exists_cons_of_ne_nil hne
    have hhead := List.head?_dropWhile_not isBlank (c :: rest)
    obtain ⟨more, hmore⟩ : c :: rest <+: trimStart (c :: rest) := by
      nth_rewrite 1 [hends]
      exact List.rdropWhile_prefix _ _
    rw [← trimStart, ← hmore] at hhead
    simpa using hhead
  · have hlast := List.rdropWhile_last_not isBlank (trimStart text) (hends ▸ hne)
    simp only [← hends] at hlast
    rw [List.getLast?_eq_some_getLast hne]
    simpa using hlast

theorem collapse_collapse (cs : List Char) : collapse (collapse cs) = collapse cs := by
  have hsqueezed : IsSqueezed (collapse cs) := (isSqueezed_squeeze cs).of_isInfix (isInfix_trim _)
  rw [collapse, hsqueezed.squeeze_eq, collapse, trim_trim]

-- ---------------------------------------------------------------------------
-- Marks in squeezed texts
-- ---------------------------------------------------------------------------

theorem dropStart?_squeeze (hmark : ∀ c ∈ mark, isBlank c = false) (cs : List Char) :
    dropStart? mark (squeeze cs) = (dropStart? mark cs).map squeeze := by
  induction mark generalizing cs with
  | nil => rfl
  | cons m mark ih =>
    obtain ⟨hm, hrest⟩ := List.forall_mem_cons.mp hmark
    have hne : ∀ {c}, isBlank c = true → m ≠ c := by
      rintro c hc rfl
      simp [hm] at hc
    induction cs with
    | nil => rfl
    | cons c cs ihcs =>
      cases hc : isBlank c with
      | false =>
        rw [squeeze_cons_of_not_blank hc, dropStart?, dropStart?]
        split
        · exact ih hrest cs
        · rfl
      | true =>
        rw [squeeze_cons_of_blank hc, dropStart?, if_neg (hne hc)]
        split
        · rename_i hhead
          rw [ihcs]
          cases cs with
          | nil => rfl
          | cons d cs =>
            rw [dropStart?, if_neg (hne (by simpa using hhead))]
        · rw [dropStart?, if_neg (hne (by decide))]
          rfl

theorem EndsAt.squeeze (h : EndsAt (m :: mark) cs) (hmark : ∀ c ∈ m :: mark, isBlank c = false) :
    EndsAt (m :: mark) (Text.squeeze cs) := by
  induction cs with
  | nil => exact endsAt_nil _
  | cons c cs ih =>
    obtain ⟨hdrop, hends⟩ := endsAt_cons.mp h
    have hrest := ih hends
    have hsplit : Text.squeeze (cs ++ (m :: mark)) = Text.squeeze cs ++ (m :: mark) := by
      rw [squeeze_mark cs (hmark m List.mem_cons_self), squeeze_solid fun c hc =>
        hmark c (List.mem_cons_of_mem m hc)]
    cases hc : isBlank c with
    | false =>
      rw [squeeze_cons_of_not_blank hc]
      refine endsAt_cons.mpr ⟨?_, hrest⟩
      rw [← hsplit, ← squeeze_cons_of_not_blank hc, dropStart?_squeeze hmark, hdrop]
      rfl
    | true =>
      rw [squeeze_cons_of_blank hc]
      split
      · exact hrest
      · refine endsAt_cons.mpr ⟨?_, hrest⟩
        have hne : m ≠ ' ' := by
          rintro rfl
          exact absurd (hmark ' ' List.mem_cons_self) (by decide)
        rw [dropStart?, if_neg hne]

end DocMerge.Text

namespace DocMerge.Xml

open Text (isBlank squeeze_mark squeeze_solid mem_squeeze squeeze_append_of_head)
open Markdown (squeeze_cons_of_not_blank squeeze_append)

-- ---------------------------------------------------------------------------
-- Squeezing what is escaped
-- ---------------------------------------------------------------------------

variable {escape : Char → List Char}

def isLoose (escape : Char → List Char) (c : Char) : Bool := isBlank c && escape c == [c]

structure IsEscape (escape : Char → List Char) : Prop where
  space : escape ' ' = [' ']
  solid : ∀ c, isLoose escape c = false → escape c ≠ [] ∧ ∀ d ∈ escape c, isBlank d = false

/-- Replaces runs of blanks, as far as they are written as they are, by single spaces. -/
def squeezeLoose (escape : Char → List Char) : List Char → List Char
  | [] => []
  | c :: cs =>
    if isLoose escape c then
      if cs.head?.any (isLoose escape) then squeezeLoose escape cs else ' ' ::
        squeezeLoose escape cs
    else c :: squeezeLoose escape cs

theorem mem_squeezeLoose (h : d ∈ squeezeLoose escape cs) : d = ' ' ∨ d ∈ cs := by
  induction cs with
  | nil => exact .inr h
  | cons c cs ih =>
    rw [squeezeLoose] at h
    split at h
    · split at h
      · exact (ih h).imp_right (List.mem_cons_of_mem c)
      · rcases List.mem_cons.mp h with rfl | h
        · exact .inl rfl
        · exact (ih h).imp_right (List.mem_cons_of_mem c)
    · rcases List.mem_cons.mp h with rfl | h
      · exact .inr List.mem_cons_self
      · exact (ih h).imp_right (List.mem_cons_of_mem c)

theorem squeezeLoose_eq_nil (h : squeezeLoose escape cs = []) : cs = [] := by
  induction cs with
  | nil => rfl
  | cons c cs ih =>
    rw [squeezeLoose] at h
    split at h
    · split at h
      · rename_i hhead
        simp [ih h] at hhead
      · cases h
    · cases h

theorem isLoose_iff : isLoose escape c = true ↔ isBlank c = true ∧ escape c = [c] := by
  simp [isLoose]

namespace IsEscape

variable (h : IsEscape escape)
include h

theorem head?_flatMap (cs : List Char) :
    (cs.flatMap escape).head?.any isBlank = cs.head?.any (isLoose escape) := by
  cases cs with
  | nil => rfl
  | cons c cs =>
    cases hc : isLoose escape c with
    | true =>
      obtain ⟨hblank, hsame⟩ := isLoose_iff.mp hc
      simp [hsame, hblank, hc]
    | false =>
      obtain ⟨hne, hall⟩ := h.solid c hc
      obtain ⟨d, ds, hds⟩ := List.exists_cons_of_ne_nil hne
      have hd : isBlank d = false := hall d (hds ▸ List.mem_cons_self)
      simp [hds, hd, hc]

theorem squeeze_flatMap (cs : List Char) :
    Text.squeeze (cs.flatMap escape) = (squeezeLoose escape cs).flatMap escape := by
  induction cs with
  | nil => rfl
  | cons c cs ih =>
    rw [List.flatMap_cons, squeezeLoose]
    cases hc : isLoose escape c with
    | true =>
      obtain ⟨hblank, hsame⟩ := isLoose_iff.mp hc
      rw [hsame, List.singleton_append, Text.squeeze_cons_of_blank hblank,
        h.head?_flatMap, ih, if_pos rfl]
      split
      · rfl
      · rw [List.flatMap_cons, h.space, List.singleton_append]
    | false =>
      rw [squeeze_append (h.solid c hc).2, ih, if_neg Bool.false_ne_true, List.flatMap_cons]

theorem dropWhile_flatMap (cs : List Char) :
    (cs.flatMap escape).dropWhile isBlank = (cs.dropWhile (isLoose escape)).flatMap escape := by
  induction cs with
  | nil => rfl
  | cons c cs ih =>
    rw [List.flatMap_cons]
    cases hc : isLoose escape c with
    | true =>
      obtain ⟨hblank, hsame⟩ := isLoose_iff.mp hc
      rw [hsame, List.singleton_append, List.dropWhile_cons_of_pos hblank,
        List.dropWhile_cons_of_pos hc, ih]
    | false =>
      obtain ⟨hne, hall⟩ := h.solid c hc
      obtain ⟨d, ds, hds⟩ := List.exists_cons_of_ne_nil hne
      have hd : ¬isBlank d = true := by simp [hall d (hds ▸ List.mem_cons_self)]
      rw [hds, List.cons_append, List.dropWhile_cons_of_neg hd,
        List.dropWhile_cons_of_neg (by simp [hc]),
        List.flatMap_cons, hds, List.cons_append]

theorem trimEnd_flatMap (cs : List Char) :
    Text.trimEnd (cs.flatMap escape) = (cs.rdropWhile (isLoose escape)).flatMap escape := by
  induction cs using List.reverseRecOn with
  | nil => rfl
  | append_singleton cs c ih =>
    rw [List.flatMap_append, List.flatMap_singleton, List.rdropWhile_concat]
    cases hc : isLoose escape c with
    | true =>
      obtain ⟨hblank, hsame⟩ := isLoose_iff.mp hc
      rw [hsame, Text.trimEnd_concat, if_pos hblank, ih, if_pos rfl]
    | false =>
      obtain ⟨hne, hall⟩ := h.solid c hc
      obtain ⟨ds, d, hds⟩ : ∃ ds d, escape c = ds ++ [d] :=
        ⟨_, _, (List.dropLast_append_getLast hne).symm⟩
      have hd : ¬isBlank d = true := by simp [hall d (by simp [hds])]
      rw [hds, ← List.append_assoc, Text.trimEnd_concat, if_neg hd, if_neg Bool.false_ne_true,
        List.flatMap_append, List.flatMap_singleton, hds, List.append_assoc]

end IsEscape

theorem isEscape_text : IsEscape escapeText where
  space := rfl
  solid c hc := by
    unfold isLoose escapeText at hc
    unfold escapeText
    split at hc <;> simp_all <;> decide

theorem isEscape_value : IsEscape escapeValue where
  space := rfl
  solid c hc := by
    have htext := isEscape_text.solid c
    unfold isLoose escapeValue at hc
    unfold escapeValue
    split at hc
    · simp
      decide
    · simp
      decide
    · simp
      decide
    · exact htext hc

theorem content_escapeText_eq (h : c ≠ '\r') : Content.escapeText c = escapeText c :=
  if_neg (by simpa using h)

theorem isEscape_inner : IsEscape Content.escapeText where
  space := rfl
  solid c hc := by
    by_cases hreturn : c = '\r'
    · subst hreturn
      exact absurd hc (by decide)
    · rw [isLoose, content_escapeText_eq hreturn] at hc
      rw [content_escapeText_eq hreturn]
      exact isEscape_text.solid c hc

-- ---------------------------------------------------------------------------
-- Squeezed trees
-- ---------------------------------------------------------------------------

def Value.squeezed (v : Value) : Value := (squeezeLoose escapeValue v.characters).map .char

def Tag.squeeze (t : Tag) : Tag :=
  { t with attributes := t.attributes.map fun a => { a with value := a.value.squeezed } }

mutual
def Node.squeeze : Node → Node
  | .text s => .text (String.ofList (squeezeLoose escapeText s.toList))
  | .cdata s => .cdata (String.ofList (Text.squeeze s.toList))
  | .comment s => .comment (String.ofList (Text.squeeze s.toList))
  | .element tag children => .element tag.squeeze (Node.squeezeAll children)
  | n => n

def Node.squeezeAll : List Node → List Node
  | [] => []
  | n :: rest => n.squeeze :: Node.squeezeAll rest
end

theorem Node.squeezeAll_eq_map (nodes : List Node) : squeezeAll nodes = nodes.map squeeze := by
  induction nodes with
  | nil => rfl
  | cons n rest ih => rw [squeezeAll, ih, List.map_cons]

def QName.isSolid (q : QName) : Bool := q.print.all fun c => !isBlank c

def Tag.isPlain (t : Tag) : Bool :=
  t.declarations.isEmpty && t.name.written.isSolid && t.attributes.all (·.name.written.isSolid)

mutual
def Node.isPlain : Node → Bool
  | .text _ | .cdata _ | .comment _ => true
  | .instruction .. | .reference _ => false
  | .element tag children => tag.isPlain && Node.areAllPlain children

def Node.areAllPlain : List Node → Bool
  | [] => true
  | n :: rest => n.isPlain && Node.areAllPlain rest
end

theorem Node.areAllPlain_iff (nodes : List Node) :
    areAllPlain nodes = true ↔ ∀ n ∈ nodes, n.isPlain = true := by
  induction nodes with
  | nil => simp [areAllPlain]
  | cons n rest ih => simp [areAllPlain, ih]

-- ---------------------------------------------------------------------------
-- The markup of squeezed trees
-- ---------------------------------------------------------------------------

theorem Value.IsPlain.print_eq {v : Value} (h : v.IsPlain) :
    v.print = '"' :: (v.characters.flatMap escapeValue ++ ['"']) := by
  obtain ⟨hv, -⟩ := h.eq_map
  have hpieces : v.flatMap ValuePiece.print = v.characters.flatMap escapeValue := by
    conv => lhs; rw [hv, List.flatMap_map]
    rfl
  rw [Value.print, hpieces, List.cons_append]

theorem Value.characters_map (cs : List Char) : Value.characters (cs.map .char) = cs := by
  induction cs with
  | nil => rfl
  | cons c cs ih => simpa [characters] using ih

theorem Value.print_squeezed (v : Value) :
    v.squeezed.print = '"' ::
    ((squeezeLoose escapeValue v.characters).flatMap escapeValue ++ ['"']) := by
  simp only [Value.print, Value.squeezed, List.flatMap_map, ValuePiece.print, List.cons_append]

theorem Value.IsPlain.squeeze_print {v : Value} (h : v.IsPlain) (more : List Char) :
    Text.squeeze (v.print ++ more) = v.squeezed.print ++ Text.squeeze more := by
  rw [h.print_eq, v.print_squeezed, List.cons_append, List.append_assoc, List.singleton_append,
    squeeze_cons_of_not_blank (by decide), squeeze_mark _ (by decide),
    isEscape_value.squeeze_flatMap]
  simp

theorem QName.isSolid_iff {q : QName} : q.isSolid = true ↔ ∀ c ∈ q.print, isBlank c = false := by
  simp [isSolid]

theorem squeeze_attributes {attributes : List Attribute}
    (hsolid : ∀ a ∈ attributes, a.name.written.isSolid = true)
    (hsound : ∀ a ∈ attributes, RawAttribute.IsSound (a.name.written, a.value)) :
    Text.squeeze (attributes.flatMap fun a => ' ' :: a.print) =
      (attributes.map fun a => { a with value := a.value.squeezed }).flatMap fun a =>
        ' ' :: a.print := by
  induction attributes with
  | nil => rfl
  | cons a attributes ih =>
    rw [List.forall_mem_cons] at hsolid hsound
    have hname := QName.isSolid_iff.mp hsolid.1
    obtain ⟨c, cs, hcs, -⟩ := hsound.1.name.print_eq_cons
    have hhead : ((a.print ++ attributes.flatMap fun a => ' ' :: a.print).head?).any
        isBlank = false := by
      have hprint : a.print = a.name.written.print ++ '=' :: a.value.print := rfl
      rw [hprint, hcs]
      exact hname c (hcs ▸ List.mem_cons_self)
    rw [List.flatMap_cons, List.cons_append, Text.squeeze_cons_of_blank (by decide), hhead,
      if_neg Bool.false_ne_true,
      List.map_cons, List.flatMap_cons, List.cons_append, Attribute.print, List.append_assoc,
      squeeze_append hname,
      List.cons_append, squeeze_cons_of_not_blank (by decide), hsound.1.value.squeeze_print,
      ih hsolid.2 hsound.2]
    simp [Attribute.print]

theorem Tag.isPlain_iff {t : Tag} :
    t.isPlain = true ↔ t.declarations = [] ∧ t.name.written.isSolid = true ∧
    ∀ a ∈ t.attributes, a.name.written.isSolid = true := by
  simp [isPlain, and_assoc]

theorem Tag.IsSound.attribute {outer : Scope} {t : Tag} (h : t.IsSound outer) :
    ∀ a ∈ t.attributes, RawAttribute.IsSound (a.name.written, a.value) :=
  fun a ha => h.attributes _ (List.mem_append_right _ (List.mem_map.mpr ⟨a, ha, rfl⟩))

theorem Tag.IsSound.squeeze_print {outer : Scope} {t : Tag} (h : t.IsSound outer)
    (hplain : t.isPlain = true) :
    Text.squeeze t.print = t.squeeze.print := by
  obtain ⟨hnone, hname, hattributes⟩ := Tag.isPlain_iff.mp hplain
  rw [Tag.print, Tag.print, Tag.squeeze, hnone, List.append_assoc,
    squeeze_append (QName.isSolid_iff.mp hname),
    List.append_assoc, squeeze_append (by simp), squeeze_attributes hattributes h.attribute]

theorem head?_body (cs : List Char) : (printSection.body cs).head? = cs.head? := by
  cases cs using printSection.body.induct with
  | case1 => rfl
  | case2 c cs hnot => rw [printSection_body_cons hnot]; rfl
  | case3 => rfl

theorem squeeze_body (cs : List Char) :
    Text.squeeze (printSection.body cs) = printSection.body (Text.squeeze cs) := by
  induction cs using printSection.body.induct with
  | case1 cs ih =>
    have hmark : ∀ c ∈ [']', ']'] ++ sectionEnd ++ sectionStart ++ ['>'],
        isBlank c = false := by decide
    have hsplit : ∀ rest, [']', ']'] ++ sectionEnd ++ sectionStart ++ '>' :: rest =
        [']', ']'] ++ sectionEnd ++ sectionStart ++ ['>'] ++ rest := by simp
    rw [printSection_body_mark, hsplit (printSection.body cs), squeeze_append hmark, ih,
      squeeze_cons_of_not_blank (by decide), squeeze_cons_of_not_blank (by decide),
      squeeze_cons_of_not_blank (by decide), printSection_body_mark]
    exact (hsplit _).symm
  | case2 c cs hnot ih =>
    rw [printSection_body_cons hnot]
    cases hc : isBlank c with
    | false =>
      rw [squeeze_cons_of_not_blank hc, squeeze_cons_of_not_blank hc, ih, printSection_body_cons]
      intro rest hbracket hrest
      -- The mark would stand in the text as well.
      have hmark : ∀ c ∈ [']', '>'], isBlank c = false := by decide
      have hdrop := Text.dropStart?_squeeze hmark cs
      have hfound : Text.dropStart? [']', '>'] (Text.squeeze cs) = some rest :=
        Text.dropStart?_eq_some_iff.mpr hrest
      rw [hfound, eq_comm, Option.map_eq_some_iff] at hdrop
      obtain ⟨behind, hbehind, -⟩ := hdrop
      exact hnot behind hbracket (Text.dropStart?_eq_some_iff.mp hbehind)
    | true =>
      rw [Text.squeeze_cons_of_blank hc, Text.squeeze_cons_of_blank hc, head?_body, ih]
      split
      · rfl
      · exact (printSection_body_cons fun _ hspace => absurd hspace (by decide)).symm
  | case3 => rfl

theorem squeeze_printSection (s : String) :
    Text.squeeze (printSection s) = printSection (String.ofList (Text.squeeze s.toList)) := by
  have hprint : ∀ s, printSection s = sectionStart ++ printSection.body s.toList ++
      sectionEnd := fun _ => rfl
  have hstart : ∀ c ∈ sectionStart, isBlank c = false := by decide
  have hend : ∀ c ∈ sectionEnd, isBlank c = false := by decide
  have hhead : ∀ c ∈ sectionEnd.head?, isBlank c = false := by decide
  rw [hprint, hprint, String.toList_ofList, List.append_assoc, squeeze_append hstart,
    squeeze_append_of_head _ hhead, squeeze_body, squeeze_solid hend, List.append_assoc]

theorem Node.IsSound.print_visible {n : Node} (h : n.IsSound scope depth)
    (hn : n.isPlainText = false) :
    (∃ cs, n.print = '<' :: cs) ∧ ∃ cs, n.print = cs ++ ['>'] := by
  rw [← n.draw_compact]
  refine ⟨h.draw_eq_cons _ hn, ?_⟩
  rw [n.draw_compact]
  have hconcat : ∀ cs mark : List Char, ∃ before, cs ++ (mark ++ ['>']) = before ++ ['>'] :=
    fun cs mark => ⟨cs ++ mark, (List.append_assoc cs mark _).symm⟩
  cases n with
  | text => simp [isPlainText] at hn
  | cdata s => exact hconcat _ [']', ']']
  | comment s => exact hconcat _ ['-', '-']
  | instruction target data => exact hconcat _ ['?']
  | reference => cases h
  | element tag children =>
    cases children with
    | nil => exact hconcat _ ['/']
    | cons child children =>
      exact ⟨'<' :: tag.print ++ '>' :: (child.print ++ Node.printAll children) ++
        '<' :: '/' :: tag.name.written.print, by simp [print]⟩

theorem squeeze_printAll {nodes : List Node} (hapart : Apart nodes)
    (hsound : ∀ n ∈ nodes, n.IsSound scope depth)
    (hsqueeze : ∀ n ∈ nodes, Text.squeeze n.print = n.squeeze.print) :
    Text.squeeze (Node.printAll nodes) = Node.printAll (nodes.map Node.squeeze) := by
  induction nodes with
  | nil => rfl
  | cons n nodes ih =>
    rw [List.forall_mem_cons] at hsound hsqueeze
    obtain ⟨hnext, hrest⟩ := List.isChain_cons.mp hapart
    have htail := ih hrest hsound.2 hsqueeze.2
    rw [List.map_cons, Node.printAll, Node.printAll, ← htail, ← hsqueeze.1]
    cases hn : n.isPlainText with
    | false =>
      obtain ⟨-, cs, hcs⟩ := hsound.1.print_visible hn
      rw [hcs, List.append_assoc, List.singleton_append, squeeze_mark _ (by decide),
        squeeze_mark _ (by decide)]
      simp [Text.squeeze]
    | true =>
      refine squeeze_append_of_head _ fun c hc => ?_
      cases nodes with
      | nil => simp [Node.printAll] at hc
      | cons m nodes =>
        have hm := Node.isPlainText_of_follows hn (hnext m rfl)
        obtain ⟨⟨cs, hcs⟩, -⟩ := (hsound.2 m List.mem_cons_self).print_visible hm
        rw [Node.printAll, hcs] at hc
        obtain rfl : '<' = c := by simpa using hc
        decide

theorem squeeze_printComment (s : String) :
    Text.squeeze (Node.print (.comment s)) = Node.print
      (.comment (String.ofList (Text.squeeze s.toList))) := by
  have hprint : ∀ s : String, Node.print (.comment s) = ['<', '!', '-', '-'] ++ s.toList ++
      ['-', '-', '>'] :=
    fun _ => rfl
  have hstart : ∀ c ∈ ['<', '!', '-', '-'], isBlank c = false := by decide
  have hend : ∀ c ∈ ['-', '-', '>'], isBlank c = false := by decide
  have hhead : ∀ c ∈ ['-', '-', '>'].head?, isBlank c = false := by decide
  rw [hprint, hprint, String.toList_ofList, List.append_assoc, squeeze_append hstart,
    squeeze_append_of_head _ hhead, squeeze_solid hend, List.append_assoc]

theorem Node.IsSound.squeeze_print {n : Node} (h : n.IsSound scope depth)
    (hplain : n.isPlain = true) :
    Text.squeeze n.print = n.squeeze.print := by
  induction h with
  | text => rw [squeeze, print, print, isEscape_text.squeeze_flatMap, String.toList_ofList]
  | cdata => exact squeeze_printSection _
  | comment => exact squeeze_printComment _
  | instruction => cases hplain
  | @element depth children scope tag _ htag hapart hinside ih =>
    simp only [isPlain, Bool.and_eq_true, areAllPlain_iff] at hplain
    obtain ⟨hplainTag, hplainChildren⟩ := hplain
    have htagPrint := htag.squeeze_print hplainTag
    have hname := squeeze_solid (QName.isSolid_iff.mp (Tag.isPlain_iff.mp hplainTag).2.1)
    have hchildren := squeeze_printAll hapart hinside fun n hn => ih n hn (hplainChildren n hn)
    rw [squeeze, squeezeAll_eq_map]
    cases children with
    | nil =>
      have hprint : ∀ tag : Tag, print (.element tag []) = '<' ::
          (tag.print ++ '/' :: ['>']) := fun _ => rfl
      rw [List.map_nil, hprint, hprint, squeeze_cons_of_not_blank (by decide),
        squeeze_mark _ (by decide),
        htagPrint, squeeze_solid (by decide)]
    | cons child children =>
      have hprint : ∀ (tag : Tag) (child : Node) (children : List Node),
          print (.element tag (child :: children)) =
          '<' :: (tag.print ++ '>' :: (printAll (child :: children) ++
            '<' :: '/' :: (tag.name.written.print ++ ['>']))) := by
        intro tag child children
        simp [print, printAll]
      rw [List.map_cons, hprint, hprint, ← List.map_cons, squeeze_cons_of_not_blank (by decide),
        squeeze_mark _ (by decide), htagPrint, squeeze_mark _ (by decide), hchildren,
        squeeze_cons_of_not_blank (by decide), squeeze_mark _ (by decide), hname,
        (rfl : Text.squeeze [] = [])]
      rfl

-- ---------------------------------------------------------------------------
-- Squeezed trees are sound
-- ---------------------------------------------------------------------------

theorem allAllowed_squeezeLoose (h : AllAllowed cs) : AllAllowed (squeezeLoose escape cs) := by
  intro c hc
  rcases mem_squeezeLoose hc with rfl | hc
  · decide
  · exact h c hc

theorem allAllowed_squeeze (h : AllAllowed cs) : AllAllowed (Text.squeeze cs) := by
  intro c hc
  rcases mem_squeeze hc with rfl | hc
  · decide
  · exact h c hc

theorem not_mem_squeeze (h : '\r' ∉ cs) : '\r' ∉ Text.squeeze cs := by
  intro hmem
  rcases mem_squeeze hmem with hspace | hmem
  · exact absurd hspace (by decide)
  · exact h hmem

theorem Value.IsPlain.squeezed {v : Value} (h : v.IsPlain) : v.squeezed.IsPlain := by
  intro piece hpiece
  obtain ⟨c, hc, rfl⟩ := List.mem_map.mp hpiece
  exact ⟨c, rfl, allAllowed_squeezeLoose h.eq_map.2 c hc⟩

theorem Tag.raw_plain {t : Tag} (h : t.isPlain = true) :
    t.raw = t.attributes.map fun a => (a.name.written, a.value) := by
  rw [Tag.raw, (Tag.isPlain_iff.mp h).1]
  rfl

theorem Tag.isPlain_squeeze (t : Tag) : t.squeeze.isPlain = t.isPlain := by
  simp [Tag.squeeze, Tag.isPlain, Function.comp_def]

/-- Only the names of attributes matter for reading a tag. -/
theorem Tag.IsSound.squeeze {outer : Scope} {t : Tag} (h : t.IsSound outer)
    (hplain : t.isPlain = true) :
    t.squeeze.IsSound outer := by
  have hraw := Tag.raw_plain hplain
  have hsqueezed : t.squeeze.raw = t.attributes.map fun a =>
      (a.name.written, a.value.squeezed) := by
    rw [Tag.raw_plain (by rwa [t.isPlain_squeeze]), Tag.squeeze, List.map_map]
    rfl
  obtain ⟨-, -, hname, hnamed, hdiffer⟩ := Tag.ofRaw?_eq_some_iff.mp h.read
  have hkept := attributes_raw hnamed
  have hothers : ∀ a ∈ t.attributes, a.name.written.isDeclaration = false := by
    rw [hraw, eq_comm, List.filter_eq_self] at hkept
    simpa using hkept
  have hread : ∀ a ∈ t.attributes,
      attributeName? (t.declarations ++ outer) a.name.written = some a.name := by
    rw [← hkept, List.forall₂_map_left_iff, List.forall₂_same] at hnamed
    intro a ha
    obtain ⟨name, hname, hsame⟩ := Option.map_eq_some_iff.mp (hnamed a ha)
    exact hname.trans (congrArg (fun a => some a.name) hsame)
  obtain ⟨hfirst, hsecond⟩ := t.squeeze.filter_raw <| by
    intro a ha
    obtain ⟨b, hb, rfl⟩ := List.mem_map.mp ha
    exact hothers b hb
  have hnone : t.squeeze.raw.filter (·.1.isDeclaration) = [] := by
    rw [hfirst, List.map_eq_nil_iff]
    exact (Tag.isPlain_iff.mp hplain).1
  refine ⟨h.name, ?_, Tag.ofRaw?_eq_some_iff.mpr ⟨?_, ⟨[], ?_, ?_⟩, hname, ?_, ?_⟩⟩
  · rw [hsqueezed]
    intro a ha
    obtain ⟨b, hb, rfl⟩ := List.mem_map.mp ha
    exact ⟨(h.attribute b hb).name, (h.attribute b hb).value.squeezed⟩
  · rw [hnone]
    exact .nil
  · rw [hnone]
    exact .nil
  · exact (Tag.isPlain_iff.mp hplain).1.symm
  · rw [hsecond, List.forall₂_map_left_iff, List.forall₂_same]
    intro a ha
    obtain ⟨b, hb, rfl⟩ := List.mem_map.mp ha
    exact Option.map_eq_some_iff.mpr ⟨b.name, hread b hb, rfl⟩
  · simpa [Tag.squeeze, Function.comp_def] using hdiffer

theorem Node.joins_squeeze (n m : Node) : n.squeeze.joins m.squeeze = n.joins m := by
  cases n <;> cases m <;> rfl

theorem Node.isText_squeeze (n : Node) : n.squeeze.isText = n.isText := by
  cases n <;> rfl

theorem Apart.squeeze {nodes : List Node} (h : Apart nodes) : Apart (nodes.map Node.squeeze) := by
  rw [Apart, List.isChain_map]
  simp only [Node.joins_squeeze]
  exact h

theorem Node.IsSound.squeeze {n : Node} (h : n.IsSound scope depth) (hplain : n.isPlain = true) :
    n.squeeze.IsSound scope depth ∧ n.squeeze.isPlain = true := by
  induction h with
  | @text s _ _ hne hallowed =>
    refine ⟨.text (fun hnil => hne ?_) (by simpa using allAllowed_squeezeLoose hallowed), rfl⟩
    have hchars := congrArg String.toList hnil
    rw [String.toList_ofList] at hchars
    exact String.toList_inj.mp (squeezeLoose_eq_nil hchars)
  | cdata hallowed hreturn =>
    exact ⟨.cdata (by simpa using allAllowed_squeeze hallowed)
      (by simpa using not_mem_squeeze hreturn), rfl⟩
  | comment hsound hreturn =>
    refine ⟨.comment ⟨?_, by simpa using allAllowed_squeeze hsound.allowed⟩
      (by simpa using not_mem_squeeze hreturn), rfl⟩
    rw [String.toList_ofList]
    exact hsound.ends.squeeze (by decide)
  | instruction => cases hplain
  | @element depth children scope tag hlevel htag hapart hinside ih =>
    simp only [isPlain, Bool.and_eq_true, areAllPlain_iff] at hplain
    obtain ⟨hplainTag, hplainChildren⟩ := hplain
    rw [Node.squeeze, squeezeAll_eq_map]
    have hchildren : ∀ n ∈ children.map Node.squeeze,
        IsSound (tag.squeeze.declarations ++ scope) (depth + 1) n ∧ n.isPlain = true := by
      intro n hn
      obtain ⟨m, hm, rfl⟩ := List.mem_map.mp hn
      exact ih m hm (hplainChildren m hm)
    refine ⟨.element hlevel (htag.squeeze hplainTag) hapart.squeeze fun n hn =>
      (hchildren n hn).1, ?_⟩
    simp only [isPlain, Bool.and_eq_true, areAllPlain_iff]
    exact ⟨by rwa [tag.isPlain_squeeze], fun n hn => (hchildren n hn).2⟩

-- ---------------------------------------------------------------------------
-- Squeezed identifiers
-- ---------------------------------------------------------------------------

theorem Value.IsPlain.plain?_eq {v : Value} (h : v.IsPlain) : v.plain? = some v.characters := by
  obtain ⟨hv, -⟩ := h.eq_map
  conv => lhs; rw [hv]
  exact Value.plain?_map v.characters

theorem Tag.IsSound.identifiers_squeeze {outer : Scope} {t : Tag} (h : t.IsSound outer)
    (hplain : t.isPlain = true) :
    t.squeeze.identifiers = t.identifiers.map (squeezeLoose escapeValue) := by
  have hsqueezed : t.squeeze.raw = t.attributes.map fun a =>
      (a.name.written, a.value.squeezed) := by
    rw [Tag.raw_plain (by rwa [t.isPlain_squeeze]), Tag.squeeze, List.map_map]
    rfl
  rw [Tag.identifiers, Tag.identifiers, hsqueezed, Tag.raw_plain hplain, List.filterMap_map,
    List.filterMap_map,
    List.map_filterMap]
  refine List.filterMap_congr fun a ha => ?_
  have hvalue := (h.attribute a ha).value
  simp only [Function.comp_apply, identifier?_eq]
  split
  · rw [hvalue.plain?_eq, hvalue.squeezed.plain?_eq, Value.squeezed, Value.characters_map]
    rfl
  · rfl

theorem Node.IsSound.identifiers_squeeze {n : Node} (h : n.IsSound scope depth)
    (hplain : n.isPlain = true) :
    n.squeeze.identifiers = n.identifiers.map (squeezeLoose escapeValue) := by
  induction h with
  | text | cdata | comment => rfl
  | instruction => cases hplain
  | @element depth children scope tag _ htag _ hinside ih =>
    simp only [isPlain, Bool.and_eq_true, areAllPlain_iff] at hplain
    obtain ⟨hplainTag, hplainChildren⟩ := hplain
    rw [Node.squeeze, identifiers, identifiers, htag.identifiers_squeeze hplainTag,
      squeezeAll_eq_map,
      allIdentifiers_eq_flatMap, allIdentifiers_eq_flatMap, List.map_append,
      List.map_flatMap, List.flatMap_map]
    exact congrArg _ (List.flatMap_congr fun n hn => ih n hn (hplainChildren n hn))

end DocMerge.Xml

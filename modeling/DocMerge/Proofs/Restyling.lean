import DocMerge.Proofs.Styling
import Mathlib.Algebra.Order.BigOperators.Group.List
import Mathlib.Algebra.Order.Ring.Nat

/-!
# Restyling a text

To write the ends of empty elements with a space before them is to put a space in front of each mark
that stands right behind something else in the same part of markup. `Spaced` says so character by
character, with the sealed parts passed over as they are. A space makes and breaks no sealed part,
so the parts of the result are those of the text, each restyled, and nothing is left to restyle.
-/

namespace DocMerge.Text

-- ---------------------------------------------------------------------------
-- Texts that lose spaces
-- ---------------------------------------------------------------------------

inductive Thins : List Char → List Char → Prop
  | nil : Thins [] []
  | keep (c : Char) : Thins cs ds → Thins (c :: cs) (c :: ds)
  | drop : Thins cs ds → Thins cs (' ' :: ds)

namespace Thins

theorem append_left (first : List Char) (h : Thins cs ds) : Thins (first ++ cs) (first ++ ds) := by
  induction first with
  | nil => exact h
  | cons c first ih => exact .keep c ih

theorem split (first : List Char) (h : Thins cs (first ++ second)) :
    ∃ first' second', cs = first' ++ second' ∧ Thins first' first ∧ Thins second' second := by
  induction first generalizing cs with
  | nil => exact ⟨[], cs, rfl, .nil, h⟩
  | cons c first ih =>
    rw [List.cons_append] at h
    cases h with
    | keep _ h =>
      obtain ⟨first', second', rfl, hfirst, hsecond⟩ := ih h
      exact ⟨c :: first', second', rfl, .keep c hfirst, hsecond⟩
    | drop h =>
      obtain ⟨first', second', rfl, hfirst, hsecond⟩ := ih h
      exact ⟨first', second', rfl, .drop hfirst, hsecond⟩

theorem eq_of_not_mem (hspace : ' ' ∉ ds) (h : Thins cs ds) : cs = ds := by
  induction h with
  | nil => rfl
  | keep c _ ih => rw [ih fun hmem => hspace (List.mem_cons_of_mem c hmem)]
  | drop _ _ => exact absurd List.mem_cons_self hspace

theorem length_le (h : Thins cs ds) : cs.length ≤ ds.length := by
  induction h with
  | nil => exact Nat.le_refl 0
  | keep _ _ ih => exact Nat.succ_le_succ ih
  | drop _ ih => exact Nat.le_succ_of_le ih

theorem eq_of_length (h : Thins cs ds) (hlength : ds.length = cs.length) : cs = ds := by
  induction h with
  | nil => rfl
  | keep c _ ih => rw [ih (Nat.succ.inj hlength)]
  | drop h _ => exact absurd (hlength ▸ h.length_le) (Nat.not_succ_le_self _)

theorem split_mark (first : List Char) (hspace : ' ' ∉ mark)
    (h : Thins cs (first ++ mark ++ second)) :
    ∃ first' second', cs = first' ++ mark ++ second' := by
  obtain ⟨_, second', rfl, hfirst, -⟩ := split (first ++ mark) h
  obtain ⟨first', _, rfl, -, hmark⟩ := split first hfirst
  rw [hmark.eq_of_not_mem hspace]
  exact ⟨first', second', rfl⟩

end Thins

-- ---------------------------------------------------------------------------
-- Marks that are found
-- ---------------------------------------------------------------------------

theorem exists_cutAt? (mark after : List Char) : ∀ before : List Char,
    ∃ body rest, cutAt? mark (before ++ mark ++ after) = some (body, rest)
  | [] => ⟨[], after, cutAt?_mark mark after⟩
  | c :: before => by
    obtain ⟨body, rest, hcut⟩ := exists_cutAt? mark after before
    rw [List.cons_append, List.cons_append, cutAt?]
    split
    · exact ⟨_, _, rfl⟩
    · exact ⟨c :: body, rest, by rw [hcut]; rfl⟩

theorem countOf_pos (hmark : mark ≠ []) (h : mark <:+: cs) : 0 < countOf mark cs := by
  have hall : ∀ before, Scanned.found (scanFrom (fixed mark ()) 0 before cs) ≠ [] := by
    obtain ⟨first, second, rfl⟩ := h
    induction first with
    | nil =>
      intro before
      have hfound : fixed mark () before (mark ++ second) = some ((), second) := by
        rw [fixed, dropStart?_append]
        rfl
      obtain ⟨before', hscan⟩ := scanFrom_append_of_some hmark hfound
      rw [List.nil_append, hscan]
      exact List.cons_ne_nil _ _
    | cons c first ih =>
      intro before
      rw [List.cons_append, List.cons_append]
      cases hfound : fixed mark () before (c :: (first ++ mark ++ second)) with
      | none =>
        rw [scanFrom_cons_of_none hfound]
        exact ih (some c)
      | some match_ =>
        rw [scanFrom, hfound]
        exact List.cons_ne_nil _ _
  exact List.length_pos_iff.mpr (hall none)

end DocMerge.Text

namespace DocMerge.Xml

open Text
open Piece (closes compactEnd_eq scanParts scanParts_none weave_modifyHead)

-- ---------------------------------------------------------------------------
-- Where sealed parts begin
-- ---------------------------------------------------------------------------

theorem enclosed_eq_some_iff : enclosed start stop before cs = some (s, after) ↔
    IsEnclosed start.toList stop.toList s ∧ cs = s ++ after := by
  constructor
  · intro h
    simp only [enclosed, Option.bind_eq_bind, Option.bind_eq_some_iff, Prod.exists,
      Option.some.injEq,
      Prod.mk.injEq, dropStart?_eq_some_iff, cutAt?_eq_some_iff] at h
    obtain ⟨_, rfl, body, _, ⟨hends, rfl⟩, rfl, rfl⟩ := h
    exact ⟨⟨body, rfl, hends⟩, by simp⟩
  · rintro ⟨⟨body, rfl, hends⟩, rfl⟩
    exact enclosed_eq_some start stop before hends after

theorem opaquePart_sealed (h : opaquePart before cs = some (s, after)) :
    IsSealed s ∧ cs = s ++ after := by
  rw [opaquePart, Option.or_eq_some_iff, Option.or_eq_some_iff] at h
  simp only [enclosed_eq_some_iff] at h
  rcases h with (⟨h, hcs⟩ | ⟨-, h, hcs⟩) | ⟨-, h, hcs⟩
  · exact ⟨⟨_, List.mem_cons_self, h⟩, hcs⟩
  · exact ⟨⟨_, List.mem_cons_of_mem _ List.mem_cons_self, h⟩, hcs⟩
  · exact ⟨⟨_, List.mem_cons_of_mem _ (List.mem_cons_of_mem _ List.mem_cons_self), h⟩, hcs⟩

def IsOpen (cs : List Char) : Prop := ∀ s, IsSealed s → ¬ s <+: cs

theorem opaquePart_eq_none_iff : opaquePart before cs = none ↔ IsOpen cs := by
  constructor
  · rintro h s hs ⟨after, rfl⟩
    rw [opaquePart_eq_some before hs after] at h
    cases h
  · intro h
    rw [Option.eq_none_iff_forall_ne_some]
    rintro ⟨s, after⟩ hfound
    obtain ⟨hs, rfl⟩ := opaquePart_sealed hfound
    exact h s hs (List.prefix_append s after)

theorem isOpen_cons (h : c ≠ '<') (cs : List Char) : IsOpen (c :: cs) :=
  opaquePart_eq_none_iff.mp (opaquePart_eq_none none (.inl h))

theorem IsSealed.ne_nil (h : IsSealed s) : s ≠ [] := by
  obtain ⟨cs, rfl⟩ := h.eq_cons
  exact List.cons_ne_nil _ cs

theorem isOpen_iff : IsOpen cs ↔ ∀ marks ∈ seals, ∀ body, ¬ marks.1 ++ body ++ marks.2 <+: cs := by
  constructor
  · rintro h marks hmarks body ⟨after, hcs⟩
    obtain ⟨body, rest, hcut⟩ := exists_cutAt? marks.2 after body
    obtain ⟨hends, hbody⟩ := cutAt?_eq_some_iff.mp hcut
    refine h _ ⟨marks, hmarks, body, rfl, hends⟩ ⟨rest, ?_⟩
    rw [← hcs]
    simpa using hbody.symm
  · rintro h _ ⟨marks, hmarks, body, rfl, -⟩
    exact h marks hmarks body

theorem not_mem_seals : ∀ marks ∈ seals, ' ' ∉ marks.1 ∧ ' ' ∉ marks.2 := by decide

/-- No sealed part comes about by putting spaces into a text. -/
theorem IsOpen.of_thins (h : IsOpen (c :: cs)) (hthins : Thins cs ds) : IsOpen (c :: ds) := by
  rw [isOpen_iff] at h ⊢
  rintro marks hmarks body ⟨after, hcs⟩
  obtain ⟨hstart, hstop⟩ := not_mem_seals marks hmarks
  have hall : Thins (c :: cs) (marks.1 ++ body ++ marks.2 ++ after) := hcs ▸ hthins.keep c
  rw [List.append_assoc, List.append_assoc] at hall
  obtain ⟨start, _, hsplit, hthinsStart, hrest⟩ := Thins.split marks.1 hall
  obtain rfl := hthinsStart.eq_of_not_mem hstart
  rw [← List.append_assoc] at hrest
  obtain ⟨body', after', rfl⟩ := hrest.split_mark body hstop
  exact h marks hmarks body' ⟨after', by rw [hsplit]; simp⟩

-- ---------------------------------------------------------------------------
-- Spaces before the ends of empty elements
-- ---------------------------------------------------------------------------

/-- Whether a text with a character before it is another one with a space in front of each mark that
ends an empty element in the compact way. Sealed parts are kept as they are, and what stands behind
one stands behind no character. -/
inductive Spaced : Option Char → List Char → List Char → Prop
  | nil : Spaced before [] []
  | sealed (h : IsSealed s) : Spaced none cs ds → Spaced before (s ++ cs) (s ++ ds)
  | char (isOpen : IsOpen (c :: cs)) (ends : closes before = true → ¬ ['/', '>'] <+: c :: cs) :
      Spaced (some c) cs ds → Spaced before (c :: cs) (c :: ds)
  | ending (h : closes before = true) :
      Spaced (some '>') cs ds → Spaced before ('/' :: '>' :: cs) (' ' :: '/' :: '>' :: ds)

theorem lookAhead_opaquePart : LooksAhead opaquePart := fun _ _ _ => rfl

def markupFrom (before : Option Char) (cs : List Char) : List (Scanned Unit) :=
  scanParts compactEnd before (scan opaquePart cs).split

theorem scan_sealed (h : IsSealed s) (cs : List Char) :
    scan opaquePart (s ++ cs) = .inr s :: scan opaquePart cs := by
  obtain ⟨before', hscan⟩ := scanFrom_append_of_some h.ne_nil (opaquePart_eq_some none h cs)
  rw [scan, hscan, lookAhead_opaquePart.scanFrom_eq]

theorem scan_open (h : IsOpen (c :: cs)) :
    scan opaquePart (c :: cs) = .inl c :: scan opaquePart cs := by
  rw [scan, scanFrom_cons_of_none (opaquePart_eq_none_iff.mpr h), lookAhead_opaquePart.scanFrom_eq]

theorem split_open (h : IsOpen (c :: cs)) :
    (scan opaquePart (c :: cs)).split = (scan opaquePart cs).split.modifyHead (c :: ·) := by
  rw [scan_open h]
  exact Scanned.split_inl [c] (scan opaquePart cs)

theorem prefix_of_split (h : (scan opaquePart cs).split = first :: more) : first <+: cs := by
  induction cs generalizing first more with
  | nil =>
    obtain ⟨rfl, -⟩ := List.cons.inj h
    exact List.nil_prefix
  | cons c cs ih =>
    cases hfound : opaquePart none (c :: cs) with
    | none =>
      obtain ⟨part, parts, hsplit⟩ :=
        List.exists_cons_of_ne_nil (Scanned.split_ne_nil (scan opaquePart cs))
      rw [split_open (opaquePart_eq_none_iff.mp hfound), hsplit] at h
      obtain ⟨rfl, -⟩ := List.cons.inj h
      exact (List.prefix_cons_inj c).mpr (ih hsplit)
    | some match_ =>
      obtain ⟨hs, hcs⟩ := opaquePart_sealed hfound
      rw [hcs, scan_sealed hs] at h
      obtain ⟨rfl, -⟩ := List.cons.inj h
      exact List.nil_prefix

theorem markupFrom_sealed (h : IsSealed s) (before : Option Char) (cs : List Char) :
    markupFrom before (s ++ cs) = [] :: markupFrom none cs := by
  rw [markupFrom, scan_sealed h, markupFrom, scanParts_none]
  rfl

theorem dropStart?_eq_none_iff : dropStart? start cs = none ↔ ¬ start <+: cs := by
  rw [Option.eq_none_iff_forall_ne_some]
  exact not_exists.symm.trans
    (not_congr (exists_congr fun _ => dropStart?_eq_some_iff.trans eq_comm))

theorem markupFrom_char (hopen : IsOpen (c :: cs))
    (hends : closes before = true → ¬ ['/', '>'] <+: c :: cs) :
    markupFrom before (c :: cs) = (markupFrom (some c) cs).modifyHead (.inl c :: ·) := by
  obtain ⟨first, more, hsplit⟩ :=
    List.exists_cons_of_ne_nil (Scanned.split_ne_nil (scan opaquePart cs))
  have hnone : compactEnd before (c :: first) = none := by
    rw [compactEnd_eq]
    split
    · rename_i hcloses
      have hprefix : c :: first <+: c :: cs := (List.prefix_cons_inj c).mpr (prefix_of_split hsplit)
      rw [dropStart?_eq_none_iff.mpr fun h => hends hcloses (h.trans hprefix)]
      rfl
    · rfl
  rw [markupFrom, split_open hopen, markupFrom, hsplit]
  simp [scanParts, scanFrom_cons_of_none hnone]

theorem markupFrom_ending (h : closes before = true) (cs : List Char) :
    markupFrom before ('/' :: '>' :: cs) = (markupFrom (some '>') cs).modifyHead
      (.inr () :: ·) := by
  obtain ⟨first, more, hsplit⟩ :=
    List.exists_cons_of_ne_nil (Scanned.split_ne_nil (scan opaquePart cs))
  have hfound : compactEnd before ('/' :: '>' :: first) = some ((), first) := by
    simp [compactEnd_eq, h, dropStart?]
  rw [markupFrom, split_open (isOpen_cons (by decide) _), split_open (isOpen_cons (by decide) _),
    markupFrom, hsplit]
  simp [scanParts, scanFrom, hfound]

def spacedFrom (before : Option Char) (cs : List Char) : List Char :=
  weave ((markupFrom before cs).map (Scanned.write fun _ => spacedTag.toList))
    (scan opaquePart cs).found

theorem restyle_spaced (text : String) :
    restyle spacedTag text = String.ofList (spacedFrom none text.toList) := by
  have hstyle : (spacedTag == compactTag) = false := by decide
  have hmarkup : restyleMarkup spacedTag = Scanned.write
      (fun _ => spacedTag.toList) ∘ scan compactEnd := rfl
  rw [restyle, hstyle, spacedFrom, markupFrom, scanParts_none, List.map_map, ← hmarkup]
  rfl

theorem markupFrom_ne_nil (before : Option Char) (cs : List Char) : markupFrom before cs ≠ [] := by
  obtain ⟨first, more, hsplit⟩ :=
    List.exists_cons_of_ne_nil (Scanned.split_ne_nil (scan opaquePart cs))
  rw [markupFrom, hsplit]
  exact List.cons_ne_nil _ _

theorem map_write_modifyHead (render : α → List Char) (part : Char ⊕ α) (parts : List (Scanned α)) :
    (parts.modifyHead (part :: ·)).map (Scanned.write render) =
      (parts.map (Scanned.write render)).modifyHead (Scanned.write render [part] ++ ·) := by
  cases parts with
  | nil => rfl
  | cons first more => simp [Scanned.write]

theorem spacedFrom_sealed (h : IsSealed s) (before : Option Char) (cs : List Char) :
    spacedFrom before (s ++ cs) = s ++ spacedFrom none cs := by
  rw [spacedFrom, markupFrom_sealed h, scan_sealed h]
  rfl

theorem weave_write (render : Unit → List Char) (part : Char ⊕ Unit) (before : Option Char)
    (cs : List Char) :
    weave (((markupFrom before cs).modifyHead (part :: ·)).map (Scanned.write render)) more =
      Scanned.write render [part] ++
      weave ((markupFrom before cs).map (Scanned.write render)) more := by
  rw [map_write_modifyHead]
  exact weave_modifyHead _ (by simpa using markupFrom_ne_nil before cs) more

theorem spacedFrom_char (hopen : IsOpen (c :: cs))
    (hends : closes before = true → ¬ ['/', '>'] <+: c :: cs) :
    spacedFrom before (c :: cs) = c :: spacedFrom (some c) cs := by
  rw [spacedFrom, markupFrom_char hopen hends, weave_write, scan_open hopen]
  rfl

theorem spacedFrom_ending (h : closes before = true) (cs : List Char) :
    spacedFrom before ('/' :: '>' :: cs) = ' ' :: '/' :: '>' :: spacedFrom (some '>') cs := by
  rw [spacedFrom, markupFrom_ending h, weave_write, scan_open (isOpen_cons (by decide) _),
    scan_open (isOpen_cons (by decide) _)]
  rfl

/-- A text is restyled from left to right, by sealed parts, characters and ends of empty
elements. -/
theorem spaced_spacedFrom (before : Option Char) (cs : List Char) :
    Spaced before cs (spacedFrom before cs) := by
  induction hlength : cs.length using Nat.strongRecOn generalizing before cs with
  | ind length ih =>
    subst hlength
    cases cs with
    | nil => exact .nil
    | cons c cs =>
      by_cases hopen : IsOpen (c :: cs)
      · by_cases hend : closes before = true ∧ ['/', '>'] <+: c :: cs
        · obtain ⟨hcloses, rest, hrest⟩ := hend
          obtain ⟨rfl, rfl⟩ : '/' = c ∧ '>' :: rest = cs := by simpa using hrest
          rw [spacedFrom_ending hcloses]
          exact .ending hcloses
            (ih rest.length (by rw [List.length_cons, List.length_cons]; omega) _ rest rfl)
        · have hends : closes before = true → ¬ ['/', '>'] <+: c :: cs := fun h h' => hend ⟨h, h'⟩
          rw [spacedFrom_char hopen hends]
          exact .char hopen hends (ih cs.length (by simp) _ cs rfl)
      · simp only [IsOpen, not_forall, not_not] at hopen
        obtain ⟨s, hs, rest, hrest⟩ := hopen
        rw [← hrest, spacedFrom_sealed hs]
        refine .sealed hs (ih rest.length ?_ _ rest rfl)
        have hpos := List.length_pos_iff.mpr hs.ne_nil
        rw [← hrest, List.length_append]
        omega

namespace Spaced

theorem eq (h : Spaced before cs ds) : ds = spacedFrom before cs := by
  induction h with
  | nil => rfl
  | sealed hs _ ih => rw [spacedFrom_sealed hs, ih]
  | char hopen hends _ ih => rw [spacedFrom_char hopen hends, ih]
  | ending hcloses _ ih => rw [spacedFrom_ending hcloses, ih]

theorem thins (h : Spaced before cs ds) : Thins cs ds := by
  induction h with
  | nil => exact .nil
  | @sealed s _ _ _ _ _ ih => exact ih.append_left s
  | @char c _ _ _ _ _ _ ih => exact ih.keep c
  | ending _ _ ih => exact ((ih.keep '>').keep '/').drop

theorem head (h : Spaced before cs ds) (hd : d ∈ ds.head?) (hspace : d ≠ ' ') : d ∈ cs.head? := by
  cases h with
  | nil => exact hd
  | sealed hs _ =>
    obtain ⟨start, rfl⟩ := hs.eq_cons
    exact hd
  | char _ _ _ => exact hd
  | ending _ _ =>
    obtain rfl : ' ' = d := Option.some.inj hd
    exact absurd rfl hspace

theorem no_end (h : Spaced (some c) cs ds) (hnot : ¬ ['/', '>'] <+: c :: cs) :
    ¬ ['/', '>'] <+: c :: ds := by
  rintro ⟨rest, hrest⟩
  obtain ⟨rfl, rfl⟩ : '/' = c ∧ '>' :: rest = ds := by simpa using hrest
  cases cs with
  | nil => exact absurd (h.head (d := '>') rfl (by decide)) (by simp)
  | cons e cs =>
    obtain rfl : e = '>' := Option.some.inj (h.head (d := '>') rfl (by decide))
    exact hnot ⟨cs, rfl⟩

theorem again (h : Spaced before cs ds) : Spaced before ds ds := by
  induction h with
  | nil => exact .nil
  | sealed hs _ ih => exact .sealed hs ih
  | char hopen hends hrest ih =>
    exact .char (hopen.of_thins hrest.thins) (fun hcloses => hrest.no_end (hends hcloses)) ih
  | ending _ _ ih =>
    have hclose : Spaced (some '/') ('>' :: _) ('>' :: _) :=
      ih.char (isOpen_cons (by decide) _) fun _ => by simp
    have hslash : Spaced (some ' ') ('/' :: '>' :: _) ('/' :: '>' :: _) :=
      hclose.char (isOpen_cons (by decide) _) fun hcloses => absurd hcloses (by decide)
    exact hslash.char (isOpen_cons (by decide) _) fun _ => by simp

/-- The parts of the result are those of the text, each restyled, with the same sealed parts between
them. -/
theorem scan_eq (h : Spaced before cs ds) :
    (scan opaquePart ds).split = (markupFrom before cs).map
      (Scanned.write fun _ => spacedTag.toList) ∧
      (scan opaquePart ds).found = (scan opaquePart cs).found := by
  induction h with
  | nil => exact ⟨rfl, rfl⟩
  | sealed hs _ ih =>
    rw [scan_sealed hs, scan_sealed hs, markupFrom_sealed hs]
    exact ⟨congrArg ([] :: ·) ih.1, congrArg (_ :: ·) ih.2⟩
  | char hopen hends hrest ih =>
    have hopen' := hopen.of_thins hrest.thins
    rw [split_open hopen', markupFrom_char hopen hends, map_write_modifyHead, ih.1,
      scan_open hopen', scan_open hopen]
    exact ⟨rfl, ih.2⟩
  | ending hcloses _ ih =>
    rw [split_open (isOpen_cons (by decide) _), split_open (isOpen_cons (by decide) _),
      split_open (isOpen_cons (by decide) _), markupFrom_ending hcloses, map_write_modifyHead, ih.1,
      scan_open (isOpen_cons (by decide) _), scan_open (isOpen_cons (by decide) _),
      scan_open (isOpen_cons (by decide) _), scan_open (isOpen_cons (by decide) _),
      scan_open (isOpen_cons (by decide) _)]
    simp only [List.modifyHead_modifyHead]
    exact ⟨rfl, ih.2⟩

end Spaced

-- ---------------------------------------------------------------------------
-- The style of the result
-- ---------------------------------------------------------------------------

def compactEnds (before : Option Char) (cs : List Char) : Nat :=
  ((markupFrom before cs).map fun part => (Scanned.found part).length).sum

theorem sum_modifyHead (part : Char ⊕ Unit) (before : Option Char) (cs : List Char) :
    (((markupFrom before cs).modifyHead (part :: ·)).map fun part =>
      (Scanned.found part).length).sum =
      (Scanned.found [part]).length + compactEnds before cs := by
  obtain ⟨first, more, hparts⟩ := List.exists_cons_of_ne_nil (markupFrom_ne_nil before cs)
  have hfound : Scanned.found (part :: first) = Scanned.found [part] ++ Scanned.found first :=
    List.filterMap_append (l := [part])
  rw [compactEnds, hparts, List.modifyHead_cons, List.map_cons, List.map_cons, List.sum_cons,
    List.sum_cons, hfound,
    List.length_append, Nat.add_assoc]

theorem compactEnds_sealed (h : IsSealed s) (before : Option Char) (cs : List Char) :
    compactEnds before (s ++ cs) = compactEnds none cs := by
  rw [compactEnds, markupFrom_sealed h]
  exact Nat.zero_add _

theorem compactEnds_char (hopen : IsOpen (c :: cs))
    (hends : closes before = true → ¬ ['/', '>'] <+: c :: cs) :
    compactEnds before (c :: cs) = compactEnds (some c) cs := by
  rw [compactEnds, markupFrom_char hopen hends, sum_modifyHead]
  exact Nat.zero_add _

theorem compactEnds_ending (h : closes before = true) (cs : List Char) :
    compactEnds before ('/' :: '>' :: cs) = 1 + compactEnds (some '>') cs := by
  rw [compactEnds, markupFrom_ending h, sum_modifyHead]
  rfl

theorem Spaced.length_eq (h : Spaced before cs ds) :
    ds.length = cs.length + compactEnds before cs := by
  induction h with
  | nil => rfl
  | sealed hs _ ih =>
    rw [List.length_append, List.length_append, ih, compactEnds_sealed hs, Nat.add_assoc]
  | char hopen hends _ ih =>
    rw [List.length_cons, List.length_cons, ih, compactEnds_char hopen hends, Nat.add_right_comm]
  | ending hcloses _ ih =>
    simp only [List.length_cons, ih, compactEnds_ending hcloses]
    omega

theorem foldl_total (f : List Char → Nat) (parts : List (List Char)) :
    parts.foldl (fun total part => total + f part) 0 = (parts.map f).sum := by
  rw [List.sum_eq_foldl, List.foldl_map]

theorem infix_write (render : α → List Char) {scanned : Scanned α} (h : scanned.found ≠ []) :
    ∃ x ∈ scanned.found, render x <:+: scanned.write render := by
  obtain ⟨x, hx⟩ := List.exists_mem_of_ne_nil _ h
  obtain ⟨part, hpart, hright⟩ := List.mem_filterMap.mp hx
  obtain rfl := Sum.getRight?_eq_some_iff.mp hright
  obtain ⟨first, second, rfl⟩ := List.append_of_mem hpart
  exact ⟨x, hx, Scanned.write render first, Scanned.write render second, by simp [Scanned.write]⟩

/-- A text with spaces in front of ends that had none has the style of those ends. -/
theorem Spaced.tagStyle_eq (h : Spaced none cs ds) (hne : ds ≠ cs) :
    tagStyle (String.ofList ds) = spacedTag := by
  have hcompact : ((scan opaquePart ds).split.map fun part =>
      (scan compactEnd part).found.length).sum = 0 := by
    have hlength := h.again.length_eq
    rw [compactEnds, markupFrom, scanParts_none, List.map_map] at hlength
    exact Nat.left_eq_add.mp hlength
  have hspaced : ((scan opaquePart ds).split.map (countOf spacedTag.toList)).sum ≠ 0 := by
    intro hnone
    have hparts : ∀ part ∈ markupFrom none cs, part.found = [] := by
      intro part hpart
      by_contra hfound
      obtain ⟨_, -, hinfix⟩ := infix_write (fun _ => spacedTag.toList) hfound
      refine Nat.ne_of_gt (countOf_pos (by decide) hinfix) (List.sum_eq_zero_iff.mp hnone _ ?_)
      rw [h.scan_eq.1]
      exact List.mem_map_of_mem (List.mem_map_of_mem hpart)
    have hzero : compactEnds none cs = 0 := by
      refine List.sum_eq_zero_iff.mpr fun n hn => ?_
      obtain ⟨part, hpart, rfl⟩ := List.mem_map.mp hn
      rw [hparts part hpart]
      rfl
    exact hne (h.thins.eq_of_length (by rw [h.length_eq, hzero, Nat.add_zero])).symm
  rw [tagStyle, String.toList_ofList, foldl_total, foldl_total, hcompact,
    if_pos (Nat.pos_of_ne_zero hspaced)]

end DocMerge.Xml

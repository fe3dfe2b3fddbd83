import DocMerge.Proofs.Trees
import DocMerge.Xml.Style

/-!
# How markup is scanned and styled

What is printed consists of pieces: characters, sealed parts that are passed over, and the ends of
empty elements. No two pieces make up the mark of another kind where they meet, which is a matter of
the character before each of them. So a scan of the whole finds the pieces again.
-/

namespace DocMerge.Text

theorem Scanned.split_ne_nil (scanned : Scanned α) : scanned.split ≠ [] := by
  induction scanned with
  | nil => simp [split]
  | cons part scanned ih =>
    cases part with
    | inl c =>
      rw [split]
      cases split scanned <;> simp [consFirst]
    | inr m => simp [split]

theorem Scanned.split_inl (cs : List Char) (scanned : Scanned α) :
    split (cs.map .inl ++ scanned) = scanned.split.modifyHead (cs ++ ·) := by
  have hne := split_ne_nil scanned
  induction cs with
  | nil => cases h : split scanned <;> simp [h]
  | cons c cs ih =>
    rw [List.map_cons, List.cons_append, split, ih]
    cases h : split scanned with
    | nil => exact absurd h hne
    | cons text texts => rfl

theorem Scanned.found_inl (cs : List Char) (scanned : Scanned α) :
    found (cs.map .inl ++ scanned) = scanned.found := by
  induction cs with
  | nil => rfl
  | cons c cs ih => exact ih

end DocMerge.Text

namespace DocMerge.Xml

open Text

-- ---------------------------------------------------------------------------
-- Sealed parts
-- ---------------------------------------------------------------------------

def seals : List (List Char × List Char) :=
  [(sectionStart, sectionEnd), (['<', '!', '-', '-'], ['-', '-', '>']), (['<', '?'], ['?', '>'])]

def IsEnclosed (start stop s : List Char) : Prop :=
  ∃ body, s = start ++ body ++ stop ∧ EndsAt stop body

def IsSealed (s : List Char) : Prop := ∃ marks ∈ seals, IsEnclosed marks.1 marks.2 s

theorem enclosed_eq_none {before : Option Char} (h : dropStart? start.toList cs = none) :
    enclosed start stop before cs = none := by
  simp [enclosed, h]

theorem enclosed_eq_some (start stop : String) (before : Option Char) (h : EndsAt stop.toList body)
    (cs : List Char) :
    enclosed start stop before (start.toList ++ body ++ stop.toList ++ cs) =
      some (start.toList ++ body ++ stop.toList, cs) := by
  have hdrop : dropStart? start.toList (start.toList ++ body ++ stop.toList ++ cs) =
      some (body ++ stop.toList ++ cs) := by
    rw [List.append_assoc, List.append_assoc, ← List.append_assoc body]
    exact dropStart?_append _ _
  simp only [enclosed, hdrop, cutAt?_append h cs, Option.bind_eq_bind, Option.bind_some]

theorem opaquePart_eq_none (before : Option Char)
    (h : c ≠ '<' ∨ ∀ d ∈ cs.head?, d ≠ '!' ∧ d ≠ '?') :
    opaquePart before (c :: cs) = none := by
  have hdrop : ∀ d start, d = '!' ∨ d = '?' → dropStart? ('<' :: d :: start) (c :: cs) = none := by
    intro d start hd
    rw [dropStart?]
    split
    · rename_i hc
      cases cs with
      | nil => rfl
      | cons e cs =>
        have he : d ≠ e := by
          rintro rfl
          rcases h with h | h
          · exact h hc.symm
          · rcases hd with rfl | rfl
            · exact (h _ rfl).1 rfl
            · exact (h _ rfl).2 rfl
        rw [dropStart?, if_neg he]
    · rfl
  have hsection : enclosed "<![CDATA[" "]]>" before (c :: cs) = none :=
    enclosed_eq_none (hdrop '!' _ (.inl rfl))
  have hcomment : enclosed "<!--" "-->" before (c :: cs) = none :=
    enclosed_eq_none (hdrop '!' _ (.inl rfl))
  have hinstruction : enclosed "<?" "?>" before (c :: cs) = none :=
    enclosed_eq_none (hdrop '?' _ (.inr rfl))
  simp [opaquePart, hsection, hcomment, hinstruction]

theorem opaquePart_eq_some (before : Option Char) (h : IsSealed s) (cs : List Char) :
    opaquePart before (s ++ cs) = some (s, cs) := by
  obtain ⟨marks, hmarks, body, rfl, hends⟩ := h
  simp only [seals, List.mem_cons, List.not_mem_nil, or_false] at hmarks
  rcases hmarks with rfl | rfl | rfl
  · have hsection : enclosed "<![CDATA[" "]]>" before (sectionStart ++ body ++ sectionEnd ++ cs) =
        some (sectionStart ++ body ++ sectionEnd, cs) :=
      enclosed_eq_some "<![CDATA[" "]]>" before hends cs
    simp only [opaquePart, hsection, Option.some_or]
  · have hsection : enclosed "<![CDATA[" "]]>" before
        (['<', '!', '-', '-'] ++ body ++ ['-', '-', '>'] ++ cs) =
        none := enclosed_eq_none rfl
    have hcomment : enclosed "<!--" "-->" before
        (['<', '!', '-', '-'] ++ body ++ ['-', '-', '>'] ++ cs) =
        some (['<', '!', '-', '-'] ++ body ++ ['-', '-', '>'], cs) :=
      enclosed_eq_some "<!--" "-->" before hends cs
    simp only [opaquePart, hsection, hcomment, Option.none_or, Option.some_or]
  · have hsection : enclosed "<![CDATA[" "]]>" before
        (['<', '?'] ++ body ++ ['?', '>'] ++ cs) = none :=
      enclosed_eq_none rfl
    have hcomment : enclosed "<!--" "-->" before (['<', '?'] ++ body ++ ['?', '>'] ++ cs) = none :=
      enclosed_eq_none rfl
    have hinstruction : enclosed "<?" "?>" before (['<', '?'] ++ body ++ ['?', '>'] ++ cs) =
        some (['<', '?'] ++ body ++ ['?', '>'], cs) := enclosed_eq_some "<?" "?>" before hends cs
    simp only [opaquePart, hsection, hcomment, hinstruction, Option.none_or]

theorem IsSealed.eq_cons (h : IsSealed s) : ∃ cs, s = '<' :: cs := by
  obtain ⟨marks, hmarks, body, rfl, -⟩ := h
  simp only [seals, List.mem_cons, List.not_mem_nil, or_false] at hmarks
  rcases hmarks with rfl | rfl | rfl <;> exact ⟨_, rfl⟩

-- ---------------------------------------------------------------------------
-- Pieces
-- ---------------------------------------------------------------------------

inductive Piece
  | char (c : Char)
  | sealed (s : List Char)
  /-- The end of an empty element, which can be written in several ways. -/
  | ending

def AreEndings (ending : Option Char → List Char) : Prop := ∀ before, IsTagEnd (ending before) true

namespace Piece

def after : Option Char → List Piece → Option Char
  | before, [] => before
  | _, .char c :: rest => after (some c) rest
  | _, .sealed _ :: rest => after none rest
  | _, .ending :: rest => after (some '>') rest

def Fit : Option Char → List Piece → Prop
  | _, [] => True
  | before, .char c :: rest =>
    (c = '>' → before ≠ some '/') ∧ (c = '!' ∨ c = '?' → before ≠ some '<') ∧ Fit (some c) rest
  | _, .sealed s :: rest => IsSealed s ∧ Fit none rest
  | before, .ending :: rest => before ≠ some '/' ∧ before ≠ some ' ' ∧ Fit (some '>') rest

variable (ending : Option Char → List Char)

def write : Option Char → List Piece → List Char
  | _, [] => []
  | _, .char c :: rest => c :: write (some c) rest
  | _, .sealed s :: rest => s ++ write none rest
  | before, .ending :: rest => ending before ++ write (some '>') rest

theorem after_append (before : Option Char) (first second : List Piece) :
    after before (first ++ second) = after (after before first) second := by
  induction first generalizing before with
  | nil => rfl
  | cons p first ih => cases p <;> exact ih _

theorem fit_append {before : Option Char} {first second : List Piece} :
    Fit before (first ++ second) ↔ Fit before first ∧ Fit (after before first) second := by
  induction first generalizing before with
  | nil => simp [Fit, after]
  | cons p first ih => cases p <;> simp [Fit, after, ih, and_assoc]

theorem write_append (before : Option Char) (first second : List Piece) :
    write ending before (first ++ second) =
      write ending before first ++ write ending (after before first) second := by
  induction first generalizing before with
  | nil => rfl
  | cons p first ih => cases p <;> simp [write, after, ih]

@[simp] theorem write_chars (before : Option Char) (cs : List Char) :
    write ending before (cs.map .char) = cs := by
  induction cs generalizing before with
  | nil => rfl
  | cons c cs ih => simp [write, ih]

def parts (char : Char → α) (ending : Option Char → List α) :
    Option Char → List Piece → List (List α)
  | _, [] => [[]]
  | _, .char c :: rest => (parts char ending (some c) rest).modifyHead (char c :: ·)
  | _, .sealed _ :: rest => [] :: parts char ending none rest
  | before, .ending :: rest => (parts char ending (some '>') rest).modifyHead (ending before ++ ·)

def sealedParts : List Piece → List (List Char)
  | [] => []
  | .sealed s :: rest => s :: sealedParts rest
  | _ :: rest => sealedParts rest

def count (weight : Option Char → Nat) : Option Char → List Piece → Nat
  | _, [] => 0
  | _, .char c :: rest => count weight (some c) rest
  | _, .sealed _ :: rest => count weight none rest
  | before, .ending :: rest => weight before + count weight (some '>') rest

theorem parts_ne_nil (char : Char → α) (ending : Option Char → List α) (before : Option Char)
    (pieces : List Piece) : parts char ending before pieces ≠ [] := by
  induction pieces generalizing before with
  | nil => simp [parts]
  | cons p pieces ih => cases p <;> simp [parts, ih]

theorem weave_modifyHead (first : List Char) {texts : List (List Char)} (h : texts ≠ [])
    (more : List (List Char)) : weave (texts.modifyHead (first ++ ·)) more = first ++
    weave texts more := by
  cases texts with
  | nil => exact absurd rfl h
  | cons text texts => cases more <;> simp [weave]

theorem weave_parts (before : Option Char) (pieces : List Piece) :
    weave (parts id ending before pieces) (sealedParts pieces) = write ending before pieces := by
  induction pieces generalizing before with
  | nil => rfl
  | cons p pieces ih =>
    cases p with
    | char c =>
      have hhead := weave_modifyHead [c] (parts_ne_nil id ending (some c) pieces)
        (sealedParts pieces)
      rw [ih] at hhead
      exact hhead
    | sealed s => simp [parts, sealedParts, weave, write, ih]
    | ending =>
      have hhead := weave_modifyHead (ending before) (parts_ne_nil id ending (some '>') pieces)
        (sealedParts pieces)
      rw [ih] at hhead
      exact hhead

-- ---------------------------------------------------------------------------
-- Sealed parts are found again
-- ---------------------------------------------------------------------------

theorem head?_write {ending : Option Char → List Char} (hending : AreEndings ending)
    (h : Fit (some '<') pieces) :
    ∀ d ∈ (write ending (some '<') pieces).head?, d ≠ '!' ∧ d ≠ '?' := by
  cases pieces with
  | nil => simp [write]
  | cons p pieces =>
    cases p with
    | char c =>
      rintro _ ⟨rfl⟩
      exact ⟨fun hc => h.2.1 (.inl hc) rfl, fun hc => h.2.1 (.inr hc) rfl⟩
    | sealed s =>
      obtain ⟨cs, rfl⟩ := h.1.eq_cons
      rintro _ ⟨rfl⟩
      decide
    | ending =>
      have hend := hending (some '<')
      rw [write]
      generalize ending (some '<') = stop at hend
      cases hend <;> rintro _ ⟨rfl⟩ <;> decide

theorem scanFrom_opaquePart {ending : Option Char → List Char} (hending : AreEndings ending)
    (h : Fit before pieces) (x : Option Char) :
    (scanFrom opaquePart 0 x (write ending before pieces)).split = parts id ending before pieces ∧
      (scanFrom opaquePart 0 x (write ending before pieces)).found = sealedParts pieces := by
  induction pieces generalizing before x with
  | nil => exact ⟨rfl, rfl⟩
  | cons p pieces ih =>
    cases p with
    | char c =>
      obtain ⟨hsplit, hfound⟩ := ih h.2.2 (some c)
      have hnone : opaquePart x (c :: write ending (some c) pieces) = none := by
        refine opaquePart_eq_none x ?_
        by_cases hc : c = '<'
        · subst hc
          exact .inr (head?_write hending h.2.2)
        · exact .inl hc
      rw [write, scanFrom_cons_of_none hnone]
      refine ⟨?_, hfound⟩
      have hcons := Scanned.split_inl [c]
        (scanFrom opaquePart 0 (some c) (write ending (some c) pieces))
      rw [hsplit] at hcons
      exact hcons
    | sealed s =>
      have hne : s ≠ [] := by
        obtain ⟨cs, rfl⟩ := h.1.eq_cons
        simp
      obtain ⟨x', hscan⟩ :=
        scanFrom_append_of_some hne (opaquePart_eq_some x h.1 (write ending none pieces))
      obtain ⟨hsplit, hfound⟩ := ih h.2 x'
      rw [write, hscan]
      exact ⟨by rw [Scanned.split, hsplit, parts], by rw [sealedParts, ← hfound]; rfl⟩
    | ending =>
      have hplain : ∀ c ∈ ending before, ∀ x cs, opaquePart x (c :: cs) = none := by
        intro c hc x cs
        refine opaquePart_eq_none x (.inl ?_)
        rintro rfl
        exact absurd ((hending before).mem _ hc) (by decide)
      obtain ⟨x', hscan⟩ := scanFrom_append_of_none hplain x (write ending (some '>') pieces)
      obtain ⟨hsplit, hfound⟩ := ih h.2.2 x'
      rw [write, hscan]
      exact ⟨by rw [Scanned.split_inl, hsplit, parts],
        by rw [Scanned.found_inl, hfound, sealedParts]; simp⟩

-- ---------------------------------------------------------------------------
-- Ends of empty elements are found again
-- ---------------------------------------------------------------------------

/-- A pattern that finds nothing but ends of empty elements, and what it finds of one. -/
structure Finds (pattern : Pattern α) (ending : Option Char → List Char)
    (found : Option Char → Scanned α) : Prop where
  plain : ∀ before c cs, dropStart? ['/', '>'] (c :: cs) = none →
    dropStart? [' ', '/', '>'] (c :: cs) = none →
    pattern before (c :: cs) = none
  atEnd : ∀ before cs, before ≠ some '/' → before ≠ some ' ' →
    scanFrom pattern 0 before (ending before ++ cs) = found before ++
    scanFrom pattern 0 (some '>') cs

def scanParts (pattern : Pattern α) (before : Option Char) : List (List Char) → List (Scanned α)
  | [] => []
  | first :: more => scanFrom pattern 0 before first :: more.map (scan pattern)

theorem scanParts_none (pattern : Pattern α) (texts : List (List Char)) :
    scanParts pattern none texts = texts.map (scan pattern) := by
  cases texts <;> rfl

variable {ending : Option Char → List Char} {before : Option Char} {pieces : List Piece}

theorem Fit.no_compact_end (h : Fit (some c) pieces)
    (hparts : parts id ending (some c) pieces = first :: more) :
    dropStart? ['/', '>'] (c :: first) = none := by
  by_cases hc : c = '/'
  · subst hc
    cases pieces with
    | nil =>
      obtain ⟨rfl, -⟩ := List.cons.inj hparts
      rfl
    | cons p pieces =>
      cases p with
      | char d =>
        obtain ⟨text, texts, hrest⟩ :=
          List.exists_cons_of_ne_nil (parts_ne_nil id ending (some d) pieces)
        rw [parts, hrest] at hparts
        obtain ⟨rfl, -⟩ := List.cons.inj hparts
        have hd : d ≠ '>' := fun hd => h.1 hd rfl
        simp [dropStart?, Ne.symm hd]
      | sealed s =>
        obtain ⟨rfl, -⟩ := List.cons.inj hparts
        rfl
      | ending => exact absurd rfl h.1
  · simp [dropStart?, Ne.symm hc]

theorem Fit.no_spaced_end (h : Fit (some c) pieces)
    (hparts : parts id ending (some c) pieces = first :: more) :
    dropStart? [' ', '/', '>'] (c :: first) = none := by
  by_cases hc : c = ' '
  · subst hc
    cases pieces with
    | nil =>
      obtain ⟨rfl, -⟩ := List.cons.inj hparts
      rfl
    | cons p pieces =>
      cases p with
      | char d =>
        obtain ⟨text, texts, hrest⟩ :=
          List.exists_cons_of_ne_nil (parts_ne_nil id ending (some d) pieces)
        rw [parts, hrest] at hparts
        obtain ⟨rfl, -⟩ := List.cons.inj hparts
        exact Fit.no_compact_end h.2.2 hrest
      | sealed s =>
        obtain ⟨rfl, -⟩ := List.cons.inj hparts
        rfl
      | ending => exact absurd rfl h.2.1
  · simp [dropStart?, Ne.symm hc]

theorem Finds.scanParts {pattern : Pattern α} (hfinds : Finds pattern ending found)
    (h : Fit before pieces) :
    Piece.scanParts pattern before (parts id ending before pieces) =
    parts .inl found before pieces := by
  induction pieces generalizing before with
  | nil => rfl
  | cons p pieces ih =>
    cases p with
    | char c =>
      have hrest := ih h.2.2
      obtain ⟨first, more, hparts⟩ :=
        List.exists_cons_of_ne_nil (parts_ne_nil id ending (some c) pieces)
      have hnone : pattern before (c :: first) = none :=
        hfinds.plain before c first (Fit.no_compact_end h.2.2 hparts)
          (Fit.no_spaced_end h.2.2 hparts)
      rw [parts, parts, ← hrest, hparts]
      simp [Piece.scanParts, scanFrom_cons_of_none hnone]
    | sealed s =>
      have hrest := ih h.2
      rw [scanParts_none] at hrest
      rw [parts, parts, ← hrest]
      rfl
    | ending =>
      have hrest := ih h.2.2
      obtain ⟨first, more, hparts⟩ :=
        List.exists_cons_of_ne_nil (parts_ne_nil id ending (some '>') pieces)
      rw [parts, parts, ← hrest, hparts]
      simp [Piece.scanParts, hfinds.atEnd before first h.1 h.2.1]

theorem Finds.scan_split {pattern : Pattern α} (hending : AreEndings ending)
    (hfinds : Finds pattern ending found) (h : Fit none pieces) :
    (scan opaquePart (write ending none pieces)).split.map (scan pattern) =
    parts .inl found none pieces := by
  rw [scan, (scanFrom_opaquePart hending h none).1, ← scanParts_none, hfinds.scanParts h]

theorem parts_write (render : α → List Char) (found : Option Char → Scanned α)
    (before : Option Char)
    (pieces : List Piece) :
    (parts .inl found before pieces).map (Scanned.write render) =
      parts id (fun before => (found before).write render) before pieces := by
  have hhead : ∀ (first : Scanned α) (more : List (Scanned α)),
      (more.modifyHead (first ++ ·)).map (Scanned.write render) =
        (more.map (Scanned.write render)).modifyHead (first.write render ++ ·) := by
    rintro first (_ | ⟨second, more⟩)
    · rfl
    · simp [Scanned.write_append]
  induction pieces generalizing before with
  | nil => rfl
  | cons p pieces ih =>
    cases p with
    | char c =>
      have hcons := hhead [.inl c] (parts .inl found (some c) pieces)
      rw [ih] at hcons
      exact hcons
    | sealed s => simp [parts, ih, Scanned.write]
    | ending => rw [parts, parts, hhead, ih]

theorem parts_count (found : Option Char → Scanned α) (before : Option Char) (pieces : List Piece)
    (total : Nat) :
    (parts .inl found before pieces).foldl
        (fun total scanned => total + (Scanned.found scanned).length) total =
      total + count (fun before => (found before).found.length) before pieces := by
  have hhead : ∀ (first : Scanned α) {more : List (Scanned α)} (total : Nat), more ≠ [] →
      (more.modifyHead (first ++ ·)).foldl
          (fun total scanned => total + (Scanned.found scanned).length) total =
        more.foldl (fun total scanned => total + (Scanned.found scanned).length)
          (total + (Scanned.found first).length) := by
    rintro first (_ | ⟨second, more⟩) total hne
    · exact absurd rfl hne
    · simp [Scanned.found, List.filterMap_append, Nat.add_assoc]
  induction pieces generalizing before total with
  | nil => rfl
  | cons p pieces ih =>
    cases p with
    | char c =>
      have hcons := hhead [.inl c] total (parts_ne_nil .inl found (some c) pieces)
      rw [ih] at hcons
      exact hcons
    | sealed s =>
      rw [parts, count, List.foldl_cons, ih]
      rfl
    | ending => rw [parts, count, hhead _ _ (parts_ne_nil .inl found _ pieces), ih, Nat.add_assoc]

def closes (before : Option Char) : Bool := before.any fun c => !(isBlank c || c == '/')

/-- The ends of empty elements in a style. Behind a blank that belongs to a name the end stays as it
is. -/
def endingOf (style : List Char) (before : Option Char) : List Char :=
  if closes before then style else ['/', '>']

theorem compactEnd_eq (before : Option Char) (cs : List Char) :
    compactEnd before cs = if closes before then (dropStart? ['/', '>'] cs).map
      ((), ·) else none := by
  cases before with
  | none => rfl
  | some c =>
    simp only [compactEnd, closes, Option.bind_eq_bind, Option.bind_some, Option.any_some]
    by_cases h : (isBlank c || c == '/') = true
    · simp [h]
    · simp only [h, Bool.not_false, if_true]
      cases dropStart? ['/', '>'] cs <;> rfl

theorem scanFrom_plain_end {pattern : Pattern α} (hslash : pattern before ('/' :: '>' :: cs) = none)
    (hclose : pattern (some '/') ('>' :: cs) = none) :
    scanFrom pattern 0 before ('/' :: '>' :: cs) =
      [.inl '/', .inl '>'] ++ scanFrom pattern 0 (some '>') cs := by
  rw [scanFrom_cons_of_none hslash, scanFrom_cons_of_none hclose]
  rfl

def compactFound (before : Option Char) : Scanned Unit :=
  if closes before then [.inr ()] else [.inl '/', .inl '>']

theorem finds_compact : Finds compactEnd (endingOf ['/', '>']) compactFound where
  plain before c cs h _ := by simp [compactEnd_eq, h]
  atEnd before cs _ _ := by
    have htext : endingOf ['/', '>'] before ++ cs = '/' :: '>' :: cs := by simp [endingOf]
    rw [htext, compactFound]
    by_cases hcloses : closes before = true
    · have hfound : compactEnd before ('/' :: '>' :: cs) = some ((), cs) := by
        simp [compactEnd_eq, hcloses, dropStart?]
      simp [scanFrom, hfound, hcloses]
    · rw [if_neg hcloses]
      exact scanFrom_plain_end (by simp [compactEnd_eq, hcloses])
        (by simp [compactEnd_eq, dropStart?])

theorem finds_no_compact :
    Finds compactEnd (endingOf [' ', '/', '>']) fun before =>
      (endingOf [' ', '/', '>'] before).map .inl where
  plain before c cs h _ := by simp [compactEnd_eq, h]
  atEnd before cs _ _ := by
    rw [endingOf]
    by_cases hcloses : closes before = true
    · have hspace : compactEnd before (' ' :: '/' :: '>' :: cs) = none := by
        simp [compactEnd_eq, dropStart?]
      have hslash : compactEnd (some ' ') ('/' :: '>' :: cs) = none := by
        have hblank : closes (some ' ') = false := by decide
        simp [compactEnd_eq, hblank]
      rw [if_pos hcloses]
      simp only [List.cons_append, List.nil_append]
      rw [scanFrom_cons_of_none hspace,
        scanFrom_plain_end hslash (by simp [compactEnd_eq, dropStart?])]
      rfl
    · rw [if_neg hcloses]
      exact scanFrom_plain_end (by simp [compactEnd_eq, hcloses])
        (by simp [compactEnd_eq, dropStart?])

theorem finds_spaced :
    Finds (fixed [' ', '/', '>'] ()) (endingOf [' ', '/', '>']) compactFound where
  plain before c cs _ h := by simp [fixed, h]
  atEnd before cs _ _ := by
    rw [endingOf, compactFound]
    by_cases hcloses : closes before = true
    · have hfound : fixed [' ', '/', '>'] () before (' ' :: '/' :: '>' :: cs) = some ((), cs) := by
        simp [fixed, dropStart?]
      have hskip : cs.length + 1 + 1 - cs.length = 2 := by omega
      rw [if_pos hcloses, if_pos hcloses]
      simp [scanFrom, hfound, hskip]
    · rw [if_neg hcloses, if_neg hcloses]
      exact scanFrom_plain_end (by simp [fixed, dropStart?]) (by simp [fixed, dropStart?])

theorem finds_no_spaced :
    Finds (fixed [' ', '/', '>'] ()) (endingOf ['/', '>']) fun _ => [.inl '/', .inl '>'] where
  plain before c cs _ h := by simp [fixed, h]
  atEnd before cs _ _ := by
    have htext : endingOf ['/', '>'] before ++ cs = '/' :: '>' :: cs := by simp [endingOf]
    rw [htext]
    exact scanFrom_plain_end (by simp [fixed, dropStart?]) (by simp [fixed, dropStart?])

theorem areEndings_endingOf (h : IsTagEnd style true) : AreEndings (endingOf style) := by
  intro before
  unfold endingOf
  split
  · exact h
  · exact .compact

def endings (pieces : List Piece) :
    Nat := count (fun before => if closes before then 1 else 0) none pieces

/-- How often a pattern is found between the sealed parts. -/
theorem Finds.total {pattern : Pattern α} (hending : AreEndings ending)
    (hfinds : Finds pattern ending found) (h : Fit none pieces)
    (hweight : ∀ before, (Scanned.found (found before)).length = weight before) :
    (scan opaquePart (write ending none pieces)).split.foldl
        (fun total part => total + (scan pattern part).found.length) 0 =
      count weight none pieces := by
  obtain rfl : (fun before => (Scanned.found (found before)).length) = weight := funext hweight
  have hcount := parts_count found none pieces 0
  rwa [Nat.zero_add, ← hfinds.scan_split hending h, List.foldl_map] at hcount

theorem count_zero (before : Option Char) (pieces : List Piece) :
    count (fun _ => 0) before pieces = 0 := by
  induction pieces generalizing before with
  | nil => rfl
  | cons p pieces ih => cases p <;> simp [count, ih]

theorem compactFound_length (before : Option Char) :
    (Scanned.found (compactFound before)).length = if closes before then 1 else 0 := by
  unfold compactFound
  split <;> rfl

theorem tagStyle_compact (h : Fit none pieces) :
    tagStyle (String.ofList (write (endingOf ['/', '>']) none pieces)) = compactTag := by
  have hspaced := finds_no_spaced.total (areEndings_endingOf .compact) h fun before => (rfl : _ = 0)
  have hmark : spacedTag.toList = [' ', '/', '>'] := rfl
  simp only [tagStyle, String.toList_ofList, countOf, hmark]
  rw [hspaced, count_zero, if_neg (Nat.not_lt_zero _)]

theorem tagStyle_spaced (h : Fit none pieces) :
    tagStyle (String.ofList (write (endingOf [' ', '/', '>']) none pieces)) =
      if 0 < endings pieces then spacedTag else compactTag := by
  have hspaced := finds_spaced.total (areEndings_endingOf .spaced) h compactFound_length
  have hcompact := finds_no_compact.total (areEndings_endingOf .spaced) h fun before =>
    (by simp [Scanned.found] : _ = 0)
  have hmark : spacedTag.toList = [' ', '/', '>'] := rfl
  simp only [tagStyle, String.toList_ofList, countOf, hmark]
  rw [hspaced, hcompact, count_zero]
  rfl

theorem write_of_endings (before : Option Char)
    (h : count (fun before => if closes before then 1 else 0) before pieces = 0)
    (style : List Char) :
    write (endingOf style) before pieces = write (endingOf ['/', '>']) before pieces := by
  induction pieces generalizing before with
  | nil => rfl
  | cons p pieces ih =>
    cases p with
    | char c => rw [write, write, ih _ h]
    | sealed s => rw [write, write, ih _ h]
    | ending =>
      obtain ⟨hcloses, hrest⟩ := Nat.add_eq_zero_iff.mp h
      have hnot : closes before = false := by simpa using hcloses
      rw [write, write, ih _ hrest, endingOf, endingOf, hnot]
      rfl

theorem restyle_write (h : Fit none pieces) (style : String) :
    restyle style (String.ofList (write (endingOf ['/', '>']) none pieces)) =
      String.ofList (write (endingOf style.toList) none pieces) := by
  unfold restyle
  split
  · rename_i hstyle
    have hmark : style.toList = ['/', '>'] := by
      rw [beq_iff_eq.mp hstyle]
      rfl
    rw [hmark]
  · have hfound : (scan opaquePart (write (endingOf ['/', '>']) none pieces)).found =
        sealedParts pieces :=
      (scanFrom_opaquePart (areEndings_endingOf .compact) h none).2
    have hsplit := finds_compact.scan_split (areEndings_endingOf .compact) h
    have hrestyle : restyleMarkup style = Scanned.write
        (fun _ => style.toList) ∘ scan compactEnd := rfl
    have hends : (fun before => (compactFound before).write fun _ => style.toList) =
        endingOf style.toList := by
      funext before
      unfold compactFound endingOf
      split <;> simp [Scanned.write]
    simp only [String.toList_ofList]
    rw [hfound, hrestyle, ← List.map_map, hsplit, parts_write, hends, weave_parts]

end Piece

-- ---------------------------------------------------------------------------
-- Printed trees as pieces
-- ---------------------------------------------------------------------------

theorem isSealed_section (h : EndsAt sectionEnd s) : IsSealed (sectionStart ++ s ++ sectionEnd) :=
  ⟨_, List.mem_cons_self, s, rfl, h⟩

theorem isSealed_comment (h : IsComment s) : IsSealed ("<!--".toList ++ s.toList ++ "-->".toList) :=
  ⟨_, List.mem_cons_of_mem _ List.mem_cons_self, s.toList, rfl, endsAt_of_prefix h.ends ['>']⟩

theorem isEnclosed_instruction (h : IsInstruction target data) (hgap : IsGap data gap) :
    IsEnclosed ['<', '?'] ['?', '>']
      ('<' :: '?' :: (target.toList ++ gap ++ (data.getD "").toList ++ ['?', '>'])) := by
  have hname : ∀ c ∈ target.toList, c ≠ '?' := by
    have hall := h.name
    simp only [isName, Bool.and_eq_true, List.all_eq_true] at hall
    rintro c hc rfl
    exact absurd (hall.2 _ hc) (by decide)
  have hspace : ∀ c ∈ gap, c ≠ '?' := by
    rintro c hc rfl
    exact absurd (hgap.1 _ hc) (by decide)
  have hdata : EndsAt ['?', '>'] (data.getD "").toList := by
    cases data with
    | none => exact endsAt_nil _
    | some text => exact (h.data text rfl).ends
  exact ⟨target.toList ++ gap ++ (data.getD "").toList, rfl, by
    rw [List.append_assoc]
    exact endsAt_append (endsAt_append hdata hspace) hname⟩

theorem isSealed_instruction (h : IsInstruction target data) :
    IsSealed (printInstruction target data) := by
  obtain ⟨gap, hgap, hprint⟩ := printInstruction_eq target data
  rw [hprint]
  exact ⟨_, List.mem_cons_of_mem _ (List.mem_cons_of_mem _ List.mem_cons_self),
    isEnclosed_instruction h hgap⟩

namespace Piece

theorem after_chars (before : Option Char) (cs : List Char) :
    after before (cs.map .char) = cs.getLast?.or before := by
  induction cs generalizing before with
  | nil => rfl
  | cons c cs ih =>
    rw [List.map_cons, after, ih, List.getLast?_cons]
    cases cs.getLast? <;> rfl

theorem fit_plain {cs : List Char} (hcs : ∀ c ∈ cs, c ≠ '<' ∧ c ≠ '>')
    (hbefore : before ≠ some '<') :
    Fit before (cs.map .char) := by
  induction cs generalizing before with
  | nil => trivial
  | cons c cs ih =>
    obtain ⟨hc, hrest⟩ := List.forall_mem_cons.mp hcs
    exact ⟨fun h => absurd h hc.2, fun _ => hbefore, ih hrest (by simpa using hc.1)⟩

theorem after_plain {cs : List Char} (hcs : ∀ c ∈ cs, c ≠ '<' ∧ c ≠ '>')
    (hbefore : before ≠ some '<') :
    after before (cs.map .char) ≠ some '<' := by
  rw [after_chars]
  cases h : cs.getLast? with
  | none => simpa using hbefore
  | some c => simpa using (hcs c (List.mem_of_getLast? h)).1

end Piece

def stopOf (ending : Option Char → List Char) (tag : Tag) : List Char := ending tag.print.getLast?

theorem areTagEnds_stopOf (h : AreEndings ending) : AreTagEnds (stopOf ending) :=
  fun _ => h _

theorem getLast?_printOpening (hname : QName.IsWritten name) (attributes : List RawAttribute) :
    ∃ c, (printOpening name attributes []).getLast? = some c ∧ (isNameChar c = true ∨ c = '"') := by
  have hlast : ∀ {s : String}, isName s.toList = true →
      ∃ c, s.toList.getLast? = some c ∧ isNameChar c = true := by
    intro s hs
    simp only [isName, Bool.and_eq_true, List.all_eq_true] at hs
    obtain ⟨c, hc⟩ : ∃ c, s.toList.getLast? = some c := by
      cases h : s.toList using List.reverseRecOn with
      | nil => simp [h] at hs
      | append_singleton cs c => exact ⟨c, by simp⟩
    exact ⟨c, hc, hs.2 c (List.mem_of_getLast? hc)⟩
  rw [printOpening, List.append_nil]
  induction attributes using List.reverseRecOn with
  | nil =>
    obtain ⟨c, hc, hchar⟩ := hlast hname.localName
    refine ⟨c, ?_, .inl hchar⟩
    rw [List.flatMap_nil, List.append_nil, QName.print]
    split
    · exact hc
    · rw [List.getLast?_append, List.getLast?_cons, hc]
      rfl
  | append_singleton attributes a =>
    have hprint : ' ' :: RawAttribute.print a =
        ' ' :: (a.1.print ++ '=' :: '"' :: a.2.flatMap ValuePiece.print) ++ ['"'] := by
      simp [RawAttribute.print, Value.print]
    refine ⟨'"', ?_, .inr rfl⟩
    rw [List.flatMap_append, List.flatMap_singleton, hprint, ← List.append_assoc,
      ← List.append_assoc]
    exact List.getLast?_concat

theorem Tag.IsWritable.getLast? {t : Tag} (h : t.IsWritable) :
    ∃ c, t.print.getLast? = some c ∧ c ≠ '/' ∧ c ≠ ' ' := by
  obtain ⟨c, hc, hchar⟩ := getLast?_printOpening h.name t.raw
  rw [← t.print_append, List.append_nil] at hc
  refine ⟨c, hc, ?_, ?_⟩
  · rintro rfl
    rcases hchar with hchar | hchar
    · exact absurd hchar (by decide)
    · exact absurd hchar (by decide)
  · rintro rfl
    rcases hchar with hchar | hchar
    · exact absurd hchar (by decide)
    · exact absurd hchar (by decide)

open Piece (Fit after write fit_append after_append write_append write_chars)

structure IsDrawn (pieces : List Piece) (text : (Option Char → List Char) → List Char) : Prop where
  fit : ∀ {before}, before ≠ some '<' → Fit before pieces
  after : ∀ {before}, before ≠ some '<' → Piece.after before pieces ≠ some '<'
  write : ∀ {ending}, AreEndings ending → ∀ before, Piece.write ending before pieces = text ending

theorem IsDrawn.nil : IsDrawn [] fun _ => [] := ⟨fun _ => trivial, fun h => h, fun _ _ => rfl⟩

theorem IsDrawn.append (h : IsDrawn first text) (h' : IsDrawn second text') :
    IsDrawn (first ++ second) fun ending => text ending ++ text' ending where
  fit hbefore := fit_append.mpr ⟨h.fit hbefore, h'.fit (h.after hbefore)⟩
  after hbefore := by
    rw [after_append]
    exact h'.after (h.after hbefore)
  write hending before := by rw [write_append, h.write hending, h'.write hending]

theorem isDrawn_plain {cs : List Char} (h : ∀ c ∈ cs, c ≠ '<' ∧ c ≠ '>') :
    IsDrawn (cs.map .char) fun _ => cs where
  fit := Piece.fit_plain h
  after := Piece.after_plain h
  write _ before := write_chars _ before cs

theorem isDrawn_sealed (h : IsSealed s) : IsDrawn [.sealed s] fun _ => s where
  fit _ := ⟨h, trivial⟩
  after _ := by simp [Piece.after]
  write _ before := List.append_nil s

structure IsTagText (text : List Char) : Prop where
  inner : ∀ c ∈ text, IsInner c
  head : ∀ c ∈ text.head?, c ≠ '!' ∧ c ≠ '?'
  last : ∃ c, text.getLast? = some c ∧ c ≠ '/' ∧ c ≠ ' '

theorem IsTagText.fit (h : IsTagText text) (before : Option Char) :
    Fit before (('<' :: text).map .char) ∧ after before (('<' :: text).map .char) =
    text.getLast? := by
  constructor
  · refine ⟨by simp, by simp, ?_⟩
    cases text with
    | nil => trivial
    | cons c text =>
      obtain ⟨hc, hrest⟩ := List.forall_mem_cons.mp h.inner
      have hhead := h.head c rfl
      have hplain : ∀ d ∈ text, d ≠ '<' ∧ d ≠ '>' := fun d hd => ⟨(hrest d hd).1, (hrest d hd).2.1⟩
      refine ⟨fun heq => absurd heq hc.2.1, fun heq => ?_,
        Piece.fit_plain hplain (by simpa using hc.1)⟩
      exact absurd heq (not_or.mpr hhead)
  · obtain ⟨c, hlast, -⟩ := h.last
    rw [Piece.after_chars, List.getLast?_cons, hlast]
    rfl

theorem isDrawn_tag (h : IsTagText text) :
    IsDrawn (('<' :: text).map .char ++ [.char '>']) fun _ => '<' :: text ++ ['>'] := by
  obtain ⟨c, hlast, hslash, -⟩ := h.last
  refine ⟨fun {before} _ => fit_append.mpr ⟨(h.fit before).1, ?_⟩, fun _ => ?_, fun _ before => ?_⟩
  · rw [(h.fit before).2, hlast]
    exact ⟨fun _ => by simpa using hslash, by simp, trivial⟩
  · rw [after_append]
    simp [Piece.after]
  · rw [write_append, write_chars]
    rfl

theorem isDrawn_empty (h : IsTagText text) :
    IsDrawn (('<' :: text).map .char ++ [.ending]) fun ending =>
      '<' :: text ++ ending text.getLast? := by
  obtain ⟨c, hlast, hslash, hspace⟩ := h.last
  refine ⟨fun {before} _ => fit_append.mpr ⟨(h.fit before).1, ?_⟩, fun _ => ?_, fun _ before => ?_⟩
  · rw [(h.fit before).2, hlast]
    exact ⟨by simpa using hslash, by simpa using hspace, trivial⟩
  · rw [after_append]
    simp [Piece.after]
  · rw [write_append, write_chars, (h.fit before).2]
    simp [Piece.write]

theorem Tag.IsWritable.isTagText {t : Tag} (h : t.IsWritable) : IsTagText t.print where
  inner := h.isInner
  head := by
    obtain ⟨c, cs, hcs, hc⟩ := h.name.print_eq_cons
    have hprint := t.print_append []
    rw [List.append_nil, printOpening, hcs] at hprint
    rw [hprint]
    rintro _ ⟨rfl⟩
    exact ⟨isNameStart_ne hc (by decide), isNameStart_ne hc (by decide)⟩
  last := h.getLast?

theorem QName.IsWritten.isTagText_closing {q : QName} (h : q.IsWritten) :
    IsTagText ('/' :: q.print) where
  inner := List.forall_mem_cons.mpr ⟨⟨by decide, by decide, by decide⟩, h.isInner⟩
  head := by
    rintro _ ⟨rfl⟩
    decide
  last := by
    obtain ⟨c, hc, hchar⟩ := getLast?_printOpening h []
    rw [printOpening, List.flatMap_nil, List.append_nil, List.append_nil] at hc
    refine ⟨c, by rw [List.getLast?_cons, hc]; rfl, ?_, ?_⟩
    · rintro rfl
      rcases hchar with hchar | hchar <;> exact absurd hchar (by decide)
    · rintro rfl
      rcases hchar with hchar | hchar <;> exact absurd hchar (by decide)

theorem isDrawn_sections {parts : List (List Char)} (h : ∀ part ∈ parts, EndsAt sectionEnd part) :
    ∃ pieces, IsDrawn pieces fun _ => printSections parts := by
  induction parts with
  | nil => exact ⟨[], .nil⟩
  | cons part parts ih =>
    obtain ⟨hpart, hparts⟩ := List.forall_mem_cons.mp h
    obtain ⟨pieces, hpieces⟩ := ih hparts
    exact ⟨_, (isDrawn_sealed (isSealed_section hpart)).append hpieces⟩

theorem isDrawn_drawAll {nodes : List Node}
    (h : ∀ n ∈ nodes, ∃ pieces, IsDrawn pieces fun ending => n.draw (stopOf ending)) :
    ∃ pieces, IsDrawn pieces fun ending => Node.drawAll (stopOf ending) nodes := by
  induction nodes with
  | nil => exact ⟨[], .nil⟩
  | cons n nodes ih =>
    rw [List.forall_mem_cons] at h
    obtain ⟨first, hfirst⟩ := h.1
    obtain ⟨more, hmore⟩ := ih h.2
    exact ⟨first ++ more, hfirst.append hmore⟩

/-- A node that can be written, wherever it stands and whatever its names stand for. -/
inductive Node.IsWritable : Node → Prop
  | text (s : String) : IsWritable (.text s)
  | cdata (s : String) : IsWritable (.cdata s)
  | comment (h : IsSealed ("<!--".toList ++ s.toList ++ "-->".toList)) : IsWritable (.comment s)
  | instruction (h : IsSealed (printInstruction target data)) :
    IsWritable (.instruction target data)
  | reference (h : isName name.toList = true) : IsWritable (.reference name)
  | element (writable : tag.IsWritable) (inside : ∀ n ∈ children, IsWritable n) :
    IsWritable (.element tag children)

theorem Node.IsHeld.isWritable {n : Node} (h : n.IsHeld isOpen scope depth) : n.IsWritable := by
  induction h with
  | text => exact .text _
  | cdata => exact .cdata _
  | comment hcomment => exact .comment (isSealed_comment hcomment)
  | instruction hinstruction => exact .instruction (isSealed_instruction hinstruction)
  | reference hforeign => exact .reference hforeign.named
  | element _ htag _ _ ih => exact .element htag.isWritable ih

/-- A node is drawn as pieces in which only the ends of empty elements depend on the style. -/
theorem Node.IsWritable.isDrawn {n : Node} (h : n.IsWritable) :
    ∃ pieces, IsDrawn pieces fun ending => n.draw (stopOf ending) := by
  induction h with
  | text s =>
    refine ⟨_, isDrawn_plain fun c hc => ?_⟩
    obtain ⟨d, -, hd⟩ := List.mem_flatMap.mp hc
    exact ⟨(isInner_escapeText hd).1, (isInner_escapeText hd).2.1⟩
  | cdata s =>
    obtain ⟨first, parts, -, hends, hprint⟩ := printSection_sections s
    obtain ⟨pieces, hpieces⟩ := isDrawn_sections hends
    rw [← hprint] at hpieces
    exact ⟨pieces, hpieces⟩
  | comment hsealed => exact ⟨_, isDrawn_sealed hsealed⟩
  | instruction hsealed => exact ⟨_, isDrawn_sealed hsealed⟩
  | reference hname =>
    have hinner := isInner_printReference hname
    exact ⟨_, isDrawn_plain fun c hc => ⟨(hinner c hc).1, (hinner c hc).2.1⟩⟩
  | @element children _ htag _ ih =>
    cases children with
    | nil => exact ⟨_, isDrawn_empty htag.isTagText⟩
    | cons child children =>
      obtain ⟨inside, hinside⟩ := isDrawn_drawAll ih
      have hdrawn := ((isDrawn_tag htag.isTagText).append hinside).append
        (isDrawn_tag htag.name.isTagText_closing)
      refine ⟨_, hdrawn.fit, hdrawn.after, fun hending before =>
        (hdrawn.write hending before).trans ?_⟩
      simp [draw, drawAll]

/-- To restyle what is printed is to draw it with other ends of empty elements. -/
theorem Node.IsWritable.restyle {n : Node} {style : String} (h : n.IsWritable)
    (hstyle : IsTagEnd style.toList true) :
    Xml.restyle style (String.ofList n.print) =
    String.ofList (n.draw (stopOf (Piece.endingOf style.toList))) := by
  obtain ⟨pieces, hpieces⟩ := h.isDrawn
  have hcompact : stopOf (Piece.endingOf ['/', '>']) = fun _ => ['/', '>'] := by
    funext tag
    simp [stopOf, Piece.endingOf]
  rw [← hpieces.write (Piece.areEndings_endingOf hstyle) none,
    ← Piece.restyle_write (hpieces.fit (by simp)),
    hpieces.write (Piece.areEndings_endingOf .compact), hcompact, Node.draw_compact]

end DocMerge.Xml

import DocMerge.Proofs.Brackets
import DocMerge.Proofs.Scanning
import DocMerge.Proofs.Signatures

/-!
# What the rewritings of an identifier find

Three of them take something out: the assembly behind or in front of a type, the mark in the name of
an implementation, and the lower bounds of an array. The first two leave alone what the spellings of
a signature are written with, and the last one takes the bounds out of dimensions and nothing else.
-/

namespace DocMerge.DocId

open Text (Pattern replaceAll scanFrom Scanned isWord isNameStart isDigit digitValue?
  joinWith cutAt? dropStart?
  dropStart?_eq_some_iff isBlank)

-- ---------------------------------------------------------------------------
-- Characters
-- ---------------------------------------------------------------------------

def isPlain (c : Char) : Bool := isNameChar c || isDigit c

def typeMarks : List Char := ['.', '+', '/', ',', ':', '&', '@', '<', '>', '\x7b', '\x7d', '[', ']']

def isTypeChar (c : Char) : Bool := isPlain c || typeMarks.contains c

theorem ne_of_isPlain (h : isPlain c = true) (hd : isPlain d = false) : c ≠ d := by
  rintro rfl
  rw [h] at hd
  cases hd

theorem ne_of_isTypeChar (h : isTypeChar c = true) (hd : isTypeChar d = false) : c ≠ d := by
  rintro rfl
  rw [h] at hd
  cases hd

theorem isTypeChar_of_isPlain (h : isPlain c = true) : isTypeChar c = true := by
  rw [isTypeChar, h, Bool.true_or]

theorem isPlain_of_isDigit (h : isDigit c = true) : isPlain c = true := by
  rw [isPlain, h, Bool.or_true]

theorem Name.isPlain (name : Name) : ∀ c ∈ name.chars, isPlain c = true := fun c hc => by
  rw [DocId.isPlain, name.all c hc, Bool.true_or]

theorem mem_brackets (h : isBracket c = true) :
    c ∈ ['(', '[', '\x7b', '<', ')', ']', '\x7d', '>'] := by
  rw [isBracket, Bool.or_eq_true] at h
  rcases h with h | h
  · simp only [opens, Bool.or_eq_true, beq_iff_eq] at h
    rcases h with ((rfl | rfl) | rfl) | rfl <;> decide
  · unfold opener? at h
    split at h <;> first | decide | cases h

theorem isBracket_of_isPlain (h : isPlain c = true) : isBracket c = false := by
  have hall : ∀ d ∈ ['(', '[', '\x7b', '<', ')', ']', '\x7d', '>'], isPlain d = false := by decide
  rw [← Bool.not_eq_true]
  exact fun hbracket => ne_of_isPlain h (hall c (mem_brackets hbracket)) rfl

theorem dotted_of_isPlain (h : isPlain c = true) : dotted c = c := by
  rw [dotted, if_neg]
  simp [ne_of_isPlain h (d := '+') (by decide), ne_of_isPlain h (d := '/') (by decide)]

theorem argumentChar_of_isPlain (h : isPlain c = true) : argumentChar c = c := by
  unfold argumentChar
  split
  · exact absurd rfl (ne_of_isPlain h (by decide))
  · exact absurd rfl (ne_of_isPlain h (by decide))
  · exact absurd rfl (ne_of_isPlain h (by decide))
  · exact dotted_of_isPlain h

theorem map_eq_self {cs : List Char} {f : Char → Char} (h : ∀ c ∈ cs, f c = c) : cs.map f = cs := by
  rw [List.map_congr_left h, List.map_id']

theorem IsSeparator.dotted (h : IsSeparator c) : dotted c = '.' := by
  rcases h with rfl | rfl | rfl <;> rfl

theorem isDigit_of_range (hlow : 58 ≤ c.toNat) (hhigh : c.toNat < 128) : isDigit c = false := by
  have hdigit : c.isDigit = false := by
    simp only [Char.isDigit, ge_iff_le, UInt32.le_iff_toNat_le, Char.toNat_val,
      Bool.and_eq_false_iff,
      decide_eq_false_iff_not]
    exact .inr (Nat.not_le.mpr hlow)
  rw [isDigit, digitValue?, hdigit, if_neg Bool.false_ne_true, if_pos hhigh]
  rfl

theorem isDigit_of_isNameStart (h : isNameStart c = true) : isDigit c = false := by
  rw [isNameStart, Bool.or_eq_true, beq_iff_eq] at h
  rcases h with h | rfl
  · rcases Bool.or_eq_true_iff.mp h with hupper | hlower
    · have hrange : 'A'.toNat ≤ c.toNat ∧ c.toNat ≤ 'Z'.toNat := of_decide_eq_true hupper
      exact isDigit_of_range (Nat.le_trans (by decide) hrange.1)
        (Nat.lt_of_le_of_lt hrange.2 (by decide))
    · obtain ⟨hlow, hhigh⟩ := Bool.and_eq_true_iff.mp hlower
      have hlow : 'a'.toNat ≤ c.toNat := of_decide_eq_true hlow
      have hhigh : c.toNat ≤ 'z'.toNat := of_decide_eq_true hhigh
      exact isDigit_of_range (Nat.le_trans (by decide) hlow) (Nat.lt_of_le_of_lt hhigh (by decide))
  · decide

-- ---------------------------------------------------------------------------
-- Texts without assemblies
-- ---------------------------------------------------------------------------

theorem replaceAll_eq_self {pattern : Pattern (List Char)} (holds : List Char → Prop)
    (hstep : ∀ c rest, holds (c :: rest) → holds rest ∧ ∀ before, pattern before (c :: rest) = none)
    (h : holds cs) : replaceAll pattern cs = cs := by
  have hscan : ∀ before, scanFrom pattern 0 before cs = cs.map .inl := by
    induction cs with
    | nil => exact fun _ => rfl
    | cons c rest ih =>
      intro before
      obtain ⟨hrest, hnone⟩ := hstep c rest h
      rw [Text.scanFrom_cons_of_none (hnone before), ih hrest]
      rfl
  rw [replaceAll, Text.scan, hscan, Text.Scanned.write_plain]

theorem dropAssemblyName?_subset (h : dropAssemblyName? cs = some rest) : rest ⊆ cs := by
  cases cs with
  | nil => cases h
  | cons c more =>
    rw [dropAssemblyName?, Option.ite_none_right_eq_some] at h
    obtain ⟨-, h⟩ := h
    cases h
    exact fun d hd => List.mem_cons_of_mem c ((List.dropWhile_sublist _).subset hd)

theorem replaceAll_assemblySuffix (h : '=' ∉ cs) : replaceAll assemblySuffix cs = cs := by
  refine replaceAll_eq_self ('=' ∉ ·) (fun c rest hnot =>
    ⟨fun hmem => hnot (List.mem_cons_of_mem c hmem), ?_⟩) h
  intro before
  rw [Option.eq_none_iff_forall_ne_some]
  intro found hfound
  simp only [assemblySuffix, Option.bind_eq_bind, Option.bind_eq_some_iff,
    dropStart?_eq_some_iff] at hfound
  obtain ⟨named, hnamed, unnamed, hunnamed, versioned, rfl, -⟩ := hfound
  rw [hnamed] at hnot
  exact hnot (List.mem_append_right _ (dropAssemblyName?_subset hunnamed (by simp)))

theorem replaceAll_interfaceMark (h : '#' ∉ cs) : replaceAll interfaceMark cs = cs := by
  refine replaceAll_eq_self ('#' ∉ ·) (fun c rest hnot =>
    ⟨fun hmem => hnot (List.mem_cons_of_mem c hmem), ?_⟩) h
  intro before
  rw [Option.eq_none_iff_forall_ne_some]
  intro found hfound
  simp only [interfaceMark, Option.bind_eq_bind, Option.bind_eq_some_iff,
    dropStart?_eq_some_iff] at hfound
  obtain ⟨left, -, more, hmore, -⟩ := hfound
  rw [hmore] at hnot
  exact hnot List.mem_cons_self

def Unqualified : List Char → Prop
  | [] => True
  | c :: rest => (c = '[' → ∀ d ∈ rest.head?, isNameStart d = false) ∧ Unqualified rest

theorem unqualified_cons (hc : c ≠ '[') (h : Unqualified rest) : Unqualified (c :: rest) :=
  ⟨fun heq => absurd heq hc, h⟩

theorem unqualified_append (hall : ∀ c ∈ cs, c ≠ '[') (h : Unqualified rest) :
    Unqualified (cs ++ rest) := by
  induction cs with
  | nil => exact h
  | cons c more ih =>
    rw [List.forall_mem_cons] at hall
    exact unqualified_cons hall.1 (ih hall.2)

theorem replaceAll_assemblyBrackets (h : Unqualified cs) : replaceAll assemblyBrackets cs = cs := by
  refine replaceAll_eq_self Unqualified (fun c rest hc => ⟨hc.2, fun before => ?_⟩) h
  rw [Option.eq_none_iff_forall_ne_some]
  intro found hfound
  simp only [assemblyBrackets, Option.bind_eq_bind, Option.bind_eq_some_iff,
    dropStart?_eq_some_iff] at hfound
  obtain ⟨named, hnamed, more, hmore, -⟩ := hfound
  obtain ⟨rfl, rfl⟩ : c = '[' ∧ rest = named := by simpa using hnamed
  cases rest with
  | nil => cases hmore
  | cons d rest =>
    have hstart := hc.1 rfl d rfl
    rw [dropAssemblyName?, hstart] at hmore
    cases hmore

-- ---------------------------------------------------------------------------
-- Lower bounds
-- ---------------------------------------------------------------------------

def Unbound (cs : List Char) : Prop := cs.head? ≠ some '-' ∧ (cs.dropWhile isDigit).head? ≠ some ':'

theorem unbound_nil : Unbound [] := ⟨by simp, by simp⟩

theorem unbound_cons (hsign : c ≠ '-') (hcolon : c ≠ ':') (h : Unbound rest) :
    Unbound (c :: rest) := by
  refine ⟨by simpa using hsign, ?_⟩
  rw [List.dropWhile_cons]
  split
  · exact h.2
  · simpa using hcolon

theorem unbound_of_not_digit (hsign : c ≠ '-') (hcolon : c ≠ ':') (hdigit : isDigit c = false)
    (rest : List Char) :
    Unbound (c :: rest) := by
  refine ⟨by simpa using hsign, ?_⟩
  rw [List.dropWhile_cons, hdigit]
  simpa using hcolon

theorem dropStart?_cons_eq_none (h : cs.head? ≠ some c) : dropStart? [c] cs = none := by
  cases cs with
  | nil => rfl
  | cons d rest =>
    rw [dropStart?, if_neg]
    rintro rfl
    exact h rfl

theorem lowerBound_eq_none (h : Unbound cs) (before : Option Char) :
    lowerBound before cs = none := by
  cases before with
  | none => rfl
  | some left => simp [lowerBound, dropStart?_cons_eq_none h.1, dropStart?_cons_eq_none h.2]

/-- What stands before a place without a lower bound does not matter. -/
theorem write_scanFrom (h : Unbound cs) (before : Option Char) :
    Scanned.write id (scanFrom lowerBound 0 before cs) = replaceAll lowerBound cs := by
  cases cs with
  | nil => rfl
  | cons c rest =>
    rw [replaceAll, Text.scan, Text.scanFrom_cons_of_none (lowerBound_eq_none h before),
      Text.scanFrom_cons_of_none (lowerBound_eq_none h none)]

theorem replaceAll_lowerBound_cons (c : Char) (rest : List Char) :
    replaceAll lowerBound (c :: rest) = c :: Scanned.write id
      (scanFrom lowerBound 0 (some c) rest) := by
  rw [replaceAll, Text.scan,
    Text.scanFrom_cons_of_none (show lowerBound none (c :: rest) = none from rfl)]
  rfl

theorem Bound.write (h : Bound bound) (hleft : left = '[' ∨ left = ',')
    (hnext : next = ',' ∨ next = ']')
    (rest : List Char) :
    Scanned.write id (scanFrom lowerBound 0 (some left) (bound ++ next :: rest)) =
      replaceAll lowerBound (next :: rest) := by
  have hunbound : Unbound (next :: rest) := by
    rcases hnext with rfl | rfl <;>
      exact unbound_of_not_digit (by decide) (by decide) (by decide) rest
  cases h with
  | free => exact write_scanFrom hunbound _
  | @lower digits hne hall =>
    have hfound : lowerBound (some left) (digits ++ [':'] ++ next :: rest) =
        some ([], next :: rest) := by
      obtain ⟨d, more, rfl⟩ := List.exists_cons_of_ne_nil hne
      have hd : isDigit d = true := hall d List.mem_cons_self
      have hsign : dropStart? ['-'] (d :: more ++ [':'] ++ next :: rest) = none := by
        refine dropStart?_cons_eq_none ?_
        simpa using ne_of_isPlain (isPlain_of_isDigit hd) (by decide)
      have hdrop : (d :: more ++ [':'] ++ next :: rest).dropWhile isDigit = ':' ::
          next :: rest := by
        rw [List.append_assoc, List.dropWhile_append_of_pos hall]
        rfl
      simp only [lowerBound, hsign, Option.getD_none, hdrop, dropStart?]
      rcases hleft with rfl | rfl <;> rcases hnext with rfl | rfl <;> simp [hd]
    obtain ⟨before, hscan⟩ := Text.scanFrom_append_of_some (by simp) hfound
    rw [hscan]
    exact write_scanFrom hunbound before

theorem Dimensions.write (h : Dimensions commas text) (hleft : left = '[' ∨ left = ',')
    (rest : List Char) :
    Scanned.write id (scanFrom lowerBound 0 (some left) (text ++ ']' :: rest)) =
      List.replicate commas ',' ++ replaceAll lowerBound (']' :: rest) := by
  induction h generalizing left with
  | last hbound => exact hbound.write hleft (.inr rfl) rest
  | more hbound _ ih =>
    rw [List.append_assoc, List.cons_append, hbound.write hleft (.inl rfl),
      replaceAll_lowerBound_cons, ih (.inr rfl)]
    rfl

theorem Dimensions.chars (h : Dimensions commas text) :
    ∀ c ∈ text, isDigit c = true ∨ c = ':' ∨ c = ',' := by
  have hbound : ∀ {bound}, Bound bound → ∀ c ∈ bound, isDigit c = true ∨ c = ':' := by
    intro bound hbound c hc
    cases hbound with
    | free => cases hc
    | lower _ hall =>
      rcases List.mem_append.mp hc with hc | hc
      · exact .inl (hall c hc)
      · exact .inr (List.mem_singleton.mp hc)
  induction h with
  | last hlast => exact fun c hc => (hbound hlast c hc).imp_right .inl
  | more hfirst _ ih =>
    intro c hc
    rcases List.mem_append.mp hc with hc | hc
    · exact (hbound hfirst c hc).imp_right .inl
    · rcases List.mem_cons.mp hc with rfl | hc
      · exact .inr (.inr rfl)
      · exact ih c hc

end DocMerge.DocId

import DocMerge.Proofs.Squeezing
import DocMerge.Similarity.Score

/-!
# Blanks around an exception text

Exception texts are compared by their words. Blanks at the ends of a text have no part in that: they
have no case, belong to no tag, and are dropped in the end. So a text is as similar to others with
them as without.
-/

namespace DocMerge.Text

-- ---------------------------------------------------------------------------
-- The blanks
-- ---------------------------------------------------------------------------

def blanks : List Char :=
  [0x9, 0xA, 0xB, 0xC, 0xD, 0x1C, 0x1D, 0x1E, 0x1F, 0x20, 0x85, 0xA0, 0x1680, 0x2000, 0x2001,
    0x2002, 0x2003, 0x2004,
    0x2005, 0x2006, 0x2007, 0x2008, 0x2009, 0x200A, 0x2028, 0x2029, 0x202F, 0x205F,
    0x3000].map Char.ofNat

theorem mem_blanks (h : isBlank c = true) : c ∈ blanks := by
  refine List.mem_map.mpr ⟨c.toNat, ?_, Char.ofNat_toNat c⟩
  simp only [isBlank, Bool.or_eq_true, Bool.and_eq_true, decide_eq_true_eq, beq_iff_eq] at h
  simp only [List.mem_cons, List.not_mem_nil, or_false]
  omega

theorem caseless_blank (h : isBlank c = true) :
    c ≠ Char.ofNat 0x3A3 ∧ lowerChar c = [c] ∧ inRanges cased c.toNat = false := by
  have hall : ∀ c ∈ blanks, c ≠ Char.ofNat 0x3A3 ∧ lowerChar c = [c] ∧
      inRanges cased c.toNat = false := by
    decide +kernel
  exact hall c (mem_blanks h)

-- ---------------------------------------------------------------------------
-- Lower case
-- ---------------------------------------------------------------------------

section
variable {before after : List Char}

theorem meetsCased_append_blanks (hafter : ∀ c ∈ after, isBlank c = true) (cs : List Char) :
    meetsCased (cs ++ after) = meetsCased cs := by
  unfold meetsCased
  rw [List.find?_append]
  cases cs.find? (fun c => !inRanges caseIgnorable c.toNat) with
  | some c => rfl
  | none =>
    rw [Option.none_or]
    cases hfound : after.find? (fun c => !inRanges caseIgnorable c.toNat) with
    | none => rfl
    | some c => exact (caseless_blank (hafter c (List.mem_of_find?_eq_some hfound))).2.2

theorem lowerAfter_blanks_append (hbefore : ∀ c ∈ before, isBlank c = true) (known cs : List Char) :
    lowerAfter known (before ++ cs) = before ++ lowerAfter (before.reverse ++ known) cs := by
  induction before generalizing known with
  | nil => rfl
  | cons c before ih =>
    rw [List.forall_mem_cons] at hbefore
    obtain ⟨hsigma, hlower, -⟩ := caseless_blank hbefore.1
    rw [List.cons_append, lowerAfter, if_neg hsigma, hlower, ih hbefore.2]
    simp

/-- Whether a sigma is a final one does not depend on blanks around the text. -/
theorem lowerAfter_between (hbefore : ∀ c ∈ before, isBlank c = true)
    (hafter : ∀ c ∈ after, isBlank c = true)
    (known cs : List Char) : lowerAfter (known ++ before) (cs ++ after) =
    lowerAfter known cs ++ after := by
  induction cs generalizing known with
  | nil => simpa [lowerAfter] using lowerAfter_blanks_append hafter (known ++ before) []
  | cons c cs ih =>
    rw [List.cons_append, lowerAfter, lowerAfter, meetsCased_append_blanks hbefore,
      meetsCased_append_blanks hafter,
      ← List.cons_append, ih, List.append_assoc]

theorem lowerCase_between (hbefore : ∀ c ∈ before, isBlank c = true)
    (hafter : ∀ c ∈ after, isBlank c = true)
    (cs : List Char) : lowerCase (before ++ (cs ++ after)) = before ++ (lowerCase cs ++ after) := by
  have hreverse : ∀ c ∈ before.reverse, isBlank c = true :=
    fun c hc => hbefore c (List.mem_reverse.mp hc)
  rw [lowerCase, lowerAfter_blanks_append hbefore, List.append_nil]
  exact congrArg (before ++ ·) (lowerAfter_between hreverse hafter [] cs)

-- ---------------------------------------------------------------------------
-- One line
-- ---------------------------------------------------------------------------

theorem collapse_blank_cons (h : isBlank c = true) (cs : List Char) :
    collapse (c :: cs) = collapse cs := by
  rw [collapse, squeeze_cons_of_blank h]
  split
  · rfl
  · have hspace : isBlank ' ' = true := by decide
    rw [trim, trimStart_cons, if_pos hspace, collapse, trim]

theorem trimEnd_squeeze_concat (h : isBlank c = true) (cs : List Char) :
    trimEnd (squeeze (cs ++ [c])) = trimEnd (squeeze cs) := by
  induction cs with
  | nil =>
    rw [List.nil_append, squeeze_cons_of_blank h]
    decide
  | cons d cs ih =>
    cases hd : isBlank d with
    | false =>
      rw [List.cons_append, Markdown.squeeze_cons_of_not_blank hd,
        Markdown.squeeze_cons_of_not_blank hd, trimEnd,
        trimEnd, ih]
    | true =>
      rw [List.cons_append, squeeze_cons_of_blank hd, squeeze_cons_of_blank hd]
      cases cs with
      | nil => simp [h, squeeze, trimEnd]
      | cons e cs =>
        rw [List.cons_append, List.head?_cons, List.head?_cons, ← List.cons_append]
        split
        · exact ih
        · rw [trimEnd, trimEnd, ih]

theorem collapse_concat_blank (h : isBlank c = true) (cs : List Char) :
    collapse (cs ++ [c]) = collapse cs := by
  induction cs with
  | nil => exact collapse_blank_cons h []
  | cons d cs ih =>
    cases hd : isBlank d with
    | true => rw [List.cons_append, collapse_blank_cons hd, collapse_blank_cons hd, ih]
    | false =>
      have hend := trimEnd_squeeze_concat h (d :: cs)
      rw [List.cons_append] at hend ⊢
      simp only [collapse, trim, Markdown.squeeze_cons_of_not_blank hd,
        trimStart_cons, hd] at hend ⊢
      exact hend

theorem collapse_between (hbefore : ∀ c ∈ before, isBlank c = true)
    (hafter : ∀ c ∈ after, isBlank c = true)
    (cs : List Char) : collapse (before ++ (cs ++ after)) = collapse cs := by
  induction before with
  | nil =>
    rw [List.nil_append]
    induction after using List.reverseRecOn with
    | nil => rw [List.append_nil]
    | append_singleton after c ih =>
      rw [← List.append_assoc, collapse_concat_blank (hafter c (by simp)),
        ih fun d hd => hafter d (List.mem_append_left _ hd)]
  | cons c before ih =>
    rw [List.forall_mem_cons] at hbefore
    rw [List.cons_append, collapse_blank_cons hbefore.1, ih hbefore.2]

end

end DocMerge.Text

namespace DocMerge.Similarity

open Text (isBlank scanFrom replaceAll)

-- ---------------------------------------------------------------------------
-- Tags
-- ---------------------------------------------------------------------------

variable {before after : List Char}

theorem not_bracket_of_isBlank (h : isBlank c = true) : c ≠ '<' ∧ c ≠ '>' := by
  constructor <;> rintro rfl <;> revert h <;> decide

theorem tag_cons_of_ne (h : c ≠ '<') (known : Option Char) (cs : List Char) :
    tag known (c :: cs) = none := by
  simp [tag, Text.dropStart?, Ne.symm h]

theorem tag_blank_cons (h : ∀ c ∈ after, isBlank c = true) :
    ∀ c ∈ after, ∀ (known : Option Char) (cs : List Char), tag known (c :: cs) = none :=
  fun c hc => tag_cons_of_ne (not_bracket_of_isBlank (h c hc)).1

/-- A tag ends at its first closing bracket, which is none of the blanks behind the text. -/
theorem tag_append_blanks (hafter : ∀ c ∈ after, isBlank c = true) (known : Option Char)
    (cs : List Char) :
    tag known (cs ++ after) = (tag known cs).map fun found => (found.1, found.2 ++ after) := by
  have hclose : ∀ c ∈ after, (c != '>') = true :=
    fun c hc => bne_iff_ne.mpr (not_bracket_of_isBlank (hafter c hc)).2
  cases cs with
  | nil =>
    cases after with
    | nil => rfl
    | cons c after =>
      exact tag_cons_of_ne (not_bracket_of_isBlank (hafter c List.mem_cons_self)).1 known after
  | cons c inner =>
    by_cases hc : c = '<'
    · subst hc
      have hhead : (inner ++ after).head? = some '>' ↔ inner.head? = some '>' := by
        cases inner with
        | cons d inner => rfl
        | nil =>
          refine ⟨fun h => ?_, fun h => by simp at h⟩
          have := hclose '>' (List.mem_of_head? h)
          simp at this
      simp only [tag, List.cons_append, Text.dropStart?, if_true, Option.bind_eq_bind,
        Option.bind_some, hhead]
      rw [List.dropWhile_append]
      split
      · rename_i hnone
        rw [List.isEmpty_iff] at hnone
        rw [hnone, List.dropWhile_eq_nil_iff.mpr hclose]
        rfl
      · cases hrest : inner.dropWhile (· != '>') with
        | nil => simp_all
        | cons d rest =>
          by_cases hd : '>' = d
          · simp only [List.cons_append, Text.dropStart?, if_pos hd, Option.bind_some]
            split <;> rfl
          · simp only [List.cons_append, Text.dropStart?, if_neg hd,
              Option.bind_none, Option.map_none]
    · rw [List.cons_append, tag_cons_of_ne hc, tag_cons_of_ne hc, Option.map_none]

theorem scanFrom_tag_blanks (hafter : ∀ c ∈ after, isBlank c = true) (known : Option Char) :
    scanFrom tag 0 known after = after.map .inl := by
  obtain ⟨known', hscan⟩ := Text.scanFrom_append_of_none (tag_blank_cons hafter) known []
  simpa [scanFrom] using hscan

theorem scanFrom_tag_append (hafter : ∀ c ∈ after, isBlank c = true) (skip : Nat)
    (known : Option Char)
    (cs : List Char) (hskip : skip ≤ cs.length) :
    scanFrom tag skip known (cs ++ after) = scanFrom tag skip known cs ++ after.map .inl := by
  induction cs generalizing skip known with
  | nil =>
    obtain rfl : skip = 0 := by simpa using hskip
    simpa [scanFrom] using scanFrom_tag_blanks hafter known
  | cons c cs ih =>
    cases skip with
    | succ skip => exact ih skip (some c) (by simpa using hskip)
    | zero =>
      have htag := tag_append_blanks hafter known (c :: cs)
      rw [List.cons_append] at htag ⊢
      rw [scanFrom, scanFrom, htag]
      cases hfound : tag known (c :: cs) with
      | none => exact congrArg (Sum.inl c :: ·) (ih 0 (some c) (Nat.zero_le _))
      | some found =>
        have hlength : (cs ++ after).length - (found.2 ++ after).length =
            cs.length - found.2.length := by
          simp only [List.length_append]
          omega
        rw [Option.map_some]
        simp only [hlength, List.cons_append]
        rw [ih _ (some c) (Nat.sub_le _ _)]

theorem replaceAll_tag_between (hbefore : ∀ c ∈ before, isBlank c = true)
    (hafter : ∀ c ∈ after, isBlank c = true)
    (cs : List Char) : replaceAll tag (before ++ (cs ++ after)) = before ++
    (replaceAll tag cs ++ after) := by
  have hknown : ∀ known, scanFrom tag 0 known cs = scanFrom tag 0 none cs := by
    intro known
    cases cs <;> rfl
  obtain ⟨known, hscan⟩ := Text.scanFrom_append_of_none (tag_blank_cons hbefore) none (cs ++ after)
  rw [replaceAll, Text.scan, hscan, scanFrom_tag_append hafter 0 known cs (Nat.zero_le _), hknown]
  simp only [Text.Scanned.write_append, Text.Scanned.write_plain]
  rfl

-- ---------------------------------------------------------------------------
-- Words
-- ---------------------------------------------------------------------------

theorem map_punctuation_blanks (h : ∀ c ∈ before, isBlank c = true) :
    before.map (fun c => if isPunctuation c then ' ' else c) = before := by
  refine (List.map_congr_left fun c hc => ?_).trans (List.map_id before)
  rw [if_neg (by simp [isPunctuation, h c hc]), id]

theorem words_trim (cs : List Char) : words (Text.trim cs) = words cs := by
  obtain ⟨before, after, hbefore, hafter, hcs⟩ := Text.trim_between cs
  conv_rhs => rw [hcs]
  simp only [words, Text.lowerCase_between hbefore hafter,
    replaceAll_tag_between hbefore hafter, List.map_append,
    map_punctuation_blanks hbefore, map_punctuation_blanks hafter,
    Text.collapse_between hbefore hafter]

end DocMerge.Similarity

namespace DocMerge

theorem comparedWords_trimmed (text : String) :
    comparedWords (trimmed text) = comparedWords text := by
  simp [comparedWords, trimmed, Similarity.words_trim]

theorem similarity_trimmed (a b : String) : similarity a (trimmed b) = similarity a b := by
  rw [similarity, similarity, comparedWords_trimmed]

theorem trimmed_similarity (a b : String) : similarity (trimmed a) b = similarity a b := by
  rw [similarity, similarity, comparedWords_trimmed]

end DocMerge

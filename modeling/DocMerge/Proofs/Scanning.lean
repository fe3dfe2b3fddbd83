import DocMerge.Text.Search
import DocMerge.Text.Word

/-!
# Laws of searching and scanning

What a reader takes off the front of a text stands there literally, and a scan is a walk that goes
on behind each match.
-/

namespace DocMerge.Text

-- ---------------------------------------------------------------------------
-- Readers
-- ---------------------------------------------------------------------------

theorem dropStart?_eq_some_iff : dropStart? start cs = some rest ↔ cs = start ++ rest := by
  induction start generalizing cs with
  | nil => simp [dropStart?]
  | cons p ps ih =>
    cases cs with
    | nil => simp [dropStart?]
    | cons c cs =>
      simp only [dropStart?, Option.ite_none_right_eq_some, ih, List.cons_append, List.cons.injEq]
      rw [eq_comm (a := p)]

theorem dropStart?_map {f : Char → Char} (h : ∀ d ∈ start, ∀ c, f c = d ↔ c = d) (cs : List Char) :
    dropStart? start (cs.map f) = (dropStart? start cs).map (List.map f) := by
  induction start generalizing cs with
  | nil => rfl
  | cons d start ih =>
    rw [List.forall_mem_cons] at h
    cases cs with
    | nil => rfl
    | cons c rest =>
      simp only [List.map_cons, dropStart?, eq_comm (a := d), h.1 c]
      split
      · exact ih h.2 rest
      · rfl

theorem dropStart?_append_stop (start : List Char) (stop : Char) (hstop : stop ∉ start)
    (cs rest : List Char) :
    dropStart? start (cs ++ stop :: rest) = (dropStart? start cs).map (· ++ stop :: rest) := by
  induction start generalizing cs with
  | nil => rfl
  | cons d start ih =>
    rw [List.mem_cons, not_or] at hstop
    cases cs with
    | nil => simp [dropStart?, Ne.symm hstop.1]
    | cons c cs =>
      simp only [List.cons_append, dropStart?]
      split
      · exact ih hstop.2 cs
      · rfl

theorem cutAt?_eq_some (h : cutAt? mark cs = some (before, after)) :
    cs = before ++ mark ++ after := by
  induction cs generalizing before with
  | nil =>
    simp only [cutAt?, List.isEmpty_iff, Option.ite_none_right_eq_some, Option.some.injEq,
      Prod.mk.injEq] at h
    obtain ⟨rfl, rfl, rfl⟩ := h
    rfl
  | cons c rest ih =>
    rw [cutAt?] at h
    split at h
    · rename_i hstart
      simp only [Option.some.injEq, Prod.mk.injEq] at h
      obtain ⟨rfl, rfl⟩ := h
      simpa using dropStart?_eq_some_iff.mp hstart
    · simp only [Option.map_eq_some_iff, Prod.mk.injEq, Prod.exists] at h
      obtain ⟨before, after, hrest, rfl, rfl⟩ := h
      simp [ih hrest]

-- ---------------------------------------------------------------------------
-- Scans
-- ---------------------------------------------------------------------------

variable {α : Type} {pattern : Pattern α}

theorem scanFrom_skip (pattern : Pattern α) (passed cs : List Char) (before : Option Char) :
    ∃ before', scanFrom pattern passed.length before (passed ++ cs) =
      scanFrom pattern 0 before' cs := by
  induction passed generalizing before with
  | nil => exact ⟨before, rfl⟩
  | cons c passed ih => simpa [scanFrom] using ih (some c)

theorem scanFrom_cons_of_none (h : pattern before (c :: rest) = none) :
    scanFrom pattern 0 before (c :: rest) = .inl c :: scanFrom pattern 0 (some c) rest := by
  rw [scanFrom, h]

theorem scanFrom_append_of_some (hpassed : passed ≠ [])
    (h : pattern before (passed ++ after) = some (found, after)) :
    ∃ before', scanFrom pattern 0 before (passed ++ after) =
      .inr found :: scanFrom pattern 0 before' after := by
  cases passed with
  | nil => exact absurd rfl hpassed
  | cons c passed =>
    obtain ⟨before', hskip⟩ := scanFrom_skip pattern passed after (some c)
    refine ⟨before', ?_⟩
    rw [List.cons_append] at h ⊢
    rw [scanFrom, h]
    simp only [List.length_append, Nat.add_sub_cancel, hskip]

/-- Characters at which the pattern never matches are left as they are. -/
theorem scanFrom_append_of_none
    (hnone : ∀ c ∈ plain, ∀ before rest, pattern before (c :: rest) = none)
    (before : Option Char) (cs : List Char) :
    ∃ before', scanFrom pattern 0 before (plain ++ cs) =
      plain.map .inl ++ scanFrom pattern 0 before' cs := by
  induction plain generalizing before with
  | nil => exact ⟨before, rfl⟩
  | cons c plain ih =>
    obtain ⟨before', hrest⟩ := ih (fun d hd => hnone d (List.mem_cons_of_mem c hd)) (some c)
    refine ⟨before', ?_⟩
    rw [List.cons_append, scanFrom_cons_of_none (hnone c List.mem_cons_self _ _), hrest]
    rfl

theorem mem_of_inl_mem_scanFrom (h : .inl c ∈ scanFrom pattern skip before cs) : c ∈ cs := by
  induction cs generalizing skip before with
  | nil => simp [scanFrom] at h
  | cons d rest ih =>
    cases skip with
    | succ skip => exact List.mem_cons_of_mem d (ih h)
    | zero =>
      rw [scanFrom] at h
      split at h
      · simp only [List.mem_cons, reduceCtorEq, false_or] at h
        exact List.mem_cons_of_mem d (ih h)
      · simp only [List.mem_cons, Sum.inl.injEq] at h
        rcases h with rfl | h
        · exact List.mem_cons_self
        · exact List.mem_cons_of_mem d (ih h)

theorem mem_of_inl_mem_scan (h : .inl c ∈ scan pattern cs) : c ∈ cs :=
  mem_of_inl_mem_scanFrom h

theorem exists_of_inr_mem_scanFrom (h : .inr x ∈ scanFrom pattern skip before cs) :
    ∃ before' part after, part <:+ cs ∧ pattern before' part = some (x, after) := by
  induction cs generalizing skip before with
  | nil => simp [scanFrom] at h
  | cons d rest ih =>
    have hlater : ∀ {skip before}, .inr x ∈ scanFrom pattern skip before rest →
        ∃ before' part after, part <:+ d :: rest ∧ pattern before' part = some (x, after) := by
      intro skip before hx
      obtain ⟨before', part, after, hpart, hfound⟩ := ih hx
      exact ⟨before', part, after, hpart.trans (List.suffix_cons d rest), hfound⟩
    cases skip with
    | succ skip => exact hlater h
    | zero =>
      rw [scanFrom] at h
      split at h
      · rename_i found after hfound
        rcases List.mem_cons.mp h with hx | h
        · rw [Sum.inr.inj hx]
          exact ⟨before, d :: rest, after, List.suffix_refl _, hfound⟩
        · exact hlater h
      · rcases List.mem_cons.mp h with hx | h
        · cases hx
        · exact hlater h

theorem mem_replaceText (h : c ∈ replaceText mark out cs) : c ∈ out ∨ c ∈ cs := by
  obtain ⟨part, hpart, hc⟩ := List.mem_flatMap.mp h
  cases part with
  | inl d =>
    rw [Sum.elim_inl, List.mem_singleton] at hc
    exact .inr (mem_of_inl_mem_scan (hc ▸ hpart))
  | inr found =>
    obtain ⟨_, part, after, -, hfound⟩ := exists_of_inr_mem_scanFrom hpart
    simp only [fixed, Option.map_eq_some_iff, Prod.mk.injEq] at hfound
    obtain ⟨_, -, rfl, -⟩ := hfound
    exact .inl hc

theorem Scanned.write_append (render : α → List Char) (first second : Scanned α) :
    Scanned.write render (first ++ second) = Scanned.write render first ++
    Scanned.write render second :=
  List.flatMap_append

theorem Scanned.not_mem_write {s : Scanned α} (hplain : .inl c ∉ s)
    (hfound : ∀ x ∈ s.found, c ∉ render x) :
    c ∉ s.write render := by
  intro hc
  obtain ⟨part, hpart, hc⟩ := List.mem_flatMap.mp hc
  cases part with
  | inl d =>
    rw [Sum.elim_inl, List.mem_singleton] at hc
    exact hplain (hc ▸ hpart)
  | inr x => exact hfound x (List.mem_filterMap.mpr ⟨.inr x, hpart, rfl⟩) hc

theorem Scanned.write_plain (render : α → List Char) (plain : List Char) :
    Scanned.write render (plain.map .inl) = plain := by
  induction plain with
  | nil => rfl
  | cons c plain ih => simpa [Scanned.write] using ih

-- ---------------------------------------------------------------------------
-- Patterns that read from left to right
-- ---------------------------------------------------------------------------

/-- What a match passes over is not empty, and stands in front of what it leaves. -/
def Advances (pattern : Pattern α) : Prop :=
  ∀ ⦃before cs found after⦄, pattern before cs = some (found, after) →
    ∃ passed, passed ≠ [] ∧ cs = passed ++ after

/-- A scan goes from one character or match to the next. -/
theorem scanFrom_induction (hadvances : Advances pattern) {motive : List Char → Scanned α → Prop}
    (nil : motive [] [])
    (kept : ∀ {before c rest scanned}, pattern before (c :: rest) = none → motive rest scanned →
      motive (c :: rest) (.inl c :: scanned))
    (found : ∀ {before passed found after scanned}, passed ≠ [] →
      pattern before (passed ++ after) = some (found, after) → motive after scanned →
      motive (passed ++ after) (.inr found :: scanned))
    (before : Option Char) (cs : List Char) : motive cs (scanFrom pattern 0 before cs) := by
  cases cs with
  | nil => exact nil
  | cons c rest =>
    cases h : pattern before (c :: rest) with
    | none =>
      rw [scanFrom_cons_of_none h]
      exact kept h (scanFrom_induction hadvances nil kept found (some c) rest)
    | some match_ =>
      obtain ⟨x, after⟩ := match_
      obtain ⟨passed, hpassed, hcs⟩ := hadvances h
      rw [hcs] at h ⊢
      obtain ⟨before', hscan⟩ := scanFrom_append_of_some hpassed h
      rw [hscan]
      exact found hpassed h (scanFrom_induction hadvances nil kept found before' after)
termination_by cs.length
decreasing_by
  · simp
  · have := List.length_pos_iff.mpr hpassed
    have := congrArg List.length hcs
    simp only [List.length_cons, List.length_append] at this ⊢
    omega

def matched (pattern : Pattern α) : Pattern (List Char) := fun before cs =>
  (pattern before cs).map fun (_, after) => (cs.take (cs.length - after.length), after)

theorem matched_eq_some (hadvances : Advances pattern)
    (h : matched pattern before cs = some (passed, after)) :
    cs = passed ++ after ∧ passed ≠ [] ∧ ∃ found, pattern before cs = some (found, after) := by
  simp only [matched, Option.map_eq_some_iff, Prod.exists, Prod.mk.injEq] at h
  obtain ⟨found, _, hfound, htake, rfl⟩ := h
  obtain ⟨text, hne, rfl⟩ := hadvances hfound
  rw [List.length_append, Nat.add_sub_cancel, List.take_left'] at htake
  · subst htake
    exact ⟨rfl, hne, found, hfound⟩
  · rfl

theorem matched_eq_none_iff : matched pattern before cs = none ↔ pattern before cs = none :=
  Option.map_eq_none_iff

theorem matched_advances (hadvances : Advances pattern) : Advances (matched pattern) := by
  intro before cs passed after h
  obtain ⟨hcs, hne, -⟩ := matched_eq_some hadvances h
  exact ⟨passed, hne, hcs⟩

def LooksAhead (pattern : Pattern α) : Prop :=
  ∀ before before' cs, pattern before cs = pattern before' cs

namespace LooksAhead

theorem scanFrom_eq (h : LooksAhead pattern) (before : Option Char) (cs : List Char) :
    scanFrom pattern 0 before cs = scan pattern cs := by
  have hall : ∀ skip before, scanFrom pattern skip before cs = scanFrom pattern skip none cs := by
    induction cs with
    | nil => exact fun _ _ => rfl
    | cons c rest ih =>
      rintro (_ | skip) before
      · simp only [scanFrom, h before none, ih]
      · rfl
  exact hall 0 before

theorem replaceAll_cons {pattern : Pattern (List Char)} (h : LooksAhead pattern)
    (hnone : pattern none (c :: rest) = none) :
    replaceAll pattern (c :: rest) = c :: replaceAll pattern rest := by
  rw [replaceAll, scan, scanFrom_cons_of_none hnone, h.scanFrom_eq]
  rfl

theorem replaceAll_found {pattern : Pattern (List Char)} (h : LooksAhead pattern)
    (hpassed : passed ≠ [])
    (hfound : pattern none (passed ++ after) = some (found, after)) :
    replaceAll pattern (passed ++ after) = found ++ replaceAll pattern after := by
  obtain ⟨before', hscan⟩ := scanFrom_append_of_some hpassed hfound
  rw [replaceAll, scan, hscan, h.scanFrom_eq]
  rfl

end LooksAhead

/-- Characters may be replaced before or after a scan by a pattern that does not tell them apart. -/
theorem scanFrom_map {f : Char → Char} {g : α → α}
    (h : ∀ before cs, pattern (before.map f) (cs.map f) =
      (pattern before cs).map (Prod.map g (List.map f)))
    (skip : Nat) (before : Option Char) (cs : List Char) :
    scanFrom pattern skip (before.map f) (cs.map f) =
    (scanFrom pattern skip before cs).map (Sum.map f g) := by
  induction cs generalizing skip before with
  | nil => rfl
  | cons c rest ih =>
    cases skip with
    | succ skip => exact ih skip (some c)
    | zero =>
      have hhead := h before (c :: rest)
      rw [List.map_cons] at hhead ⊢
      simp only [scanFrom, hhead]
      cases pattern before (c :: rest) with
      | none => exact congrArg _ (ih 0 (some c))
      | some match_ =>
        have hrest := ih (rest.length - match_.2.length) (some c)
        simpa using hrest

theorem replaceAll_map {pattern : Pattern (List Char)} {f : Char → Char}
    (h : ∀ before cs, pattern (before.map f) (cs.map f) =
      (pattern before cs).map (Prod.map (List.map f) (List.map f))) (cs : List Char) :
    replaceAll pattern (cs.map f) = (replaceAll pattern cs).map f := by
  rw [replaceAll, replaceAll, scan, scan]
  rw [show (none : Option Char) = Option.map f none from rfl, scanFrom_map h,
    Option.map_none, Scanned.write,
    Scanned.write, List.flatMap_map, List.map_flatMap]
  congr 1
  funext part
  cases part <;> rfl

/-- Texts are scanned one after the other if no match of the first reaches the second. -/
theorem scanFrom_append {first second : List Char}
    (h : ∀ before cs, cs ≠ [] → cs <:+ first →
      pattern before (cs ++ second) = (pattern before cs).map (Prod.map id (· ++ second)))
    (hskip : skip ≤ first.length) (before : Option Char) :
    ∃ before', scanFrom pattern skip before (first ++ second) =
      scanFrom pattern skip before first ++ scanFrom pattern 0 before' second := by
  induction first generalizing skip before with
  | nil =>
    obtain rfl := Nat.le_zero.mp hskip
    exact ⟨before, rfl⟩
  | cons c rest ih =>
    have hrest := fun before cs hne (hsuffix : cs <:+ rest) =>
      h before cs hne (hsuffix.trans (List.suffix_cons c rest))
    cases skip with
    | succ skip => exact ih hrest (Nat.le_of_succ_le_succ hskip) (some c)
    | zero =>
      have hhead := h before (c :: rest) (List.cons_ne_nil c rest) (List.suffix_refl _)
      rw [List.cons_append] at hhead ⊢
      simp only [scanFrom, hhead]
      cases pattern before (c :: rest) with
      | none =>
        obtain ⟨before', hscan⟩ := ih hrest (Nat.zero_le _) (some c)
        exact ⟨before', congrArg _ hscan⟩
      | some match_ =>
        have hlength : (rest ++ second).length - (match_.2 ++ second).length =
            rest.length - match_.2.length := by
          simp only [List.length_append]
          omega
        obtain ⟨before', hscan⟩ := ih hrest (Nat.sub_le rest.length match_.2.length) (some c)
        refine ⟨before', ?_⟩
        simp only [Option.map_some, Prod.map, id, hlength, hscan, List.cons_append]

theorem LooksAhead.replaceAll_append {pattern : Pattern (List Char)} (hahead : LooksAhead pattern)
    {first second : List Char}
    (h : ∀ cs, cs ≠ [] → cs <:+ first →
      pattern none (cs ++ second) = (pattern none cs).map (Prod.map id (· ++ second))) :
    replaceAll pattern (first ++ second) = replaceAll pattern first ++
    replaceAll pattern second := by
  have hall : ∀ before cs, cs ≠ [] → cs <:+ first →
      pattern before (cs ++ second) = (pattern before cs).map (Prod.map id (· ++ second)) := by
    intro before cs hne hsuffix
    rw [hahead before none, h cs hne hsuffix, hahead none before]
  obtain ⟨before', hscan⟩ := scanFrom_append hall (Nat.zero_le _) none
  rw [replaceAll, scan, hscan, Scanned.write_append, hahead.scanFrom_eq before' second]
  rfl

theorem replaceAll_subset {pattern : Pattern (List Char)} (hadvances : Advances pattern)
    (h : ∀ ⦃before cs found after⦄, pattern before cs = some (found, after) → found = [])
    (cs : List Char) :
    replaceAll pattern cs ⊆ cs := by
  refine scanFrom_induction (motive := fun cs scanned => scanned.write id ⊆ cs)
    hadvances (fun _ hc => hc)
    (fun _ ih => List.cons_subset_cons _ ih) (fun _ hfound ih => ?_) none cs
  obtain rfl := h hfound
  exact fun c hc => List.mem_append_right _ (ih hc)

theorem countP_replaceAll {pattern : Pattern (List Char)} {p : Char → Bool}
    (h : ∀ ⦃before cs found after⦄, pattern before cs = some (found, after) →
      ∃ passed, passed ≠ [] ∧ cs = passed ++ after ∧ found.countP p = passed.countP p)
        (cs : List Char) :
    (replaceAll pattern cs).countP p = cs.countP p := by
  have hadvances : Advances pattern := fun before cs found after hfound => by
    obtain ⟨passed, hne, hcs, -⟩ := h hfound
    exact ⟨passed, hne, hcs⟩
  refine scanFrom_induction (motive := fun cs scanned =>
    (scanned.write id).countP p = cs.countP p) hadvances rfl
    (fun _ ih => ?_) (fun {before passed found after scanned} _ hfound ih => ?_) none cs
  · rw [List.countP_cons, ← ih]
    exact List.countP_cons
  · obtain ⟨passed', -, hcs, hcount⟩ := h hfound
    rw [hcs, List.countP_append, ← hcount, ← ih]
    exact List.countP_append

-- ---------------------------------------------------------------------------
-- Decimal numbers
-- ---------------------------------------------------------------------------

theorem digitValue?_of_isDigit (h : c.isDigit = true) : digitValue? c = some (c.toNat - 48) := by
  rw [digitValue?, if_pos h]

theorem isDigit_of_mem_repr (h : c ∈ (Nat.repr n).toList) : c.isDigit = true := by
  rw [Nat.toList_repr] at h
  exact Nat.isDigit_of_mem_toDigits (by decide) (by decide) h

theorem decimal_repr (n : Nat) : decimal (Nat.repr n).toList = n := by
  have hvalues : ∀ (digits : List Char) (m : Nat), (∀ c ∈ digits, c.isDigit = true) →
      digits.foldl (fun n c => 10 * n + (digitValue? c).getD 0) m =
      Nat.ofDigitChars 10 digits m := by
    intro digits
    induction digits with
    | nil => simp
    | cons c digits ih =>
      intro m h
      rw [List.foldl_cons, Nat.ofDigitChars_cons, ih _ fun d hd => h d (List.mem_cons_of_mem c hd),
        digitValue?_of_isDigit (h c List.mem_cons_self)]
      rfl
  rw [decimal, hvalues _ _ fun _ => isDigit_of_mem_repr, Nat.toList_repr,
    Nat.ofDigitChars_ten_toDigits]

end DocMerge.Text

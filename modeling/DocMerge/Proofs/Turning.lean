import DocMerge.Proofs.Squeezing

/-!
# Texts that are turned wherever they stand

A scan, a replacement or a squeeze treats a text that is put together from parts part by part, if
what it makes of each part depends on no other. `Turns` says so of a part, and `Skips` of a part in
which a pattern finds nothing. A text with things found in it can be laid out on one line before the
things are written or after.
-/

namespace DocMerge.Text

-- ---------------------------------------------------------------------------
-- Parts
-- ---------------------------------------------------------------------------

/-- A function turns what stands in front of a text into `out`, and the text into what it makes of
it alone. -/
def Turns (f : List α → List β) (cs : List α) (out : List β) : Prop :=
  ∀ rest, f (cs ++ rest) = out ++ f rest

namespace Turns
variable {f : List α → List β}

theorem nil : Turns f [] [] := fun _ => rfl

theorem append (h : Turns f a b) (h' : Turns f a' b') : Turns f (a ++ a') (b ++ b') := by
  intro rest
  rw [List.append_assoc, h, h', List.append_assoc]

theorem comp {g : List β → List γ} (h : Turns f a b) (h' : Turns g b c) : Turns (g ∘ f) a c := by
  intro rest
  rw [Function.comp_apply, h, h', Function.comp_apply]

theorem flatMap {xs : List σ} {before : σ → List α} {after : σ → List β}
    (h : ∀ x ∈ xs, Turns f (before x) (after x)) :
    Turns f (xs.flatMap before) (xs.flatMap after) := by
  induction xs with
  | nil => exact .nil
  | cons x xs ih =>
    rw [List.forall_mem_cons] at h
    exact h.1.append (ih h.2)

theorem joinWith {f : List Char → List Char} (hseparator : Turns f separator separator)
    (h : List.Forall₂ (Turns f) parts outs) :
    Turns f (joinWith separator parts) (joinWith separator outs) := by
  induction h with
  | nil => exact .nil
  | cons hpart hparts ih =>
    cases hparts with
    | nil => exact hpart
    | cons => exact (hpart.append hseparator).append ih

theorem apply_eq (h : Turns f cs out) (hnil : f [] = []) : f cs = out := by
  have hall := h []
  rwa [List.append_nil, hnil, List.append_nil] at hall

end Turns

structure TurnsPart (f : List Char → List Char) (part out : List Char) : Prop where
  turns : Turns f part out
  nil_iff : part = [] ↔ out = []

theorem TurnsPart.joinWith {f : List Char → List Char} (hseparator : Turns f separator separator)
    (h : List.Forall₂ (TurnsPart f) parts outs) :
    Turns f (joinWith separator (parts.filter (!·.isEmpty)))
      (joinWith separator (outs.filter (!·.isEmpty))) := by
  have hfilter := List.rel_filter (p := fun part => !part.isEmpty) (q := fun out => !out.isEmpty)
    (fun part out hpart => by simp [hpart.nil_iff]) h
  exact Turns.joinWith hseparator (hfilter.imp fun _ _ => TurnsPart.turns)

-- ---------------------------------------------------------------------------
-- Matches
-- ---------------------------------------------------------------------------

variable {pattern : Pattern σ}

def Skips (pattern : Pattern σ) (cs : List Char) : Prop := Turns (scan pattern) cs (cs.map .inl)

theorem Skips.append (h : Skips pattern a) (h' : Skips pattern b) : Skips pattern (a ++ b) := by
  rw [Skips, List.map_append]
  exact Turns.append h h'

theorem Turns.write {s : Scanned σ} (h : Turns (scan pattern) cs s) (render : σ → List Char) :
    Turns (fun cs => (scan pattern cs).write render) cs (s.write render) := by
  intro rest
  show Scanned.write render (scan pattern (cs ++ rest)) = _
  rw [h, Scanned.write_append]

theorem Skips.write (h : Skips pattern cs) (render : σ → List Char) :
    Turns (fun cs => (scan pattern cs).write render) cs cs := by
  have hturns := Turns.write h render
  rwa [Scanned.write_plain] at hturns

theorem Skips.replaceAll {pattern : Pattern (List Char)} (h : Skips pattern cs) :
    Turns (replaceAll pattern) cs cs :=
  h.write id

structure OpensWith (opening : Char) (pattern : Pattern σ) : Prop where
  ahead : LooksAhead pattern
  opens : ∀ c rest, c ≠ opening → pattern none (c :: rest) = none

namespace OpensWith
variable {opening : Char}

theorem skips_plain (h : OpensWith opening pattern) (hcs : opening ∉ cs) : Skips pattern cs := by
  intro rest
  have hnone : ∀ c ∈ cs, ∀ before rest, pattern before (c :: rest) = none := by
    intro c hc before rest
    rw [h.ahead before none]
    exact h.opens c rest (ne_of_mem_of_not_mem hc hcs)
  obtain ⟨before, hscan⟩ := scanFrom_append_of_none hnone none rest
  rw [scan, hscan, h.ahead.scanFrom_eq]

theorem skips_cons (h : OpensWith opening pattern)
    (hnone : ∀ rest, pattern none (c :: (cs ++ rest)) = none)
    (hcs : Skips pattern cs) : Skips pattern (c :: cs) := by
  intro rest
  rw [List.cons_append, scan, scanFrom_cons_of_none (hnone rest), h.ahead.scanFrom_eq, hcs]
  rfl

theorem skips_alike (h : OpensWith opening pattern)
    (hnone : ∀ rest, pattern none (opening :: (cs ++ rest)) = none)
    (hcs : opening ∉ cs) : Skips pattern (opening :: cs) :=
  h.skips_cons hnone (h.skips_plain hcs)

theorem turns_found (h : OpensWith opening pattern) (hne : passed ≠ [])
    (hfound : ∀ rest, pattern none (passed ++ rest) = some (found, rest)) :
    Turns (scan pattern) passed [.inr found] := by
  intro rest
  obtain ⟨before, hscan⟩ := scanFrom_append_of_some hne (hfound rest)
  rw [scan, hscan, h.ahead.scanFrom_eq]
  rfl

theorem turns_write (h : OpensWith opening pattern) (hne : passed ≠ [])
    (hfound : ∀ rest, pattern none (passed ++ rest) = some (found, rest)) (render : σ → List Char) :
    Turns (fun cs => (scan pattern cs).write render) passed (render found) := by
  have hturns := (h.turns_found hne hfound).write render
  rwa [show Scanned.write render [.inr found] = render found from List.append_nil _] at hturns

end OpensWith

-- ---------------------------------------------------------------------------
-- One line
-- ---------------------------------------------------------------------------

def IsDelimiter (cs : List Char) : Prop := HasEnds cs ∧ squeeze cs = cs

instance (cs : List Char) : Decidable (IsDelimiter cs) := inferInstanceAs (Decidable (_ ∧ _))

theorem IsDelimiter.turns_squeeze (h : IsDelimiter cs) : Turns squeeze cs cs := by
  obtain ⟨first, c, hcs, hc⟩ := h.1.last
  have hfirst : squeeze first = first := by
    have hsqueeze := h.2
    rw [hcs, squeeze_mark first hc] at hsqueeze
    exact List.append_cancel_right hsqueeze
  intro rest
  rw [hcs, List.append_assoc, List.singleton_append, squeeze_mark first hc, hfirst,
    List.append_assoc,
    List.singleton_append]

theorem IsDelimiter.turns_squeeze_append (h : IsDelimiter stop) (cs : List Char) :
    Turns squeeze (cs ++ stop) (squeeze cs ++ stop) := by
  obtain ⟨c, more, hstop, hc⟩ := h.1.first
  intro rest
  have hhead : ∀ d ∈ (stop ++ rest).head?, isBlank d = false := by
    rw [hstop]
    rintro _ ⟨rfl⟩
    exact hc
  rw [List.append_assoc, squeeze_append_of_head cs hhead, h.turns_squeeze, List.append_assoc]

theorem turns_squeeze_solid (h : ∀ c ∈ cs, isBlank c = false) : Turns squeeze cs cs :=
  Markdown.squeeze_append h

namespace Scanned
variable {α : Type} {render : α → List Char}

def isBlankPart (part : Char ⊕ α) : Bool := part.elim isBlank fun _ => false

def squeeze (shrink : α → α) : Scanned α → Scanned α
  | [] => []
  | .inl c :: rest =>
    if isBlank c then
      if rest.head?.any isBlankPart then squeeze shrink rest else .inl ' ' :: squeeze shrink rest
    else .inl c :: squeeze shrink rest
  | .inr x :: rest => .inr (shrink x) :: squeeze shrink rest

def trim (s : Scanned α) : Scanned α := (s.dropWhile isBlankPart).rdropWhile isBlankPart

def collapse (shrink : α → α) (s : Scanned α) : Scanned α := (s.squeeze shrink).trim

theorem write_cons_inl (render : α → List Char) (c : Char) (s : Scanned α) :
    Scanned.write render (.inl c :: s) = c :: s.write render := rfl

theorem write_cons_inr (render : α → List Char) (x : α) (s : Scanned α) :
    Scanned.write render (.inr x :: s) = render x ++ s.write render := rfl

theorem write_eq_nil_iff (hne : ∀ x, render x ≠ []) {s : Scanned α} :
    s.write render = [] ↔ s = [] := by
  constructor
  · intro h
    cases s with
    | nil => rfl
    | cons part rest =>
      have hpart := (List.append_eq_nil_iff.mp h).1
      cases part with
      | inl c => exact absurd hpart (List.cons_ne_nil c [])
      | inr x => exact absurd hpart (hne x)
  · rintro rfl
    rfl

theorem head?_write (hends : ∀ x, HasEnds (render x)) (s : Scanned α) :
    (s.write render).head?.any isBlank = s.head?.any isBlankPart := by
  cases s with
  | nil => rfl
  | cons part rest =>
    cases part with
    | inl c => rfl
    | inr x =>
      obtain ⟨c, more, hcs, hc⟩ := (hends x).first
      rw [write_cons_inr, hcs, List.cons_append, List.head?_cons, Option.any_some, hc]
      rfl

theorem squeeze_write {shrink : α → α} {s : Scanned α} (hends : ∀ x, HasEnds (render x))
    (h : ∀ x, .inr x ∈ s → Turns Text.squeeze (render x) (render (shrink x))) :
    Text.squeeze (s.write render) = (s.squeeze shrink).write render := by
  induction s with
  | nil => rfl
  | cons part rest ih =>
    have hrest := ih fun x hx => h x (List.mem_cons_of_mem part hx)
    cases part with
    | inr x => rw [write_cons_inr, h x List.mem_cons_self, hrest, squeeze, write_cons_inr]
    | inl c =>
      rw [write_cons_inl, squeeze]
      cases hc : isBlank c with
      | false =>
        rw [Markdown.squeeze_cons_of_not_blank hc, hrest, if_neg Bool.false_ne_true, write_cons_inl]
      | true =>
        rw [squeeze_cons_of_blank hc, head?_write hends, if_pos rfl, hrest]
        split <;> rfl

theorem trimStart_write (hends : ∀ x, HasEnds (render x)) (s : Scanned α) :
    Text.trimStart (s.write render) = Scanned.write render (s.dropWhile isBlankPart) := by
  induction s with
  | nil => rfl
  | cons part rest ih =>
    cases part with
    | inl c =>
      rw [write_cons_inl, trimStart_cons, ih, List.dropWhile_cons]
      cases hc : isBlank c <;> simp [isBlankPart, hc, write_cons_inl]
    | inr x =>
      obtain ⟨c, more, hcs, hc⟩ := (hends x).first
      rw [write_cons_inr, hcs, List.cons_append, trimStart_cons, hc,
        List.dropWhile_cons_of_neg Bool.false_ne_true,
        write_cons_inr, hcs]
      rfl

theorem trimEnd_write (hends : ∀ x, HasEnds (render x)) (s : Scanned α) :
    Text.trimEnd (s.write render) = Scanned.write render (s.rdropWhile isBlankPart) := by
  induction s using List.reverseRecOn with
  | nil => rfl
  | append_singleton s part ih =>
    cases part with
    | inl c =>
      rw [write_append, write_cons_inl, show Scanned.write render [] = [] from rfl,
        trimEnd_concat, ih,
        List.rdropWhile_concat]
      cases hc : isBlank c <;> simp [isBlankPart, hc, Scanned.write]
    | inr x =>
      obtain ⟨first, c, hcs, hc⟩ := (hends x).last
      have hwrite : Scanned.write render (s ++ [.inr x]) = Scanned.write render s ++
          first ++ [c] := by
        rw [write_append, write_cons_inr, hcs,
          show Scanned.write render [] = [] from rfl, List.append_nil,
          List.append_assoc]
      rw [List.rdropWhile_concat_neg _ _ _ Bool.false_ne_true, hwrite, trimEnd_concat, hc]
      rfl

/-- A text is laid out on one line before the found things are written or after. -/
theorem collapse_write {shrink : α → α} {s : Scanned α} (hends : ∀ x, HasEnds (render x))
    (h : ∀ x, .inr x ∈ s → Turns Text.squeeze (render x) (render (shrink x))) :
    Text.collapse (s.write render) = (s.collapse shrink).write render := by
  rw [Text.collapse, squeeze_write hends h, Text.trim, trimStart_write hends, trimEnd_write hends]
  rfl

theorem mem_squeeze {shrink : α → α} {s : Scanned α} (h : part ∈ s.squeeze shrink) :
    part = .inl ' ' ∨ (∃ c, part = .inl c ∧ .inl c ∈ s) ∨ ∃ x,
    part = .inr (shrink x) ∧ .inr x ∈ s := by
  induction s with
  | nil => cases h
  | cons first rest ih =>
    have hlater : part ∈ squeeze shrink rest →
        part = .inl ' ' ∨ (∃ c, part = .inl c ∧ .inl c ∈ first :: rest) ∨
        ∃ x, part = .inr (shrink x) ∧ .inr x ∈ first :: rest := by
      intro hpart
      obtain hspace | ⟨c, hc, hmem⟩ | ⟨x, hx, hmem⟩ := ih hpart
      · exact .inl hspace
      · exact .inr (.inl ⟨c, hc, List.mem_cons_of_mem first hmem⟩)
      · exact .inr (.inr ⟨x, hx, List.mem_cons_of_mem first hmem⟩)
    cases first with
    | inr x =>
      rcases List.mem_cons.mp h with rfl | h
      · exact .inr (.inr ⟨x, rfl, List.mem_cons_self⟩)
      · exact hlater h
    | inl c =>
      rw [squeeze] at h
      split at h
      · split at h
        · exact hlater h
        · rcases List.mem_cons.mp h with rfl | h
          · exact .inl rfl
          · exact hlater h
      · rcases List.mem_cons.mp h with rfl | h
        · exact .inr (.inl ⟨c, rfl, List.mem_cons_self⟩)
        · exact hlater h

theorem mem_collapse {shrink : α → α} {s : Scanned α} (h : part ∈ s.collapse shrink) :
    part = .inl ' ' ∨ (∃ c, part = .inl c ∧ .inl c ∈ s) ∨ ∃ x,
    part = .inr (shrink x) ∧ .inr x ∈ s :=
  mem_squeeze ((List.dropWhile_suffix _).subset ((List.rdropWhile_prefix _ _).subset h))

end Scanned

end DocMerge.Text

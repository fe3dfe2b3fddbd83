import DocMerge.Files.Store
import DocMerge.Proofs.Readers

/-!
# Ends of lines

A text that is read has newlines alone at the ends of its lines, and a file writes them in its own
way. Neither changes anything else, so marks stand where they stood and a text written with other
line ends is read as it was.
-/

namespace DocMerge.Files

open Text (dropStart? cutAt? dropStart?_eq_some_iff cutAt?_eq_some_iff)

-- ---------------------------------------------------------------------------
-- Reading line ends
-- ---------------------------------------------------------------------------

@[simp] theorem plainLines_nil : plainLines [] = [] := by rw [plainLines]

theorem plainLines_cons (h : c ≠ '\r') (cs : List Char) :
    plainLines (c :: cs) = c :: plainLines cs := by
  rw [plainLines]
  · rintro rest rfl
    exact absurd rfl h
  · exact h

theorem plainLines_return_newline (cs : List Char) :
    plainLines ('\r' :: '\n' :: cs) = '\n' :: plainLines cs := by rw [plainLines]

theorem plainLines_return (h : ∀ c ∈ cs.head?, c ≠ '\n') :
    plainLines ('\r' :: cs) = '\n' :: plainLines cs := by
  rw [plainLines]
  rintro rest rfl
  exact h '\n' rfl rfl

@[elab_as_elim]
theorem plainLines_induction {motive : List Char → Prop} (nil : motive [])
    (pair : ∀ rest, motive rest → motive ('\r' :: '\n' :: rest))
    (single : ∀ rest, (∀ c ∈ rest.head?, c ≠ '\n') → motive rest → motive ('\r' :: rest))
    (char : ∀ c rest, c ≠ '\r' → motive rest → motive (c :: rest))
    (cs : List Char) : motive cs := by
  induction cs using plainLines.induct with
  | case1 rest ih => exact pair rest ih
  | case2 rest hne ih =>
    refine single rest ?_ ih
    rintro _ hc rfl
    obtain ⟨more, hmore⟩ := List.head?_eq_some_iff.mp hc
    exact hne more hmore
  | case3 c rest _ hreturn ih => exact char c rest (fun hc => hreturn hc) ih
  | case4 => exact nil

theorem plainLines_eq_nil (h : plainLines cs = []) : cs = [] := by
  cases cs using plainLines_induction with
  | nil => rfl
  | pair rest => simp [plainLines_return_newline] at h
  | single rest hhead => simp [plainLines_return hhead] at h
  | char c rest hc => simp [plainLines_cons hc] at h

theorem not_mem_plainLines (cs : List Char) : '\r' ∉ plainLines cs := by
  induction cs using plainLines_induction with
  | nil => simp
  | pair rest ih => simpa [plainLines_return_newline] using ih
  | single rest hhead ih => simpa [plainLines_return hhead] using ih
  | char c rest hc ih => simpa [plainLines_cons hc, Ne.symm hc] using ih

theorem mem_plainLines (hline : d ≠ '\n') (hreturn : d ≠ '\r') (cs : List Char) :
    d ∈ plainLines cs ↔ d ∈ cs := by
  induction cs using plainLines_induction with
  | nil => simp
  | pair rest ih => simp [plainLines_return_newline, hline, hreturn, ih]
  | single rest hhead ih => simp [plainLines_return hhead, hline, hreturn, ih]
  | char c rest hc ih => simp [plainLines_cons hc, ih]

theorem plainLines_eq_self (h : '\r' ∉ cs) : plainLines cs = cs := by
  induction cs with
  | nil => exact plainLines_nil
  | cons c cs ih =>
    simp only [List.mem_cons, not_or] at h
    rw [plainLines_cons (Ne.symm h.1), ih h.2]

/-- A text is read part by part, unless a line end is cut in two. -/
theorem plainLines_append (first : List Char) (h : ∀ c ∈ second.head?, c ≠ '\n') :
    plainLines (first ++ second) = plainLines first ++ plainLines second := by
  induction first using plainLines_induction with
  | nil => simp
  | pair rest ih => simp only [List.cons_append, plainLines_return_newline, ih]
  | single rest hhead ih =>
    have hboth : ∀ c ∈ (rest ++ second).head?, c ≠ '\n' := by
      cases rest with
      | nil => exact h
      | cons d rest => exact hhead
    rw [List.cons_append, plainLines_return hboth, plainLines_return hhead, ih, List.cons_append]
  | char c rest hc ih =>
    rw [List.cons_append, plainLines_cons hc, plainLines_cons hc, ih, List.cons_append]

theorem plainLines_eq_append (hc : c ≠ '\n') (h : plainLines cs = first ++ c :: second) :
    ∃ before after, cs = before ++ c :: after ∧ plainLines before = first ∧
    plainLines after = second := by
  induction cs using plainLines_induction generalizing first with
  | nil => simp at h
  | pair rest ih =>
    rw [plainLines_return_newline] at h
    cases first with
    | nil => exact absurd (List.cons.inj h).1.symm hc
    | cons d first =>
      obtain ⟨rfl, hrest⟩ := List.cons.inj h
      obtain ⟨before, after, rfl, rfl, rfl⟩ := ih hrest
      exact ⟨'\r' :: '\n' :: before, after, rfl, plainLines_return_newline before, rfl⟩
  | single rest hhead ih =>
    rw [plainLines_return hhead] at h
    cases first with
    | nil => exact absurd (List.cons.inj h).1.symm hc
    | cons d first =>
      obtain ⟨rfl, hrest⟩ := List.cons.inj h
      obtain ⟨before, after, rfl, rfl, rfl⟩ := ih hrest
      refine ⟨'\r' :: before, after, rfl, plainLines_return ?_, rfl⟩
      cases before with
      | nil => simp
      | cons e before => exact hhead
  | char d rest hd ih =>
    rw [plainLines_cons hd] at h
    cases first with
    | nil =>
      obtain ⟨rfl, rfl⟩ := List.cons.inj h
      exact ⟨[], rest, rfl, plainLines_nil, rfl⟩
    | cons e first =>
      obtain ⟨rfl, hrest⟩ := List.cons.inj h
      obtain ⟨before, after, rfl, rfl, rfl⟩ := ih hrest
      exact ⟨d :: before, after, rfl, plainLines_cons hd before, rfl⟩

theorem dropStart?_plainLines (hmark : ∀ c ∈ mark, c ≠ '\n' ∧ c ≠ '\r') (cs : List Char) :
    dropStart? mark (plainLines cs) = (dropStart? mark cs).map plainLines := by
  induction mark generalizing cs with
  | nil => rfl
  | cons m mark ih =>
    obtain ⟨hm, hrest⟩ := List.forall_mem_cons.mp hmark
    cases cs using plainLines_induction with
    | nil => rfl
    | pair rest =>
      rw [plainLines_return_newline, dropStart?, dropStart?, if_neg hm.1, if_neg hm.2]
      rfl
    | single rest hhead =>
      rw [plainLines_return hhead, dropStart?, dropStart?, if_neg hm.1, if_neg hm.2]
      rfl
    | char c rest hc =>
      rw [plainLines_cons hc, dropStart?, dropStart?]
      split
      · exact ih hrest rest
      · rfl

theorem cutAt?_cons_of_ne (h : c ≠ m) (cs : List Char) :
    cutAt? (m :: mark) (c :: cs) =
      (cutAt? (m :: mark) cs).map fun (before, after) => (c :: before, after) := by
  rw [cutAt?, dropStart?, if_neg (Ne.symm h)]

theorem cutAt?_plainLines (hmark : ∀ c ∈ m :: mark, c ≠ '\n' ∧ c ≠ '\r') (cs : List Char) :
    cutAt? (m :: mark) (plainLines cs) =
      (cutAt? (m :: mark) cs).map fun (body, rest) => (plainLines body, plainLines rest) := by
  obtain ⟨hnewline, hreturn⟩ := hmark m List.mem_cons_self
  induction cs using plainLines_induction with
  | nil => simp [cutAt?]
  | pair rest ih =>
    rw [plainLines_return_newline, cutAt?_cons_of_ne (Ne.symm hnewline),
      cutAt?_cons_of_ne (Ne.symm hreturn),
      cutAt?_cons_of_ne (Ne.symm hnewline), ih]
    simp only [Option.map_map, Function.comp_def, plainLines_return_newline]
  | single rest hhead ih =>
    rw [plainLines_return hhead, cutAt?_cons_of_ne (Ne.symm hnewline),
      cutAt?_cons_of_ne (Ne.symm hreturn), ih]
    cases hcut : cutAt? (m :: mark) rest with
    | none => rfl
    | some parts =>
      obtain ⟨body, after⟩ := parts
      have hbody : ∀ c ∈ body.head?, c ≠ '\n' := by
        cases body with
        | nil => simp
        | cons d body =>
          rw [Text.cutAt?_eq_some hcut] at hhead
          exact hhead
      simp only [Option.map_some, plainLines_return hbody]
  | char c rest hc ih =>
    have hdrop := dropStart?_plainLines hmark (c :: rest)
    rw [plainLines_cons hc] at hdrop ⊢
    rw [cutAt?, cutAt?, hdrop]
    cases dropStart? (m :: mark) (c :: rest) with
    | some after => simp
    | none =>
      simp only [Option.map_none, ih, Option.map_map, Function.comp_def]
      cases cutAt? (m :: mark) rest with
      | none => rfl
      | some parts => simp [plainLines_cons hc]

-- ---------------------------------------------------------------------------
-- Writing line ends
-- ---------------------------------------------------------------------------

def endLines (newline : List Char) (cs : List Char) : List Char :=
  cs.flatMap fun c => if c = '\n' then newline else [c]

theorem replaceText_newline (newline cs : List Char) :
    Text.replaceText ['\n'] newline cs = endLines newline cs := by
  have hscan : ∀ before, (Text.scanFrom (Text.fixed ['\n'] newline) 0 before cs).write id =
      endLines newline cs := by
    induction cs with
    | nil => exact fun _ => rfl
    | cons c cs ih =>
      intro before
      have hrest := ih (some c)
      by_cases hc : c = '\n'
      · subst hc
        simp [Text.scanFrom, Text.fixed, dropStart?, Text.Scanned.write, endLines] at hrest ⊢
        exact hrest
      · simp [Text.scanFrom, Text.fixed, dropStart?, Ne.symm hc, Text.Scanned.write,
          endLines, hc] at hrest ⊢
        exact hrest
  exact hscan none

theorem endLines_cons (newline : List Char) (c : Char) (cs : List Char) :
    endLines newline (c :: cs) = (if c = '\n' then newline else [c]) ++ endLines newline cs := rfl

theorem endLines_append (newline first second : List Char) :
    endLines newline (first ++ second) = endLines newline first ++ endLines newline second :=
  List.flatMap_append

theorem endLines_eq_self (newline : List Char) (h : '\n' ∉ cs) : endLines newline cs = cs := by
  induction cs with
  | nil => rfl
  | cons c cs ih =>
    simp only [List.mem_cons, not_or] at h
    rw [endLines_cons, if_neg (Ne.symm h.1), ih h.2, List.singleton_append]

theorem endLines_newline (cs : List Char) : endLines ['\n'] cs = cs := by
  induction cs with
  | nil => rfl
  | cons c cs ih =>
    rw [endLines_cons, ih]
    split
    · rename_i hc
      rw [hc, List.singleton_append]
    · rfl

theorem plainLines_endLines (h : '\r' ∉ cs) : plainLines (endLines ['\r', '\n'] cs) = cs := by
  induction cs with
  | nil => exact plainLines_nil
  | cons c cs ih =>
    simp only [List.mem_cons, not_or] at h
    have hrest := ih h.2
    rw [endLines_cons]
    by_cases hc : c = '\n'
    · subst hc
      exact (plainLines_return_newline _).trans (congrArg _ hrest)
    · rw [if_neg hc]
      exact (plainLines_cons (Ne.symm h.1) _).trans (congrArg _ hrest)

end DocMerge.Files

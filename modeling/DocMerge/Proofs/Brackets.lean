import DocMerge.DocId.Canonical

/-!
# Bracketed texts

A text in which every bracket is closed is passed over as a whole: what was open before it is open
after it, and it is split only at separators that stand outside of its brackets.
-/

namespace DocMerge.DocId

open Text (consFirst)

-- ---------------------------------------------------------------------------
-- Brackets
-- ---------------------------------------------------------------------------

def isBracket (c : Char) : Bool := opens c || (opener? c).isSome

theorem opens_of_opener? (h : opener? close = some o) : opens o = true := by
  unfold opener? at h
  split at h <;> cases h <;> rfl

theorem opens_eq_false_of_opener? (h : opener? close = some o) : opens close = false := by
  unfold opener? at h
  split at h <;> first | rfl | cases h

theorem not_bracket (h : isBracket c = false) : opens c = false ∧ opener? c = none := by
  simpa [isBracket] using h

theorem weight_of_not_bracket (h : isBracket c = false) : weight c = 0 := by
  obtain ⟨hopens, hcloses⟩ := not_bracket h
  simp [weight, hopens, hcloses]

/-- Every bracket is closed by its own, and what stands outside of all brackets is allowed there. -/
inductive Bracketed : (Char → Prop) → List Char → Prop
  | nil : Bracketed outside []
  | plain (hc : outside c) (hbracket : isBracket c = false) (hrest : Bracketed outside rest) :
    Bracketed outside (c :: rest)
  | wrapped {close o : Char} {outside : Char → Prop} {inner rest : List Char}
    (hclose : opener? close = some o)
    (hinner : Bracketed (fun _ => True) inner) (hrest : Bracketed outside rest) :
    Bracketed outside (o :: (inner ++ close :: rest))

namespace Bracketed

theorem of_plain (h : ∀ c ∈ cs, outside c ∧ isBracket c = false) : Bracketed outside cs := by
  induction cs with
  | nil => exact .nil
  | cons c rest ih =>
    rw [List.forall_mem_cons] at h
    exact .plain h.1.1 h.1.2 (ih h.2)

theorem mono (h : Bracketed outside cs) (hall : ∀ c, outside c → allowed c) :
    Bracketed allowed cs := by
  induction h with
  | nil => exact .nil
  | plain hc hbracket _ ih => exact .plain (hall _ hc) hbracket (ih hall)
  | wrapped hclose hinner _ _ ih => exact .wrapped hclose hinner (ih hall)

theorem append (h : Bracketed outside cs) (hrest : Bracketed outside rest) :
    Bracketed outside (cs ++ rest) := by
  induction h with
  | nil => exact hrest
  | plain hc hbracket _ ih => exact .plain hc hbracket (ih hrest)
  | wrapped hclose hinner _ _ ih =>
    rw [List.cons_append, List.append_assoc, List.cons_append]
    exact .wrapped hclose hinner (ih hrest)

theorem within (hclose : opener? close = some o) (h : Bracketed allowed cs) :
    Bracketed outside (o :: (cs ++ [close])) :=
  .wrapped hclose (h.mono fun _ _ => trivial) .nil

theorem map {f : Char → Char} (hbrackets : ∀ c, isBracket c = true → f c = c)
    (hothers : ∀ c, isBracket c = false → isBracket (f c) = false) (h : Bracketed outside cs)
    (hall : ∀ c, outside c → allowed (f c)) : Bracketed allowed (cs.map f) := by
  induction h generalizing allowed with
  | nil => exact .nil
  | plain hc hbracket _ ih => exact .plain (hall _ hc) (hothers _ hbracket) (ih hall)
  | @wrapped close o _ _ _ hclose _ _ ihinner ih =>
    have hopen := hbrackets o (by simp [isBracket, opens_of_opener? hclose])
    have hclosed := hbrackets close (by simp [isBracket, hclose])
    rw [List.map_cons, List.map_append, List.map_cons, hopen, hclosed]
    exact .wrapped hclose (ihinner fun _ _ => trivial) (ih hall)

theorem closesAll_append (h : Bracketed outside cs) (opened rest : List Char) :
    closesAll opened (cs ++ rest) = closesAll opened rest := by
  induction h generalizing opened rest with
  | nil => rfl
  | plain _ hbracket _ ih =>
    obtain ⟨hopens, hcloses⟩ := not_bracket hbracket
    rw [List.cons_append, closesAll, hopens, hcloses]
    exact ih opened rest
  | @wrapped close o _ inner more hclose _ _ ihinner ih =>
    rw [List.cons_append, List.append_assoc, closesAll, opens_of_opener? hclose,
      if_pos rfl, ihinner,
      List.cons_append, closesAll, opens_eq_false_of_opener? hclose, hclose]
    simp only [Bool.false_eq_true, if_false, beq_self_eq_true, Bool.true_and]
    exact ih opened rest

theorem balanced (h : Bracketed outside cs) : balanced cs = true := by
  have hclosed := h.closesAll_append [] []
  rwa [List.append_nil] at hclosed

end Bracketed

-- ---------------------------------------------------------------------------
-- Splitting
-- ---------------------------------------------------------------------------

theorem splitTop_ne_nil (separator : Char) (depth : Int) (cs : List Char) :
    splitTop separator depth cs ≠ [] := by
  cases cs with
  | nil => simp [splitTop]
  | cons c rest =>
    simp only [splitTop]
    split
    · exact List.cons_ne_nil _ _
    · cases splitTop separator (depth + weight c) rest <;> exact List.cons_ne_nil _ _

theorem foldr_consFirst (cs part : List Char) (parts : List (List Char)) :
    cs.foldr consFirst (part :: parts) = (cs ++ part) :: parts := by
  induction cs with
  | nil => rfl
  | cons c rest ih => rw [List.foldr_cons, ih, consFirst, List.cons_append]

/-- A bracketed text has no separator in it when it stands within other brackets, nor at the top
level when the separator is not allowed outside of its brackets. -/
theorem Bracketed.splitTop_append (h : Bracketed outside cs)
    (hseparator : isBracket separator = false)
    (hdepth : 0 < depth ∨ depth = 0 ∧ ¬ outside separator) (rest : List Char) :
    splitTop separator depth (cs ++ rest) = cs.foldr consFirst (splitTop separator depth rest) := by
  induction h generalizing depth rest with
  | nil => rfl
  | @plain _ c _ hc hbracket _ ih =>
    have hnot : (c == separator && depth == 0) = false := by
      rw [Bool.and_eq_false_iff, beq_eq_false_iff_ne, beq_eq_false_iff_ne]
      rcases hdepth with hpos | ⟨-, houtside⟩
      · exact .inr (by omega)
      · exact .inl fun heq => houtside (heq ▸ hc)
    simp only [List.cons_append, splitTop, weight_of_not_bracket hbracket, Int.add_zero,
      hnot, List.foldr_cons,
      Bool.false_eq_true, if_false]
    rw [ih hdepth]
  | @wrapped close o _ inner more hclose _ _ ihinner ih =>
    have hnonneg : 0 ≤ depth := by omega
    have hopen : weight o = 1 := by simp [weight, opens_of_opener? hclose]
    have hshut : weight close = -1 := by simp [weight, opens_eq_false_of_opener? hclose, hclose]
    have hin : (depth + 1 == 0) = false := by
      rw [beq_eq_false_iff_ne]
      omega
    have hne : (close == separator) = false := by
      rw [beq_eq_false_iff_ne]
      rintro rfl
      simp [isBracket, hclose] at hseparator
    have hinner := @ihinner (depth + 1) (.inl (by omega)) (close :: (more ++ rest))
    simp only [List.cons_append, List.append_assoc, splitTop, hopen, hin, Bool.and_false,
      Bool.false_eq_true,
      if_false, List.foldr_cons, List.foldr_append, hinner, hshut, hne, Bool.false_and,
      Int.add_neg_cancel_right]
    rw [ih hdepth]

theorem Bracketed.splitTop_separator (h : Bracketed outside cs)
    (hseparator : isBracket separator = false)
    (houtside : ¬ outside separator) (rest : List Char) :
    splitTop separator 0 (cs ++ separator :: rest) = cs :: splitTop separator 0 rest := by
  rw [h.splitTop_append hseparator (.inr ⟨rfl, houtside⟩)]
  simp [splitTop, weight_of_not_bracket hseparator, foldr_consFirst]

theorem Bracketed.splitTop_eq (h : Bracketed outside cs) (hseparator : isBracket separator = false)
    (houtside : ¬ outside separator) : splitTop separator 0 cs = [cs] := by
  have hsplit := h.splitTop_append hseparator (.inr ⟨rfl, houtside⟩) []
  rwa [List.append_nil, splitTop, foldr_consFirst, List.append_nil] at hsplit

end DocMerge.DocId

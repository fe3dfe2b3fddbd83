import DocMerge.Proofs.Assemblies
import DocMerge.Proofs.Owners
import Mathlib

/-!
# The braces of a canonical spelling

How many braces a canonical spelling has. In a parameter list, every bracket around generic
arguments comes to be one. In a name, braces stay unless they stand among generic arguments that are
counted, so a name that goes on with a text without angle brackets keeps all braces of that text.
-/

namespace DocMerge.DocId

open Text (consFirst cutAt?_eq_some dropStart? dropStart?_eq_some_iff hasEnd isDigit joinWith)

-- ---------------------------------------------------------------------------
-- Parameter lists
-- ---------------------------------------------------------------------------

theorem lowerBound_eq_some (h : lowerBound before cs = some (found, after)) :
    found = [] ∧ ∃ passed, passed ≠ [] ∧ cs = passed ++ after ∧ passed.countP isCurly = 0 := by
  simp only [lowerBound, Option.bind_eq_bind, Option.bind_eq_some_iff, dropStart?_eq_some_iff,
    Option.ite_none_right_eq_some, Option.some.injEq, Prod.mk.injEq] at h
  obtain ⟨_, -, rest, hrest, _, -, _, -, -, rfl, rfl⟩ := h
  obtain ⟨sign, hsign, hcs⟩ : ∃ sign, (sign = [] ∨ sign = ['-']) ∧
      cs = sign ++ (dropStart? ['-'] cs).getD cs := by
    cases hstart : dropStart? ['-'] cs with
    | none => exact ⟨[], .inl rfl, rfl⟩
    | some digits => exact ⟨['-'], .inr rfl, dropStart?_eq_some_iff.mp hstart⟩
  generalize (dropStart? ['-'] cs).getD cs = digits at hrest hcs
  refine ⟨rfl, sign ++ (digits.takeWhile isDigit ++ [':']), by simp, ?_, ?_⟩
  · rw [hcs, List.append_assoc, List.append_assoc, ← hrest, List.takeWhile_append_dropWhile]
  · have hdigits : (digits.takeWhile isDigit).countP isCurly = 0 :=
      List.countP_eq_zero.mpr fun c hc => by
      rw [Bool.not_eq_true]
      exact not_curly (not_generic (by decide) (List.mem_takeWhile_imp hc))
    rw [List.countP_append, List.countP_append, hdigits]
    rcases hsign with rfl | rfl <;> rfl

theorem countP_canonicalArguments (cs : List Char) :
    (canonicalArguments cs).countP isCurly = cs.countP isGeneric := by
  have hchar : isCurly ∘ argumentChar = isGeneric := by
    funext c
    rw [Function.comp_apply]
    unfold argumentChar
    split
    · rfl
    · rfl
    · rfl
    · rename_i hopen hclose _
      rw [isCurly_dotted]
      simp [isGeneric, show c ≠ '<' from hopen, show c ≠ '>' from hclose]
  rw [canonicalArguments, Text.countP_replaceAll, List.countP_map, hchar]
  intro before cs found after h
  obtain ⟨rfl, passed, hne, hcs, hcount⟩ := lowerBound_eq_some h
  exact ⟨passed, hne, hcs, hcount.symm⟩

-- ---------------------------------------------------------------------------
-- Parts of names
-- ---------------------------------------------------------------------------

def keptBraces (part : List Char) : Nat := (countArguments [] part).countP isCurly

theorem countP_countArguments (htick : tick.countP isCurly = 0) (part : List Char) :
    (countArguments tick part).countP isCurly = keptBraces part := by
  unfold keptBraces countArguments
  split
  · split
    · simp [htick]
    · rfl
  · rfl

theorem keptBraces_le (part : List Char) : keptBraces part ≤ part.countP isCurly := by
  unfold keptBraces countArguments
  split
  · rename_i name inner hcut
    split
    · have hdigits : ∀ n : Nat, (toString n).toList.countP isCurly = 0 := fun n =>
        List.countP_eq_zero.mpr fun c hc => by
          rw [Bool.not_eq_true]
          exact not_curly (not_generic (by decide) (Text.isDigit_of_mem_repr hc))
      rw [List.append_nil, List.countP_append, hdigits, Nat.add_zero, cutAt?_eq_some hcut,
        List.append_assoc,
        List.countP_append]
      exact Nat.le_add_right _ _
    · exact Nat.le_refl _
  · exact Nat.le_refl _

/-- A part that does not end in an angle bracket keeps its braces. -/
theorem keptBraces_eq (h : part.getLast? ≠ some '>') : keptBraces part = part.countP isCurly := by
  have hend : hasEnd ['>'] part = false := by
    rw [← Bool.not_eq_true]
    intro hend
    obtain ⟨rest, hrest⟩ := Option.isSome_iff_exists.mp hend
    refine h ?_
    rw [List.getLast?_eq_head?_reverse, dropStart?_eq_some_iff.mp hrest]
    rfl
  unfold keptBraces countArguments
  rw [hend]
  split <;> rfl

theorem countP_joinWith (parts : List (List Char)) :
    (joinWith ['.'] parts).countP isCurly = (parts.map (List.countP isCurly)).sum := by
  induction parts with
  | nil => rfl
  | cons part parts ih =>
    cases parts with
    | nil => simp [joinWith]
    | cons next parts =>
      rw [joinWith_cons_cons, List.countP_append, List.countP_cons_of_neg (by decide), ih]
      simp only [List.map_cons, List.sum_cons]

theorem sum_countP_splitTop (depth : Int) (cs : List Char) :
    ((splitTop '.' depth cs).map (List.countP isCurly)).sum = cs.countP isCurly := by
  rw [← countP_joinWith, joinWith_splitTop]

theorem subset_of_mem_splitTop (h : part ∈ splitTop separator depth cs) : part ⊆ cs := by
  induction cs generalizing part depth with
  | nil =>
    obtain rfl := List.mem_singleton.mp h
    exact List.nil_subset _
  | cons c rest ih =>
    rw [splitTop] at h
    split at h
    · rcases List.mem_cons.mp h with rfl | h
      · exact List.nil_subset _
      · exact List.subset_cons_of_subset c (ih h)
    · obtain ⟨first, parts, hparts⟩ :=
        List.exists_cons_of_ne_nil (splitTop_ne_nil separator (depth + weight c) rest)
      rw [hparts, consFirst] at h
      rcases List.mem_cons.mp h with rfl | h
      · exact List.cons_subset_cons c (ih (hparts ▸ List.mem_cons_self))
      · exact List.subset_cons_of_subset c (ih (hparts ▸ List.mem_cons_of_mem first h))

theorem splitTop_append (separator : Char) (depth : Int) (cs : List Char) :
    ∃ (parts : List (List Char)) (last : List Char) (depth' : Int), ∀ rest,
      splitTop separator depth (cs ++ rest) = parts ++
      last.foldr consFirst (splitTop separator depth' rest) := by
  induction cs generalizing depth with
  | nil => exact ⟨[], [], depth, fun _ => rfl⟩
  | cons c cs ih =>
    obtain ⟨parts, last, depth', hall⟩ := ih (depth + weight c)
    by_cases hcut : (c == separator && depth + weight c == 0) = true
    · refine ⟨[] :: parts, last, depth', fun rest => ?_⟩
      rw [List.cons_append, splitTop, if_pos hcut, hall, List.cons_append]
    · cases parts with
      | nil =>
        refine ⟨[], c :: last, depth', fun rest => ?_⟩
        rw [List.cons_append, splitTop, if_neg hcut, hall]
        rfl
      | cons part parts =>
        refine ⟨(c :: part) :: parts, last, depth', fun rest => ?_⟩
        rw [List.cons_append, splitTop, if_neg hcut, hall]
        rfl

-- ---------------------------------------------------------------------------
-- Names
-- ---------------------------------------------------------------------------

theorem map_mapWithLast {init last : α → β} {f : β → γ} {g : α → γ} (hinit : ∀ x, f (init x) = g x)
    (hlast : ∀ x, f (last x) = g x) (xs : List α) :
    (mapWithLast init last xs).map f = xs.map g := by
  induction xs with
  | nil => rfl
  | cons x xs ih =>
    cases xs with
    | nil => simp [mapWithLast, hlast]
    | cons next xs =>
      rw [mapWithLast, List.map_cons, ih, hinit]
      · rfl
      · exact List.cons_ne_nil next xs

theorem countP_canonicalName (method : Bool) (name : List Char) :
    (canonicalName method name).countP isCurly =
    ((splitTop '.' 0 (name.map dotted)).map keptBraces).sum := by
  have htick : ∀ part, (countArguments (if method then ['`', '`'] else ['`']) part).countP isCurly =
      keptBraces part := countP_countArguments (by cases method <;> rfl)
  rw [canonicalName, Text.countP_replaceAll, countP_joinWith,
    map_mapWithLast (countP_countArguments rfl) htick]
  intro before cs found after h
  simp only [interfaceMark, Option.bind_eq_bind, Option.bind_eq_some_iff, dropStart?_eq_some_iff,
    Option.ite_none_right_eq_some, Option.some.injEq, Prod.mk.injEq] at h
  obtain ⟨_, -, rest, rfl, _, -, -, rfl, rfl⟩ := h
  exact ⟨['#'], by simp, rfl, rfl⟩

theorem countP_map_dotted (cs : List Char) :
    (cs.map dotted).countP isCurly = cs.countP isCurly := by
  rw [List.countP_map, show isCurly ∘ dotted = isCurly from funext isCurly_dotted]

theorem head_splitTop_ne_nil (hne : rest ≠ []) (hcontinues : Continues rest)
    (h : splitTop '.' depth (rest.map dotted) = part :: more) : part ≠ [] := by
  obtain ⟨c, rest, rfl⟩ := List.exists_cons_of_ne_nil hne
  have hc : (dotted c == '.') = false := beq_eq_false_iff_ne.mpr (continues_cons.mp hcontinues).2
  obtain ⟨next, parts, hnext⟩ :=
    List.exists_cons_of_ne_nil (splitTop_ne_nil '.' (depth + weight (dotted c)) (rest.map dotted))
  rw [List.map_cons, splitTop, hc, Bool.false_and, if_neg Bool.false_ne_true, hnext, consFirst] at h
  rw [← (List.cons.inj h).1]
  exact List.cons_ne_nil _ _

theorem not_mem_splitTop_dotted {rest : List Char} (hangle : '>' ∉ rest)
    (hpart : part ∈ splitTop '.' depth (rest.map dotted)) : '>' ∉ part := by
  intro hmem
  obtain ⟨c, hc, hdotted⟩ := List.mem_map.mp (subset_of_mem_splitTop hpart hmem)
  unfold dotted at hdotted
  split at hdotted
  · cases hdotted
  · exact hangle (hdotted ▸ hc)

/-- The braces of a canonical name are those of its parts, of which the last one that stands in the
beginning goes on behind it. -/
theorem countP_canonicalName_parts (method : Bool) (name : List Char) :
    ∃ (parts : List (List Char)) (last : List Char) (depth : Int), ∀ rest,
      ∃ part more, splitTop '.' depth (rest.map dotted) = part :: more ∧
        part.countP isCurly + (more.map (List.countP isCurly)).sum = rest.countP isCurly ∧
        (canonicalName method (name ++ rest)).countP isCurly =
          (parts.map keptBraces).sum + (keptBraces (last ++ part) + (more.map keptBraces).sum) := by
  obtain ⟨parts, last, depth, hsplit⟩ := splitTop_append '.' 0 (name.map dotted)
  refine ⟨parts, last, depth, fun rest => ?_⟩
  obtain ⟨part, more, hmore⟩ :=
    List.exists_cons_of_ne_nil (splitTop_ne_nil '.' depth (rest.map dotted))
  refine ⟨part, more, hmore, ?_, ?_⟩
  · have hsum := sum_countP_splitTop depth (rest.map dotted)
    rwa [hmore, countP_map_dotted, List.map_cons, List.sum_cons] at hsum
  · rw [countP_canonicalName, List.map_append, hsplit, hmore, foldr_consFirst,
      List.map_append, List.sum_append,
      List.map_cons, List.sum_cons]

/-- How many braces a canonical name has, told from its beginning. -/
theorem countP_canonicalName_append (method : Bool) (name : List Char) :
    ∃ kept,
      (∀ rest, (canonicalName method (name ++ rest)).countP isCurly ≤
        kept + rest.countP isCurly) ∧
      ∀ rest, rest ≠ [] → Continues rest → '>' ∉ rest →
        (canonicalName method (name ++ rest)).countP isCurly = kept + rest.countP isCurly := by
  obtain ⟨parts, last, depth, hcount⟩ := countP_canonicalName_parts method name
  refine ⟨(parts.map keptBraces).sum + last.countP isCurly, fun rest => ?_,
    fun rest hne hcontinues hangle => ?_⟩
  · obtain ⟨part, more, -, hrest, hall⟩ := hcount rest
    have hpart := keptBraces_le (last ++ part)
    have hmore := List.sum_le_sum fun text (_ : text ∈ more) => keptBraces_le text
    rw [List.countP_append] at hpart
    omega
  · -- No part that is begun here ends in an angle bracket, so all of them keep their braces.
    obtain ⟨part, more, hparts, hrest, hall⟩ := hcount rest
    have hend : ∀ text ∈ part :: more, '>' ∉ text := fun text htext =>
      not_mem_splitTop_dotted hangle (hparts ▸ htext)
    have hlast : keptBraces (last ++ part) = (last ++ part).countP isCurly := by
      refine keptBraces_eq fun h => hend part List.mem_cons_self ?_
      rw [List.getLast?_append_of_ne_nil last (head_splitTop_ne_nil hne hcontinues hparts)] at h
      exact List.mem_of_getLast? h
    have hmore : (more.map keptBraces).sum = (more.map (List.countP isCurly)).sum := by
      refine congrArg List.sum (List.map_congr_left fun text htext => keptBraces_eq fun h => ?_)
      exact hend text (List.mem_cons_of_mem part htext) (List.mem_of_getLast? h)
    rw [hall, hlast, hmore, List.countP_append]
    omega

end DocMerge.DocId

import DocMerge.Proofs.Qualifiers

/-!
# Which identifiers have a canonical key

`isValid_iff`: an identifier has a canonical key exactly if, blanks aside, it is more than a kind
and its brackets close one another. `Nested` is the grammar of such texts, and `Closes` tells what
is left of one when some of its brackets are already open.
-/

namespace DocMerge.DocId

-- ---------------------------------------------------------------------------
-- Nested brackets
-- ---------------------------------------------------------------------------

inductive Pair : Char → Char → Prop
  | round : Pair '(' ')'
  | square : Pair '[' ']'
  | curly : Pair '\x7b' '\x7d'
  | angle : Pair '<' '>'

/-- Texts in which the brackets of each pair enclose another such text, and all other characters
stand anywhere. -/
inductive Nested : List Char → Prop
  | nil : Nested []
  | other (hopen : ∀ close, ¬ Pair c close) (hclose : ∀ o, ¬ Pair o c) (hrest : Nested rest) :
    Nested (c :: rest)
  | pair {o close : Char} {inner rest : List Char} (hpair : Pair o close) (hinner : Nested inner)
    (hrest : Nested rest) : Nested (o :: (inner ++ close :: rest))

theorem opener?_eq_some_iff : opener? close = some o ↔ Pair o close := by
  constructor
  · intro h
    unfold opener? at h
    split at h <;> cases h <;> constructor
  · rintro (_ | _ | _ | _) <;> rfl

theorem opens_eq_true_iff : opens c = true ↔ ∃ close, Pair c close := by
  constructor
  · intro h
    simp only [opens, Bool.or_eq_true, beq_iff_eq] at h
    rcases h with ((rfl | rfl) | rfl) | rfl
    · exact ⟨_, .round⟩
    · exact ⟨_, .square⟩
    · exact ⟨_, .curly⟩
    · exact ⟨_, .angle⟩
  · rintro ⟨close, hpair⟩
    exact opens_of_opener? (opener?_eq_some_iff.mpr hpair)

theorem isBracket_eq_false_iff :
    isBracket c = false ↔ (∀ close, ¬ Pair c close) ∧ ∀ o, ¬ Pair o c := by
  rw [isBracket, Bool.or_eq_false_iff, ← Bool.not_eq_true, opens_eq_true_iff, not_exists,
    Option.isSome_eq_false_iff,
    Option.isNone_iff_eq_none, Option.eq_none_iff_forall_ne_some]
  simp only [ne_eq, opener?_eq_some_iff]

theorem Nested.bracketed (h : Nested cs) : Bracketed (fun _ => True) cs := by
  induction h with
  | nil => exact .nil
  | other hopen hclose _ ih => exact .plain trivial (isBracket_eq_false_iff.mpr ⟨hopen, hclose⟩) ih
  | pair hpair _ _ ihinner ih => exact .wrapped (opener?_eq_some_iff.mpr hpair) ihinner ih

-- ---------------------------------------------------------------------------
-- Open brackets
-- ---------------------------------------------------------------------------

/-- A text closes the brackets that are open before it, the innermost first, and is nested apart
from that. -/
inductive Closes : List Char → List Char → Prop
  | none (h : Nested cs) : Closes [] cs
  | innermost {o close : Char} {opened inner rest : List Char} (h : Nested inner)
    (hpair : Pair o close)
    (hrest : Closes opened rest) : Closes (o :: opened) (inner ++ close :: rest)

/-- What may stand before any nested text may stand before a text that closes brackets. -/
theorem Closes.prepend (before : List Char) (hbefore : ∀ cs, Nested cs → Nested (before ++ cs))
    (h : Closes opened cs) :
    Closes opened (before ++ cs) := by
  cases h with
  | none h => exact .none (hbefore _ h)
  | innermost h hpair hrest =>
    rw [← List.append_assoc]
    exact .innermost (hbefore _ h) hpair hrest

theorem closes_of_closesAll (h : closesAll opened cs = true) : Closes opened cs := by
  induction cs generalizing opened with
  | nil =>
    obtain rfl := List.isEmpty_iff.mp h
    exact .none .nil
  | cons c rest ih =>
    rw [closesAll] at h
    split at h
    · -- The bracket is closed somewhere in the rest, and what is between the two is nested.
      cases ih h with
      | @innermost o close opened inner rest hinner hpair hrest =>
        have hpaired : ∀ cs, Nested cs → Nested (c :: inner ++ [close] ++ cs) := fun cs hcs => by
          rw [List.append_assoc]
          exact .pair hpair hinner hcs
        simpa using hrest.prepend _ hpaired
    · rename_i hopens
      split at h
      · rename_i hcloses
        have hbracket : isBracket c = false := by simp [isBracket, hopens, hcloses]
        obtain ⟨hopen, hclose⟩ := isBracket_eq_false_iff.mp hbracket
        exact (ih h).prepend [c] fun cs hcs => .other hopen hclose hcs
      · rename_i hcloses
        split at h
        · cases h
        · rw [Bool.and_eq_true, beq_iff_eq] at h
          obtain ⟨rfl, hrest⟩ := h
          exact .innermost .nil (opener?_eq_some_iff.mp hcloses) (ih hrest)

theorem balanced_iff : balanced cs = true ↔ Nested cs := by
  constructor
  · intro h
    cases closes_of_closesAll h with
    | none h => exact h
  · exact fun h => h.bracketed.balanced

theorem Nested.append_iff (h : Nested cs) : Nested (cs ++ rest) ↔ Nested rest := by
  rw [← balanced_iff, balanced, h.bracketed.closesAll_append]
  exact balanced_iff

-- ---------------------------------------------------------------------------
-- Keys
-- ---------------------------------------------------------------------------

theorem kindLetter?_eq_some_iff :
    kindLetter? cs = some (letter, rest) ↔ letter.isAlpha = true ∧ cs = letter :: ':' :: rest := by
  constructor
  · intro h
    unfold kindLetter? at h
    split at h
    · rw [Option.ite_none_right_eq_some, Option.some.injEq, Prod.mk.injEq] at h
      obtain ⟨halpha, rfl, rfl⟩ := h
      exact ⟨halpha, rfl⟩
    · cases h
  · rintro ⟨halpha, rfl⟩
    rw [kindLetter?, if_pos halpha]

theorem splitKind_eq_nil_iff :
    (splitKind cs).2 = [] ↔ cs = [] ∨ ∃ letter, letter.isAlpha = true ∧ cs = [letter, ':'] := by
  unfold splitKind
  split
  · rename_i letter rest hletter
    obtain ⟨halpha, rfl⟩ := kindLetter?_eq_some_iff.mp hletter
    constructor
    · rintro rfl
      exact .inr ⟨letter, halpha, rfl⟩
    · rintro (h | ⟨_, _, h⟩)
      · cases h
      · cases h
        rfl
  · rename_i hletter
    constructor
    · exact .inl
    · rintro (h | ⟨letter, halpha, h⟩)
      · exact h
      · rw [kindLetter?_eq_some_iff.mpr ⟨halpha, h⟩] at hletter
        cases hletter

theorem keyOf_isValid_iff :
    (keyOf cs).isValid = true ↔ balanced cs = true ∧ (splitKind cs).2 ≠ [] := by
  unfold keyOf
  split
  · rename_i h
    rw [Bool.or_eq_true, List.isEmpty_iff, Bool.not_eq_true'] at h
    constructor
    · intro hvalid
      cases hvalid
    · rintro ⟨hbalanced, hbody⟩
      rcases h with rfl | h
      · exact absurd rfl hbody
      · rw [h] at hbalanced
        cases hbalanced
  · rename_i h
    rw [Bool.not_eq_true, Bool.or_eq_false_iff, Bool.not_eq_false'] at h
    dsimp only
    split
    · rename_i hbody
      simp [Key.isValid, List.isEmpty_iff.mp hbody]
    · rename_i hbody
      simpa [Key.isValid, h.2] using hbody

theorem keyOf_of_isValid (hvalid : (keyOf cs).isValid = true) :
    keyOf cs = .canonical (String.ofList ((splitKind cs).1 ++
      canonicalBody ((splitKind cs).1 == ['M', ':']) (splitKind cs).2)) := by
  unfold keyOf at hvalid ⊢
  split
  · rename_i h
    rw [if_pos h] at hvalid
    cases hvalid
  · rename_i h
    rw [if_neg h] at hvalid
    dsimp only at hvalid ⊢
    split
    · rename_i hbody
      rw [if_pos hbody] at hvalid
      cases hvalid
    · rfl

/-- A DocId has a canonical key exactly if there is more to it than a kind and blanks, and its
brackets are nested. No later step takes the key away, whatever it takes out of the text. -/
theorem isValid_iff (raw : String) :
    let text := Text.withoutBlanks raw.toList
    (Key.ofDocId raw).isValid = true ↔
      text ≠ [] ∧ (¬ ∃ letter, letter.isAlpha = true ∧ text = [letter, ':']) ∧ Nested text := by
  intro text
  rw [Key.ofDocId, keyOf_isValid_iff, balanced_iff, ne_eq, splitKind_eq_nil_iff, not_or]
  exact ⟨fun ⟨hnested, hne, hkind⟩ => ⟨hne, hkind, hnested⟩, fun ⟨hne, hkind, hnested⟩ =>
    ⟨hnested, hne, hkind⟩⟩

-- A name that consists of an assembly only is taken out as a whole.
example : Key.ofDocId "T: , Core, Version=4.0" = .canonical "T:" := by decide +kernel

example : Key.ofDocId "T:Stack<T[>]" = .malformed "T:Stack<T[>]" := by decide +kernel

end DocMerge.DocId

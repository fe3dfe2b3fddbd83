import DocMerge.Proofs.Qualifiers
import Mathlib.Data.List.TakeWhile

/-!
# Assemblies behind the names of types

A type name may be followed by the assembly that it is from, with a version, a culture and a token.
Their values end before a comma or one of the brackets that close, but not before an angle bracket.
`Rereads` tells what a reader makes of a text when its generic arguments are written in braces: the
same as before if it passes over no angle bracket that closes, and less otherwise.
-/

namespace DocMerge.DocId

open Text (Pattern Advances LooksAhead Scanned replaceAll scan scanFrom matched
  isNameStart dropStart?
  dropStart?_eq_some_iff dropStart?_map dropStart?_append_stop)

-- ---------------------------------------------------------------------------
-- Brackets around generic arguments
-- ---------------------------------------------------------------------------

def brace : Char → Char
  | '<' => '\x7b'
  | '>' => '\x7d'
  | c => c

def isCurly (c : Char) : Bool := c == '\x7b' || c == '\x7d'

def isGeneric (c : Char) : Bool := c == '<' || c == '>' || isCurly c

/-- What does not tell the two kinds of brackets apart is not changed by the braces. -/
theorem apply_brace {f : Char → α} (hopen : f '\x7b' = f '<')
    (hclose : f '\x7d' = f '>') (c : Char) :
    f (brace c) = f c := by
  unfold brace
  split
  · exact hopen
  · exact hclose
  · rfl

theorem not_generic {p : Char → Bool} (hnone : ∀ d ∈ ['<', '>', '\x7b', '\x7d'], p d = false)
    (h : p c = true) :
    isGeneric c = false := by
  rw [← Bool.not_eq_true]
  intro hgeneric
  have hmem : c ∈ ['<', '>', '\x7b', '\x7d'] := by
    simpa [isGeneric, isCurly, or_assoc] using hgeneric
  rw [hnone c hmem] at h
  cases h

theorem not_curly (h : isGeneric c = false) : isCurly c = false := by
  rw [isGeneric, Bool.or_eq_false_iff] at h
  exact h.2

theorem isCurly_dotted (c : Char) : isCurly (dotted c) = isCurly c := by
  unfold dotted
  split
  · rename_i hseparator
    rw [Bool.or_eq_true, beq_iff_eq, beq_iff_eq] at hseparator
    rcases hseparator with rfl | rfl <;> rfl
  · rfl

theorem brace_eq_iff (h : isGeneric d = false) (c : Char) : brace c = d ↔ c = d := by
  unfold brace
  split
  · constructor <;> rintro rfl <;> cases h
  · constructor <;> rintro rfl <;> cases h
  · rfl

theorem brace_eq_close : brace c = '\x7d' ↔ c = '>' ∨ c = '\x7d' := by
  constructor
  · intro h
    unfold brace at h
    split at h
    · cases h
    · exact .inl rfl
    · exact .inr h
  · rintro (rfl | rfl) <;> rfl

-- ---------------------------------------------------------------------------
-- The name of an assembly
-- ---------------------------------------------------------------------------

def assemblyHead? (cs : List Char) : Option (List Char) := do
  dropStart? ",Version=".toList (← dropAssemblyName? (← dropStart? [','] cs))

def dropProperties (cs : List Char) : List Char :=
  dropOptionalProperty ",PublicKeyToken=".toList
    (dropOptionalProperty ",Culture=".toList (dropProperty cs))

theorem assemblySuffix_eq (before : Option Char) (cs : List Char) :
    assemblySuffix before cs = (assemblyHead? cs).map fun versioned =>
      ([], dropProperties versioned) := by
  simp only [assemblySuffix, assemblyHead?, Option.bind_eq_bind, Option.map_eq_bind,
    Option.bind_assoc]
  rfl

theorem assemblySuffix_looksAhead : LooksAhead assemblySuffix := fun _ _ _ => rfl

theorem isNamePart_of_isNameStart (h : isNameStart c = true) : isNamePart c = true := by
  rw [isNameStart, Bool.or_eq_true] at h
  simp only [isNamePart, Text.isWord, Char.isAlphanum, Bool.or_eq_true]
  rcases h with h | h
  · exact .inl (.inl (.inl (.inl h)))
  · exact .inl (.inl (.inr h))

theorem dropAssemblyName?_eq_some (h : dropAssemblyName? cs = some behind) :
    ∃ name, (∀ c ∈ name, isNamePart c = true) ∧ cs = name ++ behind := by
  cases cs with
  | nil => cases h
  | cons c rest =>
    rw [dropAssemblyName?, Option.ite_none_right_eq_some, Option.some.injEq] at h
    obtain ⟨hstart, rfl⟩ := h
    refine ⟨c :: rest.takeWhile isNamePart, ?_, ?_⟩
    · exact List.forall_mem_cons.mpr ⟨isNamePart_of_isNameStart hstart, fun d hd =>
        List.mem_takeWhile_imp hd⟩
    · rw [List.cons_append, List.takeWhile_append_dropWhile]

theorem countP_assemblyName {name : List Char} (h : ∀ c ∈ name, isNamePart c = true) :
    name.countP isGeneric = 0 := by
  rw [List.countP_eq_zero]
  intro c hc
  rw [Bool.not_eq_true]
  exact not_generic (by decide) (h c hc)

theorem dropAssemblyName?_map (cs : List Char) :
    dropAssemblyName? (cs.map brace) = (dropAssemblyName? cs).map (List.map brace) := by
  cases cs with
  | nil => rfl
  | cons c rest =>
    have hpart : isNamePart ∘ brace = isNamePart := funext (apply_brace (by decide) (by decide))
    rw [List.map_cons, dropAssemblyName?, apply_brace (f := isNameStart) (by decide) (by decide),
      dropAssemblyName?,
      List.dropWhile_map, hpart]
    split <;> rfl

/-- A name is not read across a round bracket. -/
theorem dropAssemblyName?_append (cs rest : List Char) :
    dropAssemblyName? (cs ++ '(' :: rest) = (dropAssemblyName? cs).map (· ++ '(' :: rest) := by
  cases cs with
  | nil => rfl
  | cons c cs =>
    have hdrop : (cs ++ '(' :: rest).dropWhile isNamePart =
        cs.dropWhile isNamePart ++ '(' :: rest := by
      rw [List.dropWhile_append]
      split
      · rename_i hempty
        rw [List.isEmpty_iff.mp hempty]
        rfl
      · rfl
    rw [List.cons_append, dropAssemblyName?, hdrop, dropAssemblyName?]
    split <;> rfl

theorem dropStart?_map_brace (start : List Char) (h : ∀ d ∈ start, isGeneric d = false)
    (cs : List Char) :
    dropStart? start (cs.map brace) = (dropStart? start cs).map (List.map brace) :=
  dropStart?_map (fun d hd c => brace_eq_iff (h d hd) c) cs

theorem assemblyHead?_map (cs : List Char) :
    assemblyHead? (cs.map brace) = (assemblyHead? cs).map (List.map brace) := by
  have hcomma := dropStart?_map_brace [','] (by decide)
  have hversion := dropStart?_map_brace ",Version=".toList (by decide)
  simp only [assemblyHead?, Option.bind_eq_bind, hcomma, Option.bind_map, Function.comp_def,
    dropAssemblyName?_map,
    hversion, Option.map_bind]

theorem assemblyHead?_append (cs rest : List Char) :
    assemblyHead? (cs ++ '(' :: rest) = (assemblyHead? cs).map (· ++ '(' :: rest) := by
  have hcomma := dropStart?_append_stop [','] '(' (by decide)
  have hversion := dropStart?_append_stop ",Version=".toList '(' (by decide)
  simp only [assemblyHead?, Option.bind_eq_bind, hcomma, Option.bind_map, Function.comp_def,
    dropAssemblyName?_append, hversion, Option.map_bind]

theorem assemblyHead?_eq_some (h : assemblyHead? cs = some versioned) :
    ∃ head, head ≠ [] ∧ '>' ∉ head ∧ cs = head ++ versioned := by
  simp only [assemblyHead?, Option.bind_eq_bind, Option.bind_eq_some_iff,
    dropStart?_eq_some_iff] at h
  obtain ⟨named, rfl, behind, hbehind, rfl⟩ := h
  obtain ⟨name, hname, rfl⟩ := dropAssemblyName?_eq_some hbehind
  refine ⟨',' :: name ++ ",Version=".toList, by simp, ?_, by simp⟩
  simp only [List.mem_append, List.mem_cons, not_or]
  refine ⟨⟨by decide, fun hmem => ?_⟩, by decide⟩
  cases not_generic (by decide) (hname _ hmem)

-- ---------------------------------------------------------------------------
-- Properties
-- ---------------------------------------------------------------------------

def Inert : List Char → Prop
  | [] => True
  | c :: cs => (∀ rest, assemblyHead? (c :: (cs ++ rest)) = none) ∧ Inert cs

theorem inert_cons (hc : c ≠ ',') (h : Inert cs) : Inert (c :: cs) := by
  refine ⟨fun rest => ?_, h⟩
  simp [assemblyHead?, dropStart?, Ne.symm hc]

theorem inert_of_no_comma (h : ∀ c ∈ cs, c ≠ ',') : Inert cs := by
  induction cs with
  | nil => trivial
  | cons c cs ih =>
    rw [List.forall_mem_cons] at h
    exact inert_cons h.1 (ih h.2)

theorem Inert.append (h : Inert cs) (hmore : Inert more) : Inert (cs ++ more) := by
  induction cs with
  | nil => exact hmore
  | cons c cs ih =>
    refine ⟨fun rest => ?_, ih h.2⟩
    have hnone := h.1 (more ++ rest)
    rwa [← List.append_assoc] at hnone

theorem Inert.behind {cs : List Char} (h : Inert (cs ++ more)) : Inert more := by
  induction cs with
  | nil => exact h
  | cons c cs ih => exact ih h.2

/-- The braces stand where no assembly begins, so the text is left alone. -/
theorem Inert.replaceAll_map (h : Inert cs) (rest : List Char) :
    replaceAll assemblySuffix ((cs ++ rest).map brace) =
      cs.map brace ++ replaceAll assemblySuffix (rest.map brace) := by
  induction cs with
  | nil => rfl
  | cons c cs ih =>
    have hnone : assemblySuffix none ((c :: (cs ++ rest)).map brace) = none := by
      rw [assemblySuffix_eq, assemblyHead?_map, h.1 rest]
      rfl
    rw [List.cons_append, List.map_cons, assemblySuffix_looksAhead.replaceAll_cons hnone, ih h.2]
    rfl

/-- What a reader leaves of a text with braces: what it leaves of the text otherwise, or everything
from a closing brace on that was an angle bracket. -/
inductive Rereads (read : List Char → List Char) (cs : List Char) : Prop
  | same (passed : List Char) (hcs : cs = passed ++ read cs) (hinert : Inert passed)
    (hangle : '>' ∉ passed)
    (hread : read (cs.map brace) = (read cs).map brace)
  | sooner (before more : List Char) (hcs : cs = before ++ '>' :: (more ++ read cs))
    (hinert : Inert (before ++ '>' :: more))
    (hread : read (cs.map brace) = '\x7d' :: (more ++ read cs).map brace)

namespace Rereads

variable {read following : List Char → List Char}

theorem passed (h : Rereads read cs) : ∃ passed, cs = passed ++ read cs ∧ Inert passed := by
  cases h with
  | same passed hcs hinert => exact ⟨passed, hcs, hinert⟩
  | sooner before more hcs hinert => exact ⟨before ++ '>' :: more, by simpa using hcs, hinert⟩

/-- A reader that first takes something without angle brackets that close, in the text and in the
one with braces. -/
theorem prepend (h : Rereads read rest) (start : List Char) (hinert : Inert start)
    (hangle : '>' ∉ start)
    (hread : following (start ++ rest) = read rest)
    (hbraced : following ((start ++ rest).map brace) = read (rest.map brace)) :
    Rereads following (start ++ rest) := by
  cases h with
  | same passed hcs hvalue hnot hsame =>
    refine .same (start ++ passed) (by rw [hread, List.append_assoc, ← hcs])
      (hinert.append hvalue) ?_
      (by rw [hbraced, hread, hsame])
    simpa using ⟨hangle, hnot⟩
  | sooner before more hcs hvalue hsooner =>
    refine .sooner (start ++ before) more (by rw [hread, List.append_assoc, ← hcs]) ?_
      (by rw [hbraced, hread, hsooner])
    rw [List.append_assoc]
    exact hinert.append hvalue

/-- One reader after another, where the second has nothing to read at a brace. -/
theorem comp (h : Rereads read cs) (hfollowing : Rereads following (read cs))
    (hkept : ∀ rest, following ('\x7d' :: rest) = '\x7d' :: rest) :
    Rereads (fun cs => following (read cs)) cs := by
  cases h with
  | same passed hcs hinert hangle hsame =>
    have hall : Rereads (fun cs => following (read cs)) (passed ++ read cs) :=
      hfollowing.prepend passed hinert hangle (by rw [← hcs]) (by rw [← hcs, hsame])
    rwa [← hcs] at hall
  | sooner before more hcs hinert hsooner =>
    obtain ⟨passed, hpassed, hmore⟩ := hfollowing.passed
    refine .sooner before (more ++ passed) (by rw [List.append_assoc, ← hpassed, ← hcs]) ?_
      (by rw [hsooner, hkept, List.append_assoc, ← hpassed])
    rw [← List.cons_append, ← List.append_assoc]
    exact hinert.append hmore

end Rereads

theorem dropProperty_cons (h : ¬ (c = ',' ∨ c = ']' ∨ c = ')' ∨ c = '\x7d')) (rest : List Char) :
    dropProperty (c :: rest) = dropProperty rest := by
  rw [not_or, not_or, not_or] at h
  simp [dropProperty, h]

theorem dropProperty_rereads (cs : List Char) : Rereads dropProperty cs := by
  induction cs with
  | nil => exact .same [] rfl trivial (by simp) rfl
  | cons c rest ih =>
    by_cases hstop : c = ',' ∨ c = ']' ∨ c = ')' ∨ c = '\x7d'
    · refine .same [] ?_ trivial (by simp) ?_ <;> rcases hstop with rfl | rfl | rfl | rfl <;> rfl
    · have hread := dropProperty_cons hstop rest
      have hcomma : c ≠ ',' := fun heq => hstop (.inl heq)
      by_cases hangle : c = '>'
      · subst hangle
        obtain ⟨passed, hpassed, hinert⟩ := ih.passed
        refine .sooner [] passed ?_ (inert_cons hcomma hinert) ?_
        · rw [hread, ← hpassed]
          rfl
        · rw [hread, ← hpassed]
          rfl
      · refine ih.prepend [c] (inert_cons hcomma trivial) (by simpa using Ne.symm hangle) hread ?_
        refine dropProperty_cons ?_ _
        rw [brace_eq_iff rfl, brace_eq_iff rfl, brace_eq_iff rfl, brace_eq_close]
        simpa [hangle] using hstop

theorem dropOptionalProperty_rereads (hname : ∀ d ∈ name, isGeneric d = false) (hinert : Inert name)
    (cs : List Char) : Rereads (dropOptionalProperty name) cs := by
  have hstart := dropStart?_map_brace name hname cs
  cases h : dropStart? name cs with
  | none =>
    rw [h] at hstart
    refine .same [] ?_ trivial (by simp) ?_ <;> simp [dropOptionalProperty, h, hstart]
  | some rest =>
    rw [h] at hstart
    have hangle : '>' ∉ name := fun hmem => by cases hname _ hmem
    obtain rfl := dropStart?_eq_some_iff.mp h
    refine (dropProperty_rereads rest).prepend name hinert hangle ?_ ?_
    · simp [dropOptionalProperty, h]
    · rw [dropOptionalProperty, hstart]
      rfl

theorem dropProperty_append (h : dropProperty cs ≠ []) (rest : List Char) :
    dropProperty (cs ++ rest) = dropProperty cs ++ rest := by
  unfold dropProperty at h ⊢
  rw [List.dropWhile_append, if_neg (by simpa using h)]

theorem dropOptionalProperty_append (hname : '(' ∉ name) (h : dropOptionalProperty name cs ≠ [])
    (rest : List Char) :
    dropOptionalProperty name (cs ++ '(' :: rest) =
    dropOptionalProperty name cs ++ '(' :: rest := by
  unfold dropOptionalProperty at h ⊢
  rw [dropStart?_append_stop name '(' hname]
  cases hstart : dropStart? name cs with
  | none => rfl
  | some behind =>
    rw [hstart] at h
    exact dropProperty_append h _

theorem dropProperties_append (h : dropProperties cs ≠ []) (rest : List Char) :
    dropProperties (cs ++ '(' :: rest) = dropProperties cs ++ '(' :: rest := by
  have hculture : dropOptionalProperty ",Culture=".toList (dropProperty cs) ≠
      [] := fun hnil => h (by
    rw [dropProperties, hnil]
    rfl)
  have hversion : dropProperty cs ≠ [] := fun hnil => hculture (by
    rw [hnil]
    rfl)
  unfold dropProperties at h ⊢
  rw [dropProperty_append hversion, dropOptionalProperty_append (by decide) hculture,
    dropOptionalProperty_append (by decide) h]

theorem dropToken_rereads (cs : List Char) :
    Rereads (dropOptionalProperty ",PublicKeyToken=".toList) cs := by
  have hinert : Inert ",PublicKeyToken=".toList := ⟨fun _ => rfl, inert_of_no_comma (by decide)⟩
  exact dropOptionalProperty_rereads (by decide) hinert cs

theorem dropProperties_rereads (cs : List Char) : Rereads dropProperties cs := by
  have hinert : Inert ",Culture=".toList := ⟨fun _ => rfl, inert_of_no_comma (by decide)⟩
  have hculture := dropOptionalProperty_rereads (by decide) hinert (dropProperty cs)
  exact ((dropProperty_rereads cs).comp hculture fun _ => rfl).comp
    (dropToken_rereads _) fun _ => rfl

-- ---------------------------------------------------------------------------
-- Assemblies
-- ---------------------------------------------------------------------------

/-- What an assembly that is read passes over, and what is read in its place when the text has
braces. -/
theorem assemblySuffix_eq_some (h : assemblySuffix before cs = some (found, after)) :
    found = [] ∧ ∃ passed, passed ≠ [] ∧ cs = passed ++ after ∧
      ('>' ∉ passed ∧ assemblySuffix none (cs.map brace) = some ([], after.map brace) ∨
        '>' ∈ passed ∧ ∃ more, Inert more ∧
          assemblySuffix none (cs.map brace) = some ([], '\x7d' :: (more ++ after).map brace)) := by
  rw [assemblySuffix_eq, Option.map_eq_some_iff] at h
  obtain ⟨versioned, hversioned, heq⟩ := h
  cases heq
  have hbraced : assemblySuffix none (cs.map brace) =
      some ([], dropProperties (versioned.map brace)) := by
    rw [assemblySuffix_eq, assemblyHead?_map, hversioned]
    rfl
  obtain ⟨head, hne, hangle, rfl⟩ := assemblyHead?_eq_some hversioned
  refine ⟨rfl, ?_⟩
  cases dropProperties_rereads versioned with
  | same passed hcs _ hnot hsame =>
    refine ⟨head ++ passed,
      List.append_ne_nil_of_left_ne_nil hne _, by rw [List.append_assoc, ← hcs],
      .inl ⟨?_, ?_⟩⟩
    · simpa using ⟨hangle, hnot⟩
    · rw [hbraced, hsame]
  | sooner before more hcs hinert hsooner =>
    refine ⟨head ++ (before ++ '>' :: more), List.append_ne_nil_of_left_ne_nil hne _, ?_,
      .inr ⟨by simp, more, hinert.behind.2, by rw [hbraced, hsooner]⟩⟩
    rw [List.append_assoc, List.append_assoc, List.cons_append, ← hcs]

theorem assemblySuffix_append (h : assemblySuffix none cs ≠ some ([], [])) (rest : List Char) :
    assemblySuffix none (cs ++ '(' :: rest) =
    (assemblySuffix none cs).map (Prod.map id (· ++ '(' :: rest)) := by
  rw [assemblySuffix_eq] at h ⊢
  rw [assemblySuffix_eq, assemblyHead?_append]
  cases hhead : assemblyHead? cs with
  | none => rfl
  | some versioned =>
    rw [hhead] at h
    have hne : dropProperties versioned ≠ [] := fun heq => h (by rw [Option.map_some, heq])
    simp only [Option.map_some, dropProperties_append hne, Prod.map, id]

theorem assemblySuffix_advances : Advances assemblySuffix := by
  intro before cs found after h
  obtain ⟨-, passed, hne, hcs, -⟩ := assemblySuffix_eq_some h
  exact ⟨passed, hne, hcs⟩

def assembliesIn (cs : List Char) : List (List Char) := (scan (matched assemblySuffix) cs).found

theorem countP_map_brace (cs : List Char) :
    (cs.map brace).countP isGeneric = cs.countP isGeneric := by
  have hgeneric : isGeneric ∘ brace = isGeneric := funext (apply_brace (by decide) (by decide))
  rw [List.countP_map, hgeneric]

theorem withoutSuffixes_of_some (h : assemblySuffix none cs = some (found, after)) :
    replaceAll assemblySuffix cs = replaceAll assemblySuffix after := by
  obtain ⟨rfl, passed, hne, rfl, -⟩ := assemblySuffix_eq_some h
  exact assemblySuffix_looksAhead.replaceAll_found hne h

theorem withoutSuffixes_subset (cs : List Char) : replaceAll assemblySuffix cs ⊆ cs :=
  Text.replaceAll_subset assemblySuffix_advances (fun _ _ _ _ h => (assemblySuffix_eq_some h).1) cs

def AngleFree (cs : List Char) : Prop := ∀ c ∈ cs, brace c = c

theorem AngleFree.map_brace (h : AngleFree cs) : cs.map brace = cs :=
  (List.map_congr_left h).trans (List.map_id' cs)

theorem angleFree_map_brace (cs : List Char) : AngleFree (cs.map brace) := by
  intro c hc
  obtain ⟨d, -, rfl⟩ := List.mem_map.mp hc
  exact apply_brace (f := brace) rfl rfl d

theorem withoutSuffixes_angleFree (cs : List Char) :
    AngleFree (replaceAll assemblySuffix (cs.map brace)) :=
  fun c hc => angleFree_map_brace cs c (withoutSuffixes_subset _ hc)

theorem AngleFree.not_mem (h : AngleFree cs) : '>' ∉ cs := fun hmem => by cases h '>' hmem

theorem angle_of_brace_ne (h : brace c ≠ c) : c = '<' ∨ c = '>' := by
  unfold brace at h
  split at h
  · exact .inl rfl
  · exact .inr rfl
  · exact absurd rfl h

theorem isCurly_brace (h : brace c ≠ c) : isCurly (brace c) = true := by
  rcases angle_of_brace_ne h with rfl | rfl <;> rfl

def Continues (cs : List Char) : Prop := ∀ c ∈ cs.head?, c ≠ '(' ∧ dotted c ≠ '.'

theorem continues_cons : Continues (c :: rest) ↔ c ≠ '(' ∧ dotted c ≠ '.' := by
  simp only [Continues, List.head?_cons, Option.mem_def, Option.some.injEq, forall_eq']

theorem continues_of_isCurly (h : isCurly c = true) (rest : List Char) : Continues (c :: rest) := by
  rw [isCurly, Bool.or_eq_true, beq_iff_eq, beq_iff_eq] at h
  rw [continues_cons]
  rcases h with rfl | rfl <;> decide

/-- From some place on, the second text has more brackets than the first one. -/
inductive Loses : List Char → List Char → Prop
  | mk (before : List Char) (hcontinues : Continues other) (hfree : AngleFree other)
    (hless : text.countP isGeneric < other.countP isGeneric) :
    Loses (before ++ text) (before ++ other)

namespace Loses

theorem countP_lt (h : Loses text other) : text.countP isGeneric < other.countP isGeneric := by
  obtain ⟨before, -, -, hless⟩ := h
  rw [List.countP_append, List.countP_append]
  exact Nat.add_lt_add_left hless _

theorem append_left (before : List Char) (h : Loses text other) :
    Loses (before ++ text) (before ++ other) := by
  obtain ⟨more, hcontinues, hfree, hless⟩ := h
  rw [← List.append_assoc, ← List.append_assoc]
  exact .mk (before ++ more) hcontinues hfree hless

theorem cons (c : Char) (hfree : AngleFree other) (h : Loses text other) :
    Loses (c :: text) (brace c :: other) := by
  by_cases hc : brace c = c
  · rw [hc]
    exact h.append_left [c]
  · have hall : AngleFree (brace c :: other) :=
      List.forall_mem_cons.mpr ⟨apply_brace (f := brace) rfl rfl c, hfree⟩
    refine mk [] (continues_of_isCurly (isCurly_brace hc) other) hall ?_
    rw [List.countP_cons, List.countP_cons, apply_brace (f := isGeneric) (by decide) (by decide)]
    exact Nat.add_lt_add_right h.countP_lt _

end Loses

/-- What is left of a text with braces when assemblies have been taken out: the same as without, or
more brackets if an angle bracket went with one of the assemblies. -/
inductive Stripped (assemblies : List (List Char)) (cs : List Char) : Prop
  | same (hangle : ∀ assembly ∈ assemblies, '>' ∉ assembly)
    (hsame : replaceAll assemblySuffix (cs.map brace) = (replaceAll assemblySuffix cs).map brace)
  | more (hangle : ∃ assembly ∈ assemblies, '>' ∈ assembly)
    (hloses : Loses (replaceAll assemblySuffix cs) (replaceAll assemblySuffix (cs.map brace)))

namespace Stripped

theorem countP_le (h : Stripped assemblies cs) :
    (replaceAll assemblySuffix cs).countP isGeneric ≤
      (replaceAll assemblySuffix (cs.map brace)).countP isGeneric := by
  cases h with
  | same _ hsame => rw [hsame, countP_map_brace]
  | more _ hloses => exact Nat.le_of_lt hloses.countP_lt

theorem loses_close (hinert : Inert passed) (h : Stripped assemblies after) :
    Loses (replaceAll assemblySuffix after)
      (replaceAll assemblySuffix ('\x7d' :: (passed ++ after).map brace)) := by
  rw [assemblySuffix_looksAhead.replaceAll_cons rfl, hinert.replaceAll_map]
  have hfree : AngleFree (passed.map brace ++ replaceAll assemblySuffix (after.map brace)) :=
    List.forall_mem_append.mpr ⟨angleFree_map_brace passed, withoutSuffixes_angleFree after⟩
  have hless : (replaceAll assemblySuffix after).countP isGeneric <
      ('\x7d' :: (passed.map brace ++ replaceAll assemblySuffix (after.map brace))).countP
        isGeneric := by
    have := h.countP_le
    rw [List.countP_cons_of_pos (by decide), List.countP_append]
    omega
  exact .mk [] (continues_of_isCurly rfl _) (List.forall_mem_cons.mpr ⟨rfl, hfree⟩) hless

theorem kept (hnone : assemblySuffix none (c :: rest) = none) (h : Stripped assemblies rest) :
    Stripped assemblies (c :: rest) := by
  have hbraced : assemblySuffix none (brace c :: rest.map brace) = none := by
    rw [assemblySuffix_eq, Option.map_eq_none_iff] at hnone ⊢
    rw [← List.map_cons, assemblyHead?_map, hnone]
    rfl
  have hleft := assemblySuffix_looksAhead.replaceAll_cons hnone
  have hleftBraced := assemblySuffix_looksAhead.replaceAll_cons hbraced
  cases h with
  | same hangle hsame =>
    exact .same hangle (by rw [List.map_cons, hleft, hleftBraced, hsame, List.map_cons])
  | more hangle hloses =>
    refine .more hangle ?_
    rw [List.map_cons, hleft, hleftBraced]
    exact hloses.cons c (withoutSuffixes_angleFree rest)

theorem found (hfound : assemblySuffix none (passed ++ after) = some (text, after))
    (h : Stripped assemblies after) : Stripped (passed :: assemblies) (passed ++ after) := by
  obtain ⟨-, passed', -, hpassed, hbraced⟩ := assemblySuffix_eq_some hfound
  obtain rfl := List.append_cancel_right hpassed
  have hleft := withoutSuffixes_of_some hfound
  rcases hbraced with ⟨hnot, hbehind⟩ | ⟨hangle, more, hinert, hbehind⟩
  · cases h with
    | same hall hsame =>
      refine .same (List.forall_mem_cons.mpr ⟨hnot, hall⟩) ?_
      rw [withoutSuffixes_of_some hbehind, hsame, hleft]
    | more hany hloses =>
      obtain ⟨assembly, hmem, hassembly⟩ := hany
      refine .more ⟨assembly, List.mem_cons_of_mem _ hmem, hassembly⟩ ?_
      rwa [withoutSuffixes_of_some hbehind, hleft]
  · refine .more ⟨passed, List.mem_cons_self, hangle⟩ ?_
    rw [withoutSuffixes_of_some hbehind, hleft]
    exact h.loses_close hinert

end Stripped

/-- What becomes of a text when its generic arguments are written in braces. -/
theorem stripped (cs : List Char) : Stripped (assembliesIn cs) cs := by
  refine Text.scanFrom_induction (motive := fun cs scanned => Stripped scanned.found cs)
    (Text.matched_advances assemblySuffix_advances) (.same (by simp [Scanned.found]) rfl)
    (fun hnone ih => ?_) (fun hne hmatched ih => ?_) none cs
  · rw [Text.matched_eq_none_iff, assemblySuffix_looksAhead _ none] at hnone
    exact ih.kept hnone
  · obtain ⟨hpassed, -, text, hfound⟩ := Text.matched_eq_some assemblySuffix_advances hmatched
    obtain rfl := List.append_cancel_right hpassed
    exact ih.found hfound

-- ---------------------------------------------------------------------------
-- Assemblies in front of the names of types
-- ---------------------------------------------------------------------------

theorem assemblyBrackets_looksAhead : LooksAhead assemblyBrackets := fun _ _ _ => rfl

theorem assemblyBrackets_eq_some (h : assemblyBrackets before cs = some (found, after)) :
    found = [] ∧ ∃ passed, passed ≠ [] ∧ cs = passed ++ after ∧ passed.countP isGeneric = 0 := by
  simp only [assemblyBrackets, Option.bind_eq_bind, Option.bind_eq_some_iff, dropStart?_eq_some_iff,
    Option.ite_none_right_eq_some, Option.some.injEq, Prod.mk.injEq] at h
  obtain ⟨_, rfl, _, hbehind, rest, rfl, _, -, -, rfl, rfl⟩ := h
  obtain ⟨name, hname, rfl⟩ := dropAssemblyName?_eq_some hbehind
  refine ⟨rfl, '[' :: (name ++ [']']), by simp, by simp, ?_⟩
  rw [List.countP_cons_of_neg (by decide), List.countP_append, countP_assemblyName hname]
  rfl

theorem assemblyBrackets_advances : Advances assemblyBrackets := by
  intro before cs found after h
  obtain ⟨-, passed, hne, hcs, -⟩ := assemblyBrackets_eq_some h
  exact ⟨passed, hne, hcs⟩

theorem assemblyBrackets_map (before : Option Char) (cs : List Char) :
    assemblyBrackets (before.map brace) (cs.map brace) =
      (assemblyBrackets before cs).map (Prod.map (List.map brace) (List.map brace)) := by
  have hopen := dropStart?_map_brace ['['] (by decide)
  have hclose := dropStart?_map_brace [']'] (by decide)
  simp only [assemblyBrackets, Option.bind_eq_bind, hopen, hclose, Option.bind_map,
    Function.comp_def,
    dropAssemblyName?_map, List.head?_map,
    apply_brace (f := isNameStart) (by decide) (by decide), Option.map_bind,
    apply_ite (Option.map (Prod.map (List.map brace) (List.map brace)))]
  rfl

/-- Names stand behind such an assembly, and none of them begins with a round bracket. -/
theorem assemblyBrackets_append (cs rest : List Char) :
    assemblyBrackets none (cs ++ '(' :: rest) =
    (assemblyBrackets none cs).map (Prod.map id (· ++ '(' :: rest)) := by
  have hopen := dropStart?_append_stop ['['] '(' (by decide)
  have hclose := dropStart?_append_stop [']'] '(' (by decide)
  simp only [assemblyBrackets, Option.bind_eq_bind, hopen, hclose, Option.bind_map,
    Function.comp_def,
    dropAssemblyName?_append, Option.map_bind]
  congr 1
  funext named
  congr 1
  funext behind
  congr 1
  funext behind
  cases behind with
  | nil => rfl
  | cons c behind =>
    simp only [List.cons_append, List.head?_cons, Option.bind_some]
    split <;> rfl

end DocMerge.DocId

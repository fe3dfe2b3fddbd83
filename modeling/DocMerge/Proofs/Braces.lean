import DocMerge.Proofs.Leftovers
import DocMerge.Proofs.SignatureKeys
import DocMerge.Proofs.Validity
import Mathlib.Data.List.Infix

/-!
# Braces for angle brackets

The generic arguments of a parameter list are written in angle brackets or in braces.
`braces_keep_key_iff` says for which identifiers that makes no difference: for those whose
assemblies can be taken out before or after it. Where the name does not end in an assembly itself,
these are the ones in which no assembly of the parameter list passes over an angle bracket that
closes. The rewriting that takes the assemblies out does not know that one as a bracket that closes,
and comes before the one that writes braces, so a bracket is lost where the value of a property ends
the arguments.
-/

namespace DocMerge.DocId

open Text (replaceAll isBlank)

-- ---------------------------------------------------------------------------
-- Names and parameter lists
-- ---------------------------------------------------------------------------

def IsParameterList (cs : List Char) : Prop := cs = [] ∨ ∃ more, cs = '(' :: more

theorem splitSignature_spec (cs : List Char) :
    cs = (splitSignature cs).1 ++ (splitSignature cs).2 ∧ '(' ∉ (splitSignature cs).1 ∧
      IsParameterList (splitSignature cs).2 := by
  rw [splitSignature, List.span_eq_takeWhile_dropWhile]
  refine ⟨List.takeWhile_append_dropWhile.symm, fun hmem => ?_, ?_⟩
  · have hround := List.mem_takeWhile_imp hmem
    cases hround
  · cases hdrop : cs.dropWhile (· != '(') with
    | nil => exact .inl rfl
    | cons c more =>
      have hround := List.head_dropWhile_not (· != '(') (l := cs) (by simp [hdrop])
      simp only [hdrop, List.head_cons, bne_eq_false_iff_eq] at hround
      exact .inr ⟨more, by rw [hround]⟩

def braceParameters (cs : List Char) : List Char :=
  (splitSignature cs).1 ++ (splitSignature cs).2.map brace

def withBraces (raw : String) : String := String.ofList (braceParameters raw.toList)

section
variable {name parameters : List Char} (hround : '(' ∉ name)
  (hparameters : IsParameterList parameters)
include hparameters

theorem IsParameterList.map_brace : IsParameterList (parameters.map brace) := by
  rcases hparameters with rfl | ⟨more, rfl⟩
  · exact .inl rfl
  · exact .inr ⟨more.map brace, rfl⟩

include hround in
theorem braceParameters_append :
    braceParameters (name ++ parameters) = name ++ parameters.map brace := by
  rw [braceParameters, splitSignature_append hround hparameters]

theorem splitKind_append (name : List Char) :
    splitKind (name ++ parameters) = ((splitKind name).1, (splitKind name).2 ++ parameters) := by
  have hletter : kindLetter? (name ++ parameters) =
      (kindLetter? name).map (Prod.map id (· ++ parameters)) := by
    rcases hparameters with rfl | ⟨more, rfl⟩
    · rw [List.append_nil]
      exact (congrFun Option.map_id _).symm.trans (by simp only [List.append_nil]; rfl)
    · match name with
      | [] =>
        refine Option.eq_none_iff_forall_ne_some.mpr fun (letter, rest) h => ?_
        obtain ⟨hletter, hcs⟩ := kindLetter?_eq_some_iff.mp h
        obtain rfl : '(' = letter := (List.cons.inj hcs).1
        cases hletter
      | [c] => rfl
      | c :: d :: rest =>
        by_cases hcolon : d = ':'
        · subst hcolon
          simp only [kindLetter?, List.cons_append]
          split <;> rfl
        · simp [kindLetter?, hcolon]
  rw [splitKind, splitKind, hletter]
  cases kindLetter? name <;> rfl

end

theorem withoutBlanks_braceParameters (cs : List Char) :
    Text.withoutBlanks (braceParameters cs) = braceParameters (Text.withoutBlanks cs) := by
  obtain ⟨hcs, hround, hparameters⟩ := splitSignature_spec cs
  have hblank : (fun c => !isBlank c) ∘ brace = fun c => !isBlank c :=
    funext (apply_brace (f := fun c => !isBlank c) (by decide) (by decide))
  have hname : '(' ∉ Text.withoutBlanks (splitSignature cs).1 :=
    fun hmem => hround (List.mem_of_mem_filter hmem)
  have hlist : IsParameterList (Text.withoutBlanks (splitSignature cs).2) := by
    rcases hparameters with h | ⟨more, h⟩
    · exact .inl (by rw [h]; rfl)
    · exact .inr ⟨Text.withoutBlanks more, by rw [h]; rfl⟩
  have hsplit : Text.withoutBlanks cs =
      Text.withoutBlanks (splitSignature cs).1 ++ Text.withoutBlanks (splitSignature cs).2 := by
    conv_lhs => rw [hcs]
    exact List.filter_append ..
  rw [hsplit, braceParameters_append hname hlist, braceParameters, Text.withoutBlanks,
    List.filter_append,
    List.filter_map, hblank]
  rfl

-- ---------------------------------------------------------------------------
-- Spelling
-- ---------------------------------------------------------------------------

def spell (method : Bool) (cs : List Char) : List Char :=
  canonicalName method (splitSignature cs).1 ++ canonicalArguments (splitSignature cs).2

theorem canonicalBody_eq (method : Bool) (cs : List Char) :
    canonicalBody method cs = spell method (withoutAssemblies cs) := rfl

theorem canonicalArguments_map_brace (cs : List Char) :
    canonicalArguments (cs.map brace) = canonicalArguments cs := by
  have hbrace : argumentChar ∘ brace = argumentChar := funext (apply_brace (by decide) (by decide))
  rw [canonicalArguments, List.map_map, hbrace, canonicalArguments]

theorem spell_braceParameters (method : Bool) (cs : List Char) :
    spell method (braceParameters cs) = spell method cs := by
  obtain ⟨-, hround, hparameters⟩ := splitSignature_spec cs
  rw [spell, braceParameters, splitSignature_append hround hparameters.map_brace,
    canonicalArguments_map_brace, spell]

theorem splitSignature_append_left (hround : '(' ∉ before) (cs : List Char) :
    splitSignature (before ++ cs) = (before ++ (splitSignature cs).1, (splitSignature cs).2) := by
  obtain ⟨hcs, hname, hparameters⟩ := splitSignature_spec cs
  have hall : '(' ∉ before ++ (splitSignature cs).1 :=
    fun hmem => (List.mem_append.mp hmem).elim hround hname
  rw [← splitSignature_append hall hparameters, List.append_assoc, ← hcs]

theorem splitSignature_map_brace (cs : List Char) :
    splitSignature (cs.map brace) =
    ((splitSignature cs).1.map brace, (splitSignature cs).2.map brace) := by
  obtain ⟨hcs, hround, hparameters⟩ := splitSignature_spec cs
  have hname : '(' ∉ (splitSignature cs).1.map brace := fun hmem => by
    obtain ⟨c, hc, hbrace⟩ := List.mem_map.mp hmem
    exact hround (((brace_eq_iff rfl c).mp hbrace) ▸ hc)
  rw [← splitSignature_append hname hparameters.map_brace, ← List.map_append, ← hcs]

theorem countP_isCurly_map_brace (cs : List Char) :
    (cs.map brace).countP isCurly = cs.countP isGeneric := by
  have hcurly : isCurly ∘ brace = isGeneric := by
    funext c
    rw [Function.comp_apply]
    unfold brace
    split
    · rfl
    · rfl
    · rename_i hopen hclose
      simp [isGeneric, show c ≠ '<' from hopen, show c ≠ '>' from hclose]
  rw [List.countP_map, hcurly]

theorem countP_isCurly_le (cs : List Char) : cs.countP isCurly ≤ cs.countP isGeneric := by
  refine List.countP_mono_left fun c _ h => ?_
  rw [isGeneric, h, Bool.or_true]

theorem AngleFree.countP_isCurly (h : AngleFree cs) : cs.countP isCurly = cs.countP isGeneric := by
  rw [← countP_isCurly_map_brace, h.map_brace]

theorem AngleFree.name (h : AngleFree cs) : AngleFree (splitSignature cs).1 := fun c hc => h c (by
  rw [(splitSignature_spec cs).1]
  exact List.mem_append_left _ hc)

/-- What continues a name goes on with it in front of the parameter list. -/
theorem Continues.name (h : Continues cs) (hne : cs ≠ []) :
    (splitSignature cs).1 ≠ [] ∧ Continues (splitSignature cs).1 := by
  obtain ⟨c, rest, rfl⟩ := List.exists_cons_of_ne_nil hne
  have hc := continues_cons.mp h
  have hround : '(' ∉ [c] := fun hmem => hc.1 (List.mem_singleton.mp hmem).symm
  have hsplit := splitSignature_append_left hround rest
  rw [List.singleton_append] at hsplit
  rw [hsplit]
  exact ⟨List.cons_ne_nil _ _, continues_cons.mpr hc⟩

/-- How many braces a spelling has, told from its beginning. -/
theorem countP_spell_append (method : Bool) (cs : List Char) :
    ∃ kept, (∀ rest, (spell method (cs ++ rest)).countP isCurly ≤ kept + rest.countP isGeneric) ∧
      ∀ rest, rest ≠ [] → Continues rest → AngleFree rest →
        (spell method (cs ++ rest)).countP isCurly = kept + rest.countP isGeneric := by
  obtain ⟨hcs, hround, hparameters⟩ := splitSignature_spec cs
  rcases hparameters with hnil | ⟨more, hmore⟩
  · -- The name goes on behind the text.
    rw [hnil, List.append_nil] at hcs
    rw [← hcs] at hround
    obtain ⟨kept, hle, heq⟩ := countP_canonicalName_append method cs
    have hspell : ∀ rest, (spell method (cs ++ rest)).countP isCurly =
        (canonicalName method (cs ++ (splitSignature rest).1)).countP isCurly +
          (splitSignature rest).2.countP isGeneric := by
      intro rest
      rw [spell, splitSignature_append_left hround, List.countP_append, countP_canonicalArguments]
    have hparts : ∀ rest : List Char, rest.countP isGeneric =
        (splitSignature rest).1.countP isGeneric + (splitSignature rest).2.countP isGeneric := by
      intro rest
      rw [← List.countP_append, ← (splitSignature_spec rest).1]
    refine ⟨kept, fun rest => ?_, fun rest hne hcontinues hfree => ?_⟩
    · have hname := hle (splitSignature rest).1
      have hcurly := countP_isCurly_le (splitSignature rest).1
      rw [hspell, hparts rest]
      omega
    · obtain ⟨hne, hcontinues⟩ := hcontinues.name hne
      rw [hspell, hparts rest, heq _ hne hcontinues hfree.name.not_mem,
        hfree.name.countP_isCurly, Nat.add_assoc]
  · have hspell : ∀ rest, (spell method (cs ++ rest)).countP isCurly =
        (canonicalName method (splitSignature cs).1).countP isCurly +
        (splitSignature cs).2.countP isGeneric +
          rest.countP isGeneric := by
      intro rest
      have hlist : IsParameterList ((splitSignature cs).2 ++ rest) :=
        .inr ⟨more ++ rest, by rw [hmore, List.cons_append]⟩
      have hsplit := splitSignature_append hround hlist
      rw [← List.append_assoc, ← hcs] at hsplit
      rw [spell, hsplit, List.countP_append, countP_canonicalArguments,
        List.countP_append, Nat.add_assoc]
    exact ⟨_, fun rest => Nat.le_of_eq (hspell rest), fun rest _ _ _ => hspell rest⟩

theorem Loses.spell_ne (method : Bool) (h : Loses text other) :
    spell method other ≠ spell method text := by
  cases h with
  | @mk other text before hcontinues hfree hless =>
    obtain ⟨kept, hle, heq⟩ := countP_spell_append method before
    intro hspell
    have hcount := heq other (fun hnil => by simp [hnil] at hless) hcontinues hfree
    rw [hspell] at hcount
    have := hle text
    omega

/-- A canonical name has more braces if the angle brackets of the name have been written as
braces. -/
theorem canonicalName_braces_ne (method : Bool) (before : List Char) (hangle : ¬ AngleFree name) :
    canonicalName method (before ++ name.map brace) ≠ canonicalName method (before ++ name) := by
  obtain ⟨c, hfind⟩ : ∃ c, name.find? (fun c => brace c != c) = some c := by
    rw [← Option.isSome_iff_exists, List.find?_isSome]
    simpa [AngleFree] using hangle
  obtain ⟨hc, first, rest, rfl, hfirst⟩ := List.find?_eq_some_iff_append.mp hfind
  have hfirst : AngleFree first := fun d hd => by simpa using hfirst d hd
  have hc : brace c ≠ c := by simpa using hc
  obtain ⟨hcurly, hgeneric⟩ : isCurly c = false ∧ isGeneric c = true := by
    rcases angle_of_brace_ne hc with rfl | rfl <;> exact ⟨rfl, rfl⟩
  obtain ⟨kept, hle, heq⟩ := countP_canonicalName_append method (before ++ first)
  have hname := hle (c :: rest)
  have hbraced := heq ((c :: rest).map brace) (List.cons_ne_nil _ _)
    (continues_of_isCurly (isCurly_brace hc) _)
    (angleFree_map_brace _).not_mem
  rw [countP_isCurly_map_brace, List.countP_cons_of_pos hgeneric] at hbraced
  rw [List.countP_cons_of_neg (by simp [hcurly])] at hname
  rw [List.map_append, hfirst.map_brace, ← List.append_assoc, ← List.append_assoc]
  intro h
  rw [h] at hbraced
  have := countP_isCurly_le rest
  omega

theorem spell_append_map_brace (method : Bool) (hround : '(' ∉ before) (text : List Char)
    (h : spell method (before ++ text.map brace) = spell method (before ++ text)) :
    before ++ text.map brace = braceParameters (before ++ text) := by
  have hname : AngleFree (splitSignature text).1 := by
    by_contra hangle
    rw [spell, spell, splitSignature_append_left hround, splitSignature_append_left hround,
      splitSignature_map_brace,
      canonicalArguments_map_brace, List.append_left_inj] at h
    exact canonicalName_braces_ne method before hangle h
  rw [braceParameters, splitSignature_append_left hround, List.append_assoc]
  conv_lhs => rw [(splitSignature_spec text).1, List.map_append, hname.map_brace]

theorem Turned.spell_eq_iff (method : Bool) (h : Turned text other) :
    spell method other = spell method text ↔ other = braceParameters text := by
  refine ⟨fun hspell => ?_, fun heq => ?_⟩
  · cases h with
    | same before text hround => exact spell_append_map_brace method hround text hspell
    | loses hloses => exact absurd hspell (hloses.spell_ne method)
  · rw [heq, spell_braceParameters]

-- ---------------------------------------------------------------------------
-- Assemblies and braces
-- ---------------------------------------------------------------------------

theorem withoutAssemblies_braceParameters (cs : List Char) :
    Turned (withoutAssemblies cs) (withoutAssemblies (braceParameters cs)) := by
  obtain ⟨hcs, hround, hparameters⟩ := splitSignature_spec cs
  conv_lhs => rw [hcs]
  rw [braceParameters]
  rcases hparameters with hnil | ⟨more, hmore⟩
  · rw [hnil, List.map_nil, List.append_nil]
    have hsame := Turned.same (withoutAssemblies (splitSignature cs).1) []
      fun hmem => hround (withoutAssemblies_subset _ hmem)
    rwa [List.map_nil, List.append_nil] at hsame
  · rw [hmore]
    exact withoutAssemblies_turned hround more

def endsInAssembly (name : List Char) : Bool :=
  name.tails.any (fun text => assemblySuffix none text == some ([], []))

theorem withoutAssemblies_append (hends : endsInAssembly name = false)
    (hparameters : IsParameterList parameters) :
    withoutAssemblies (name ++ parameters) = withoutAssemblies name ++
    withoutAssemblies parameters ∧
      IsParameterList (withoutAssemblies parameters) := by
  rcases hparameters with rfl | ⟨more, rfl⟩
  · exact ⟨by rw [List.append_nil]; exact (List.append_nil _).symm, .inl rfl⟩
  · have hbehind : withoutAssemblies ('(' :: more) = '(' :: withoutAssemblies more := by
      rw [withoutAssemblies, assemblySuffix_looksAhead.replaceAll_cons rfl,
        assemblyBrackets_looksAhead.replaceAll_cons rfl]
      rfl
    have hsuffix : replaceAll assemblySuffix (name ++ '(' :: more) =
        replaceAll assemblySuffix name ++ replaceAll assemblySuffix ('(' :: more) := by
      refine assemblySuffix_looksAhead.replaceAll_append fun cs _ hcs =>
        assemblySuffix_append ?_ more
      simp only [endsInAssembly, List.any_eq_false, List.mem_tails, beq_iff_eq] at hends
      exact hends cs hcs
    refine ⟨?_, .inr ⟨_, hbehind⟩⟩
    rw [withoutAssemblies, hsuffix, assemblySuffix_looksAhead.replaceAll_cons rfl,
      assemblyBrackets_looksAhead.replaceAll_append fun cs _ _ => assemblyBrackets_append cs _,
      withoutAssemblies,
      withoutAssemblies, assemblySuffix_looksAhead.replaceAll_cons rfl]

theorem withoutAssemblies_map_brace_iff (parameters : List Char) :
    withoutAssemblies (parameters.map brace) = (withoutAssemblies parameters).map brace ↔
      ∀ assembly ∈ assembliesIn parameters, '>' ∉ assembly := by
  cases stripped parameters with
  | same hangle hsame =>
    refine iff_of_true ?_ hangle
    rw [withoutAssemblies, hsame, Text.replaceAll_map assemblyBrackets_map, withoutAssemblies]
  | more hangle hloses =>
    obtain ⟨assembly, hmem, hassembly⟩ := hangle
    refine iff_of_false (fun heq => ?_) fun hall => hall assembly hmem hassembly
    have hcount := hloses.withoutBrackets.countP_lt
    rw [← withoutAssemblies, ← withoutAssemblies, heq, countP_map_brace] at hcount
    exact absurd hcount (lt_irrefl _)

theorem withoutAssemblies_braceParameters_iff
    (hends : endsInAssembly (splitSignature cs).1 = false) :
    withoutAssemblies (braceParameters cs) = braceParameters (withoutAssemblies cs) ↔
      ∀ assembly ∈ assembliesIn (splitSignature cs).2, '>' ∉ assembly := by
  obtain ⟨hcs, hround, hparameters⟩ := splitSignature_spec cs
  have hround' : '(' ∉ withoutAssemblies (splitSignature cs).1 :=
    fun hmem => hround (withoutAssemblies_subset _ hmem)
  obtain ⟨happend, hlist⟩ := withoutAssemblies_append hends hparameters
  have hbraced := (withoutAssemblies_append hends hparameters.map_brace).1
  rw [← hcs] at happend
  rw [braceParameters, hbraced, happend, braceParameters_append hround' hlist,
    List.append_right_inj]
  exact withoutAssemblies_map_brace_iff _

-- ---------------------------------------------------------------------------
-- Keys
-- ---------------------------------------------------------------------------

theorem Nested.map_brace (h : Nested cs) : Nested (cs.map brace) := by
  induction h with
  | nil => exact .nil
  | @other c _ hopen hclose _ ih =>
    have hkept : brace c = c := by
      unfold brace
      split
      · exact absurd .angle (hopen '>')
      · exact absurd .angle (hclose '<')
      · rfl
    rw [List.map_cons, hkept]
    exact .other hopen hclose ih
  | pair hpair _ _ ihinner ih =>
    rw [List.map_cons, List.map_append, List.map_cons]
    refine .pair ?_ ihinner ih
    cases hpair <;> constructor

theorem splitKind_suffix (cs : List Char) : (splitKind cs).2 <:+ cs := by
  unfold splitKind
  split
  · rename_i letter rest hletter
    obtain ⟨-, rfl⟩ := kindLetter?_eq_some_iff.mp hletter
    exact ⟨[letter, ':'], rfl⟩
  · exact List.suffix_refl cs

theorem splitKind_braceParameters (cs : List Char) :
    splitKind (braceParameters cs) = ((splitKind cs).1, braceParameters (splitKind cs).2) := by
  obtain ⟨hcs, hround, hparameters⟩ := splitSignature_spec cs
  have hname : '(' ∉ (splitKind (splitSignature cs).1).2 :=
    fun hmem => hround ((splitKind_suffix (splitSignature cs).1).subset hmem)
  rw [braceParameters, splitKind_append hparameters.map_brace]
  conv_rhs => rw [hcs, splitKind_append hparameters]
  rw [braceParameters_append hname hparameters]

theorem keyOf_braces_isValid (hname : Nested (splitSignature cs).1)
    (hvalid : (keyOf cs).isValid = true) :
    (keyOf (braceParameters cs)).isValid = true := by
  obtain ⟨hcs, -, hparameters⟩ := splitSignature_spec cs
  rw [hcs, keyOf_isValid_iff, splitKind_append hparameters, balanced_iff,
    hname.append_iff] at hvalid
  rw [braceParameters, keyOf_isValid_iff, splitKind_append hparameters.map_brace,
    balanced_iff, hname.append_iff]
  exact ⟨hvalid.1.map_brace, by simpa using hvalid.2⟩

theorem keyOf_braces_iff (hvalid : (keyOf cs).isValid = true)
    (hbraced : (keyOf (braceParameters cs)).isValid = true) :
    keyOf (braceParameters cs) = keyOf cs ↔
      withoutAssemblies (braceParameters (splitKind cs).2) =
      braceParameters (withoutAssemblies (splitKind cs).2) := by
  rw [keyOf_of_isValid hvalid, keyOf_of_isValid hbraced, splitKind_braceParameters,
    Key.canonical.injEq,
    String.ofList_inj, List.append_right_inj, canonicalBody_eq, canonicalBody_eq]
  exact (withoutAssemblies_braceParameters _).spell_eq_iff _

/-- Braces around the generic arguments of a parameter list leave the brackets of an identifier
nested. They keep its key exactly if its assemblies can as well be taken out first. If the name in
front of the list does not end in an assembly itself, they can unless one of the assemblies in the
list passes over an angle bracket that closes. -/
theorem braces_keep_key_iff (raw : String) (hvalid : (Key.ofDocId raw).isValid = true)
    (hname : Nested (splitSignature (Text.withoutBlanks raw.toList)).1) :
    let body := (splitKind (Text.withoutBlanks raw.toList)).2
    (Key.ofDocId (withBraces raw)).isValid = true ∧
      (Key.ofDocId (withBraces raw) = Key.ofDocId raw ↔
        withoutAssemblies (braceParameters body) = braceParameters (withoutAssemblies body)) ∧
      (endsInAssembly (splitSignature body).1 = false →
        (Key.ofDocId (withBraces raw) = Key.ofDocId raw ↔
          ∀ assembly ∈ assembliesIn (splitSignature body).2, '>' ∉ assembly)) := by
  intro body
  have hbraces : Key.ofDocId (withBraces raw) =
      keyOf (braceParameters (Text.withoutBlanks raw.toList)) := by
    rw [Key.ofDocId, withBraces, String.toList_ofList, withoutBlanks_braceParameters]
  have hbraced := keyOf_braces_isValid hname hvalid
  have hkeys := keyOf_braces_iff hvalid hbraced
  rw [hbraces]
  exact ⟨hbraced, hkeys, fun hends => hkeys.trans (withoutAssemblies_braceParameters_iff hends)⟩

theorem braces_keep_key_array :
    let raw := "M:Stack.Push(List<System.String[,], T[[T, Core, Version=4.0, Culture=neutral]]>&)"
    let text := Text.withoutBlanks raw.toList
    (Key.ofDocId raw).isValid = true ∧ Nested (splitSignature text).1 ∧
      endsInAssembly (splitSignature (splitKind text).2).1 = false ∧
      withBraces raw =
      "M:Stack.Push(List\x7bSystem.String[,], T[[T, Core, Version=4.0, Culture=neutral]]\x7d&)" ∧
      (Key.ofDocId (withBraces raw)).isValid = true ∧
      Key.ofDocId (withBraces raw) = Key.ofDocId raw := by
  intro raw text
  have hraw : raw.toList = _ := String.toList_ofList
  have htext : text = Text.withoutBlanks _ := congrArg Text.withoutBlanks hraw
  have hvalid : (Key.ofDocId raw).isValid = true := by
    rw [Key.ofDocId, hraw]
    decide +kernel
  have hname : Nested (splitSignature text).1 := by
    rw [htext]
    exact balanced_iff.mp (by decide +kernel)
  have hends : endsInAssembly (splitSignature (splitKind text).2).1 = false := by
    rw [htext]
    decide +kernel
  have hbraces : withBraces raw =
      "M:Stack.Push(List\x7bSystem.String[,], T[[T, Core, Version=4.0, Culture=neutral]]\x7d&)" := by
    rw [withBraces, hraw]
    decide +kernel
  have hassemblies :
      ∀ assembly ∈ assembliesIn (splitSignature (splitKind text).2).2, '>' ∉ assembly := by
    rw [htext]
    decide +kernel
  obtain ⟨hbraced, -, hkeys⟩ := braces_keep_key_iff raw hvalid hname
  exact ⟨hvalid, hname, hends, hbraces, hbraced, (hkeys hends).mpr hassemblies⟩

-- The version of the assembly goes on behind the name, up to the round bracket that closes.
example :
    let raw := "M:Stack.Push<String, mscorlib, Version=4.0>(List<T>)"
    Key.ofDocId raw = .canonical "M:Stack.Push<String)" ∧
      Key.ofDocId (withBraces raw) = .canonical "M:Stack.Push<String\x7d)" := by
  intro raw
  have hraw : raw.toList = _ := String.toList_ofList
  rw [Key.ofDocId, Key.ofDocId, withBraces, hraw, String.toList_ofList]
  decide +kernel

/-- The culture of an assembly goes on behind the angle bracket that closes the arguments, and ends
before a brace. -/
theorem braces_change_key :
    let raw := "M:Stack.Push(List<System.String, mscorlib, Version=4.0.0.0, Culture=neutral>)"
    (Key.ofDocId raw).isValid = true ∧ Nested (splitSignature (Text.withoutBlanks raw.toList)).1 ∧
      withBraces raw =
      "M:Stack.Push(List\x7bSystem.String, mscorlib, Version=4.0.0.0, Culture=neutral\x7d)" ∧
      (Key.ofDocId (withBraces raw)).isValid = true ∧
      Key.ofDocId raw ≠ Key.ofDocId (withBraces raw) ∧
      Key.ofDocId raw = .canonical "M:Stack.Push(List\x7bSystem.String)" ∧
      Key.ofDocId (withBraces raw) = .canonical "M:Stack.Push(List\x7bSystem.String\x7d)" := by
  intro raw
  have hraw : raw.toList = _ := String.toList_ofList
  have hname : Nested (splitSignature (Text.withoutBlanks raw.toList)).1 := by
    rw [hraw]
    exact balanced_iff.mp (by decide +kernel)
  have hbraces : withBraces raw =
      "M:Stack.Push(List\x7bSystem.String, mscorlib, Version=4.0.0.0, Culture=neutral\x7d)" := by
    rw [withBraces, hraw]
    decide +kernel
  have hkey : Key.ofDocId raw = .canonical "M:Stack.Push(List\x7bSystem.String)" := by
    rw [Key.ofDocId, hraw]
    decide +kernel
  have hkeyBraced : Key.ofDocId (withBraces raw) =
      .canonical "M:Stack.Push(List\x7bSystem.String\x7d)" := by
    rw [hbraces, Key.ofDocId, String.toList_ofList]
    decide +kernel
  refine ⟨by rw [hkey]; rfl, hname, hbraces, by rw [hkeyBraced]; rfl, ?_, hkey, hkeyBraced⟩
  rw [hkey, hkeyBraced]
  decide

end DocMerge.DocId

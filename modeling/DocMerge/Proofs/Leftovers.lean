import DocMerge.Proofs.NameBraces

/-!
# What is left behind the assemblies

An assembly at the end of a name goes on into the parameter list behind the name. `Turned` tells how
the text that is left of an identifier changes when its parameter list is written in braces: it has
braces from some place in its name on, or more brackets than before.
-/

namespace DocMerge.DocId

open Text (replaceAll dropStart? dropStart?_append_stop isNameStart scanFrom_induction)

-- ---------------------------------------------------------------------------
-- From a name into its parameter list
-- ---------------------------------------------------------------------------

theorem dropProperty_across (h : dropProperty cs = []) (rest : List Char) :
    dropProperty (cs ++ rest) = dropProperty rest := by
  unfold dropProperty at h ⊢
  rw [List.dropWhile_append, if_pos (by simpa using h)]

theorem dropOptionalProperty_across (hname : '(' ∉ name) (hne : cs ≠ [])
    (h : dropOptionalProperty name cs = [])
    (rest : List Char) : dropOptionalProperty name (cs ++ '(' :: rest) =
    dropProperty ('(' :: rest) := by
  unfold dropOptionalProperty at h ⊢
  rw [dropStart?_append_stop name '(' hname]
  cases hstart : dropStart? name cs with
  | none =>
    rw [hstart] at h
    exact absurd h hne
  | some behind =>
    rw [hstart] at h
    exact dropProperty_across h _

/-- The value that reaches to the end of a text goes on, and what follows it is read as it would be
otherwise. -/
theorem dropProperties_across (h : dropProperties cs = []) :
    ∃ read : List Char → List Char,
    (∀ rest, dropProperties (cs ++ '(' :: rest) = read ('(' :: rest)) ∧
      ∀ cs, Rereads read cs := by
  by_cases hversion : dropProperty cs = []
  · refine ⟨dropProperties, fun rest => ?_, dropProperties_rereads⟩
    unfold dropProperties
    rw [dropProperty_across hversion]
  · by_cases hculture : dropOptionalProperty ",Culture=".toList (dropProperty cs) = []
    · refine ⟨fun cs => dropOptionalProperty ",PublicKeyToken=".toList (dropProperty cs),
        fun rest => ?_, fun cs =>
        (dropProperty_rereads cs).comp (dropToken_rereads _) fun _ => rfl⟩
      unfold dropProperties
      rw [dropProperty_append hversion, dropOptionalProperty_across (by decide) hversion hculture]
    · refine ⟨dropProperty, fun rest => ?_, dropProperty_rereads⟩
      unfold dropProperties at h ⊢
      rw [dropProperty_append hversion, dropOptionalProperty_append (by decide) hculture,
        dropOptionalProperty_across (by decide) hculture h]

theorem assemblySuffix_across (h : assemblySuffix none cs = some ([], [])) :
    ∃ read : List Char → List Char,
    (∀ rest, assemblySuffix none (cs ++ '(' :: rest) = some ([], read ('(' :: rest))) ∧
      ∀ cs, Rereads read cs := by
  rw [assemblySuffix_eq, Option.map_eq_some_iff] at h
  obtain ⟨versioned, hversioned, heq⟩ := h
  obtain ⟨read, hread, hrereads⟩ := dropProperties_across (Prod.mk.inj heq).2
  refine ⟨read, fun rest => ?_, hrereads⟩
  rw [assemblySuffix_eq, assemblyHead?_append, hversioned, Option.map_some, Option.map_some, hread]

inductive Enters (name : List Char) : Prop
  | before (hbefore : ∀ rest, replaceAll assemblySuffix (name ++ '(' :: rest) =
      replaceAll assemblySuffix name ++ replaceAll assemblySuffix ('(' :: rest))
  | behind (left : List Char) (read : List Char → List Char) (hleft : left ⊆ name)
    (hbehind : ∀ rest, replaceAll assemblySuffix (name ++ '(' :: rest) =
      left ++ replaceAll assemblySuffix (read ('(' :: rest)))
    (hrereads : ∀ cs, Rereads read cs)

namespace Enters

theorem kept (hnone : assemblySuffix none (c :: name) = none) (h : Enters name) :
    Enters (c :: name) := by
  have hcons : ∀ rest, replaceAll assemblySuffix (c :: name ++ '(' :: rest) =
      c :: replaceAll assemblySuffix (name ++ '(' :: rest) := by
    intro rest
    have happend : assemblySuffix none (c :: name ++ '(' :: rest) = none := by
      rw [assemblySuffix_append (by simp [hnone]), hnone]
      rfl
    exact assemblySuffix_looksAhead.replaceAll_cons happend
  cases h with
  | before hbefore =>
    refine .before fun rest => ?_
    rw [hcons, hbefore, assemblySuffix_looksAhead.replaceAll_cons hnone, List.cons_append]
  | behind left read hleft hbehind hrereads =>
    refine .behind (c :: left) read (List.cons_subset_cons c hleft) (fun rest => ?_) hrereads
    rw [hcons, hbehind, List.cons_append]

theorem found (hfound : assemblySuffix none name = some (text, after)) (hafter : after ≠ [])
    (hsubset : after ⊆ name)
    (h : Enters after) : Enters name := by
  have hrest : ∀ rest, replaceAll assemblySuffix (name ++ '(' :: rest) =
      replaceAll assemblySuffix (after ++ '(' :: rest) := by
    intro rest
    have happend : assemblySuffix none (name ++ '(' :: rest) =
        some (text, after ++ '(' :: rest) := by
      rw [assemblySuffix_append (by simp [hfound, hafter]), hfound]
      rfl
    exact withoutSuffixes_of_some happend
  cases h with
  | before hbefore =>
    refine .before fun rest => ?_
    rw [hrest, hbefore, withoutSuffixes_of_some hfound]
  | behind left read hleft hbehind hrereads =>
    refine .behind left read (List.Subset.trans hleft hsubset) (fun rest => ?_) hrereads
    rw [hrest, hbehind]

end Enters

theorem enters (name : List Char) : Enters name := by
  refine scanFrom_induction (motive := fun name _ => Enters name) assemblySuffix_advances
    (.before fun _ => rfl)
    (fun hnone ih => ?_) (fun {before passed found after _} _ hfound ih => ?_) none name
  · rw [assemblySuffix_looksAhead _ none] at hnone
    exact ih.kept hnone
  · rw [assemblySuffix_looksAhead _ none] at hfound
    by_cases hafter : after = []
    · -- The last assembly ends with the name, so its last value goes on in the parameter list.
      obtain ⟨rfl, -⟩ := assemblySuffix_eq_some hfound
      rw [hafter] at hfound
      obtain ⟨read, hread, hrereads⟩ := assemblySuffix_across hfound
      refine .behind [] read (List.nil_subset _) (fun rest => ?_) hrereads
      rw [hafter]
      exact withoutSuffixes_of_some (hread rest)
    · exact ih.found hfound hafter (List.subset_append_right passed after)

/-- How a text is left when the parameter list that it goes on with has been written in braces: with
braces from some place on in front of which no round bracket stands, or with more brackets. -/
inductive Turned : List Char → List Char → Prop
  | same (before text : List Char) (hround : '(' ∉ before) :
    Turned (before ++ text) (before ++ text.map brace)
  | loses (h : Loses text other) : Turned text other

theorem Stripped.turned (before : List Char) (hround : '(' ∉ before) (h : Stripped assemblies cs) :
    Turned (before ++ replaceAll assemblySuffix cs)
      (before ++ replaceAll assemblySuffix (cs.map brace)) := by
  cases h with
  | same _ hsame =>
    rw [hsame]
    exact .same before _ hround
  | more _ hloses => exact .loses (hloses.append_left before)

theorem withoutSuffixes_turned (hround : '(' ∉ name) (rest : List Char) :
    Turned (replaceAll assemblySuffix (name ++ '(' :: rest))
      (replaceAll assemblySuffix (name ++ '(' :: rest.map brace)) := by
  cases enters name with
  | before hbefore =>
    rw [hbefore, hbefore]
    exact (stripped ('(' :: rest)).turned _ fun hmem => hround (withoutSuffixes_subset name hmem)
  | behind left read hleft hbehind hrereads =>
    have hleft : '(' ∉ left := fun hmem => hround (hleft hmem)
    rw [hbehind, hbehind]
    change Turned _ (left ++ replaceAll assemblySuffix (read (('(' :: rest).map brace)))
    cases hrereads ('(' :: rest) with
    | same passed _ _ _ hsame =>
      rw [hsame]
      exact (stripped _).turned left hleft
    | sooner before more _ hinert hsooner =>
      rw [hsooner]
      exact .loses (((stripped _).loses_close hinert.behind.2).append_left left)

-- ---------------------------------------------------------------------------
-- Assemblies in front of the names of types
-- ---------------------------------------------------------------------------

theorem dropAssemblyName?_append_of_none (h : dropAssemblyName? (c :: cs) = none)
    (rest : List Char) :
    dropAssemblyName? (c :: cs ++ rest) = none := by
  unfold dropAssemblyName? at h
  rw [List.cons_append, dropAssemblyName?, if_neg]
  simpa using h

theorem dropAssemblyName?_append_of_some (h : dropAssemblyName? cs = some (d :: behind))
    (rest : List Char) :
    dropAssemblyName? (cs ++ rest) = some (d :: behind ++ rest) := by
  cases cs with
  | nil => cases h
  | cons c cs =>
    rw [dropAssemblyName?, Option.ite_none_right_eq_some, Option.some.injEq] at h
    rw [List.cons_append, dropAssemblyName?, if_pos h.1, List.dropWhile_append,
      if_neg (by simp [h.2]), h.2]

theorem continues_of_isNameStart (h : isNameStart c = true) (rest : List Char) :
    Continues (c :: rest) := by
  have hnot : ∀ d, isNameStart d = false → c ≠ d := fun d hd heq => by
    rw [heq, hd] at h
    cases h
  rw [continues_cons, dotted, if_neg]
  · exact ⟨hnot '(' rfl, hnot '.' rfl⟩
  · simpa using ⟨hnot '+' rfl, hnot '/' rfl⟩

theorem withoutBrackets_of_some (h : assemblyBrackets none cs = some (found, after)) :
    replaceAll assemblyBrackets cs = replaceAll assemblyBrackets after := by
  obtain ⟨rfl, passed, hne, rfl, -⟩ := assemblyBrackets_eq_some h
  exact assemblyBrackets_looksAhead.replaceAll_found hne h

theorem assemblyBrackets_open (cs : List Char) :
    assemblyBrackets none ('[' :: cs) = (dropAssemblyName? cs).bind fun behind =>
      (dropStart? [']'] behind).bind fun after => after.head?.bind fun next =>
        if isNameStart next then some ([], after) else none := rfl

theorem assemblyBrackets_of_ne (hc : c ≠ '[') (cs : List Char) :
    assemblyBrackets none (c :: cs) = none := by
  simp [assemblyBrackets, dropStart?, Ne.symm hc]

theorem assemblyBrackets_next (h : assemblyBrackets none cs = some (found, after)) :
    ∃ next rest, after = next :: rest ∧ isNameStart next = true := by
  simp only [assemblyBrackets, Option.bind_eq_bind, Option.bind_eq_some_iff,
    Option.ite_none_right_eq_some,
    Option.some.injEq, Prod.mk.injEq] at h
  obtain ⟨_, -, _, -, _, -, next, hnext, hstart, -, rfl⟩ := h
  obtain ⟨rest, rfl⟩ := List.head?_eq_some_iff.mp hnext
  exact ⟨next, rest, rfl, hstart⟩

theorem Continues.withoutBrackets (h : Continues cs) :
    Continues (replaceAll assemblyBrackets cs) := by
  cases cs with
  | nil => exact h
  | cons c rest =>
    cases hfound : assemblyBrackets none (c :: rest) with
    | none =>
      rw [assemblyBrackets_looksAhead.replaceAll_cons hfound]
      exact continues_cons.mpr (continues_cons.mp h)
    | some match_ =>
      obtain ⟨found, after⟩ := match_
      obtain ⟨next, more, rfl, hnext⟩ := assemblyBrackets_next hfound
      have hopen : next ≠ '[' := fun heq => by
        rw [heq] at hnext
        cases hnext
      rw [withoutBrackets_of_some hfound,
        assemblyBrackets_looksAhead.replaceAll_cons (assemblyBrackets_of_ne hopen _)]
      exact continues_of_isNameStart hnext _

/-- Whether an assembly is in front of a text can be told, or the text is the beginning of one. -/
theorem assemblyBrackets_append_or (c : Char) (cs : List Char) :
    (∀ rest, assemblyBrackets none (c :: cs ++ rest) =
      (assemblyBrackets none (c :: cs)).map (Prod.map id (· ++ rest))) ∨
      c = '[' ∧ cs.countP isGeneric = 0 := by
  by_cases hc : c = '['
  · subst hc
    simp only [List.cons_append, assemblyBrackets_open, true_and]
    cases hname : dropAssemblyName? cs with
    | none =>
      cases cs with
      | nil => exact .inr rfl
      | cons d cs =>
        refine .inl fun rest => ?_
        rw [dropAssemblyName?_append_of_none hname]
        rfl
    | some behind =>
      obtain ⟨name, hpart, rfl⟩ := dropAssemblyName?_eq_some hname
      match behind with
      | [] => exact .inr (by rw [List.append_nil, countP_assemblyName hpart])
      | d :: behind =>
        have happend := dropAssemblyName?_append_of_some hname
        by_cases hd : d = ']'
        · subst hd
          cases behind with
          | nil => exact .inr (by rw [List.countP_append, countP_assemblyName hpart]; rfl)
          | cons next behind =>
            refine .inl fun rest => ?_
            rw [happend]
            by_cases hnext : isNameStart next <;> simp [dropStart?, hnext]
        · refine .inl fun rest => ?_
          rw [happend]
          simp [dropStart?, Ne.symm hd]
  · refine .inl fun rest => ?_
    rw [List.cons_append, assemblyBrackets_of_ne hc, assemblyBrackets_of_ne hc, Option.map_none]

/-- What is left of a text is told from its beginning, and goes on with the beginning of an assembly
at most. -/
inductive Carries (cs : List Char) : Prop
  | mk (kept more : List Char) (hkept : kept ⊆ cs) (hmore : more.countP isGeneric = 0)
    (hcontinues : ∀ rest, Continues rest → Continues (more ++ rest))
    (happend : ∀ rest, replaceAll assemblyBrackets (cs ++ rest) = kept ++
      replaceAll assemblyBrackets (more ++ rest))

namespace Carries

theorem opened (h : cs.countP isGeneric = 0) : Carries ('[' :: cs) := by
  refine mk [] ('[' :: cs) (List.nil_subset _) ?_
    (fun _ _ => continues_cons.mpr (by decide)) fun _ => rfl
  rwa [List.countP_cons_of_neg (by decide)]

theorem kept (hnone : assemblyBrackets none (c :: cs) = none) (h : Carries cs) :
    Carries (c :: cs) := by
  rcases assemblyBrackets_append_or c cs with hall | ⟨rfl, hcount⟩
  · obtain ⟨kept, more, hkept, hmore, hcontinues, happend⟩ := h
    refine mk (c :: kept) more (List.cons_subset_cons c hkept) hmore hcontinues fun rest => ?_
    have hrest := hall rest
    rw [hnone, List.cons_append] at hrest
    rw [List.cons_append, assemblyBrackets_looksAhead.replaceAll_cons hrest,
      happend, List.cons_append]
  · exact opened hcount

theorem found (hfound : assemblyBrackets none (c :: cs) = some (text, after))
    (hsubset : after ⊆ c :: cs)
    (h : Carries after) : Carries (c :: cs) := by
  rcases assemblyBrackets_append_or c cs with hall | ⟨rfl, hcount⟩
  · obtain ⟨kept, more, hkept, hmore, hcontinues, happend⟩ := h
    refine mk kept more (List.Subset.trans hkept hsubset) hmore hcontinues fun rest => ?_
    have hrest := hall rest
    rw [hfound] at hrest
    exact (withoutBrackets_of_some hrest).trans (happend rest)
  · exact opened hcount

end Carries

theorem carries (cs : List Char) : Carries cs := by
  refine scanFrom_induction (motive := fun cs _ => Carries cs) assemblyBrackets_advances
    (.mk [] [] (List.Subset.refl _) rfl (fun _ h => h) fun _ => rfl)
    (fun hnone ih => ih.kept hnone) (fun {before passed found after _} hne hfound ih => ?_) none cs
  obtain ⟨c, passed, rfl⟩ := List.exists_cons_of_ne_nil hne
  exact ih.found hfound (List.subset_append_right (c :: passed) after)

theorem countP_withoutBrackets (cs : List Char) :
    (replaceAll assemblyBrackets cs).countP isGeneric = cs.countP isGeneric := by
  refine Text.countP_replaceAll (fun before cs found after h => ?_) cs
  obtain ⟨rfl, passed, hne, hcs, hcount⟩ := assemblyBrackets_eq_some h
  exact ⟨passed, hne, hcs, hcount.symm⟩

theorem withoutBrackets_subset (cs : List Char) : replaceAll assemblyBrackets cs ⊆ cs :=
  Text.replaceAll_subset assemblyBrackets_advances
    (fun _ _ _ _ h => (assemblyBrackets_eq_some h).1) cs

theorem angleFree_of_countP (h : cs.countP isGeneric = 0) : AngleFree cs := by
  intro c hc
  have hc := List.countP_eq_zero.mp h c hc
  exact (brace_eq_iff (by simpa using hc) c).mpr rfl

theorem Loses.withoutBrackets (h : Loses text other) :
    Loses (replaceAll assemblyBrackets text) (replaceAll assemblyBrackets other) := by
  obtain ⟨before, hcontinues, hfree, hless⟩ := h
  obtain ⟨kept, more, -, hmore, hmoreContinues, happend⟩ := carries before
  rw [happend, happend]
  refine .mk kept (hmoreContinues _ hcontinues).withoutBrackets (fun c hc => ?_) ?_
  · exact List.forall_mem_append.mpr ⟨angleFree_of_countP hmore, hfree⟩ c
      (withoutBrackets_subset _ hc)
  · rw [countP_withoutBrackets, countP_withoutBrackets, List.countP_append, List.countP_append]
    exact Nat.add_lt_add_left hless _

theorem Turned.withoutBrackets (h : Turned text other) :
    Turned (replaceAll assemblyBrackets text) (replaceAll assemblyBrackets other) := by
  cases h with
  | same before text hround =>
    obtain ⟨kept, more, hkept, hmore, -, happend⟩ := carries before
    have hbraced : replaceAll assemblyBrackets (more ++ text.map brace) =
        (replaceAll assemblyBrackets (more ++ text)).map brace := by
      rw [← Text.replaceAll_map assemblyBrackets_map, List.map_append,
        (angleFree_of_countP hmore).map_brace]
    rw [happend, happend, hbraced]
    exact .same kept _ fun hmem => hround (hkept hmem)
  | loses h => exact .loses h.withoutBrackets

-- ---------------------------------------------------------------------------
-- Identifiers
-- ---------------------------------------------------------------------------

def withoutAssemblies (cs : List Char) : List Char :=
  replaceAll assemblyBrackets (replaceAll assemblySuffix cs)

theorem withoutAssemblies_subset (cs : List Char) : withoutAssemblies cs ⊆ cs :=
  List.Subset.trans (withoutBrackets_subset _) (withoutSuffixes_subset cs)

theorem withoutAssemblies_turned (hround : '(' ∉ name) (rest : List Char) :
    Turned (withoutAssemblies (name ++ '(' :: rest))
      (withoutAssemblies (name ++ '(' :: rest.map brace)) :=
  (withoutSuffixes_turned hround rest).withoutBrackets

end DocMerge.DocId

import DocMerge.Proofs.Readers
import Mathlib.Data.Nat.Find

/-!
# The fuel of the readers

What a reader reads with some fuel it reads with any fuel beyond the lengths of the text and of all
entities. An entity whose text is read lies in no text of its own, so each counts once: while one is
read, only those are needed that are read with less fuel.
-/

namespace DocMerge.Xml

open Text (cutAt?_eq_some dropStart?_eq_some_iff)

variable {entities : Entities} {cs rest : List Char}

-- ---------------------------------------------------------------------------
-- What readers leave
-- ---------------------------------------------------------------------------

theorem readReference?_suffix (h : readReference? entities cs = some (reference, rest)) :
    rest <:+ cs := by
  unfold readReference? at h
  split at h
  · rename_i number
    simp only [Option.bind_eq_bind, Option.bind_eq_some_iff, Prod.exists] at h
    obtain ⟨digits, behind, hcut, hread⟩ := h
    obtain rfl : behind = rest := by
      split at hread
      · split at hread
        · simp at hread
        · simp only [Option.bind_eq_some_iff, Option.some.injEq, Prod.mk.injEq] at hread
          obtain ⟨_, _, _, _, _, rfl⟩ := hread
          rfl
      · simp only [Option.bind_eq_some_iff, Option.some.injEq, Prod.mk.injEq] at hread
        obtain ⟨_, _, _, _, _, rfl⟩ := hread
        rfl
    exact ⟨'#' :: digits ++ [';'], by simp [cutAt?_eq_some hcut]⟩
  · simp only [Option.bind_eq_bind, Option.bind_eq_some_iff, Prod.exists, readName?_eq_some_iff,
      dropStart?_eq_some_iff] at h
    obtain ⟨name, _, ⟨-, rfl, -⟩, behind, rfl, hread⟩ := h
    obtain rfl : behind = rest := by
      split at hread
      · exact (Prod.mk.inj (Option.some.inj hread)).2
      · simp only [Option.ite_none_right_eq_some, Option.some.injEq, Prod.mk.injEq] at hread
        exact hread.2.2
    exact ⟨name.toList ++ [';'], by simp⟩

def referencePiece? (entities : Entities) (fuel : Nat) : Reference → Option ValuePiece
  | .character c => some (.char c)
  | .entity name =>
    match entities.find? name with
    | some (.text cs) =>
      (readValue? entities none fuel cs).map (fun (value, _) => .reference name value.characters)
    | some _ => none
    | none => some (.reference name ('&' :: name.toList ++ [';']))

theorem readValue?_ampersand (entities : Entities) (quote? : Option Char) (fuel : Nat)
    (cs : List Char) :
    readValue? entities quote? (fuel + 1) ('&' :: cs) =
      (readReference? entities cs).bind fun (reference, rest) =>
        (referencePiece? entities fuel reference).bind fun piece =>
          (readValue? entities quote? fuel rest).map fun (value, rest) =>
            (piece :: value, rest) := by
  rw [readValue?]
  cases readReference? entities cs with
  | none => rfl
  | some match_ =>
    obtain ⟨reference, rest⟩ := match_
    cases reference with
    | character c =>
      simp only [referencePiece?, Option.bind_eq_bind, Option.bind_some, Option.map_eq_bind]; rfl
    | entity name =>
      simp only [referencePiece?, Option.bind_eq_bind, Option.bind_some, Option.map_eq_bind]
      cases entities.find? name with
      | none => rfl
      | some definition => cases definition <;> rfl

theorem readValue?_cons (h : c ≠ '&') (entities : Entities) (quote? : Option Char) (fuel : Nat)
    (cs : List Char) :
    readValue? entities quote? (fuel + 1) (c :: cs) =
      if quote? == some c then some ([], cs)
      else if c == '<' || !isAllowed c then none
      else (readValue? entities quote? fuel cs).map fun (value, rest) =>
        (.char (if isSpace c && quote?.isSome then ' ' else c) :: value, rest) := by
  rw [readValue?]
  · simp only [Option.bind_eq_bind, Option.map_eq_bind]
    rfl
  · exact h

theorem readValue?_suffix (h : readValue? entities quote? fuel cs = some (v, rest)) :
    rest <:+ cs := by
  induction fuel generalizing cs v with
  | zero => simp [readValue?] at h
  | succ fuel ih =>
    cases cs with
    | nil =>
      simp only [readValue?, Option.ite_none_right_eq_some, Option.some.injEq, Prod.mk.injEq] at h
      exact h.2.2 ▸ List.suffix_refl _
    | cons c cs =>
      by_cases hc : c = '&'
      · subst hc
        rw [readValue?_ampersand] at h
        simp only [Option.bind_eq_some_iff, Option.map_eq_some_iff, Prod.exists, Prod.mk.injEq] at h
        obtain ⟨_, behind, hreference, _, -, _, _, hmore, -, rfl⟩ := h
        exact (ih hmore).trans ((readReference?_suffix hreference).trans (List.suffix_cons _ _))
      · rw [readValue?_cons hc] at h
        split at h
        · obtain ⟨-, rfl⟩ : [] = v ∧ cs = rest := by simpa using h
          exact List.suffix_cons _ _
        · simp only [Option.ite_none_left_eq_some, Option.map_eq_some_iff, Prod.exists,
            Prod.mk.injEq] at h
          obtain ⟨-, _, _, hmore, -, rfl⟩ := h
          exact (ih hmore).trans (List.suffix_cons _ _)

-- ---------------------------------------------------------------------------
-- The entities that are needed
-- ---------------------------------------------------------------------------

namespace Entities

def texts (entities : Entities) : List (List Char) :=
  entities.declared.filterMap fun (_, definition) =>
    match definition with
    | .text cs => some cs
    | _ => none

def isReadable (entities : Entities) (fuel : Nat) (cs : List Char) : Bool :=
  (List.range fuel).any fun less => (readValue? entities none less cs).isSome

def need (entities : Entities) (fuel : Nat) : Nat :=
  (entities.texts.filter (entities.isReadable fuel)).flatten.length

theorem isReadable_iff : entities.isReadable fuel cs = true ↔
    ∃ less < fuel, (readValue? entities none less cs).isSome = true := by
  simp [isReadable]

theorem isReadable_of_le (hle : less ≤ more) (h : entities.isReadable less cs = true) :
    entities.isReadable more cs = true := by
  obtain ⟨fuel, hfuel, hread⟩ := isReadable_iff.mp h
  exact isReadable_iff.mpr ⟨fuel, hfuel.trans_le hle, hread⟩

theorem mem_texts (h : entities.find? name = some (.text cs)) : cs ∈ entities.texts := by
  obtain ⟨first, second, hsplit, -⟩ := List.lookup_eq_some_iff.mp h
  exact List.mem_filterMap.mpr ⟨(name, .text cs), by simp [hsplit], rfl⟩

theorem size_eq (entities : Entities) : entities.size = entities.texts.flatten.length := by
  obtain ⟨declared, isOpen⟩ := entities
  have hall : ∀ total, declared.foldl (fun total (_, definition) =>
      match definition with
      | .text cs => total + cs.length
      | _ => total) total = total + (texts ⟨declared, isOpen⟩).flatten.length := by
    induction declared with
    | nil => exact fun total => rfl
    | cons entry declared ih =>
      intro total
      obtain ⟨name, definition⟩ := entry
      rw [List.foldl_cons, ih]
      cases definition <;> simp [texts, Nat.add_assoc]
  exact (hall 0).trans (Nat.zero_add _)

end Entities

theorem length_filter_le {p q : List Char → Bool} (h : ∀ cs, p cs = true → q cs = true)
    (texts : List (List Char)) :
    (texts.filter p).flatten.length ≤ (texts.filter q).flatten.length := by
  induction texts with
  | nil => exact Nat.le_refl 0
  | cons text texts ih =>
    cases hp : p text with
    | true =>
      rw [List.filter_cons_of_pos hp, List.filter_cons_of_pos (h text hp), List.flatten_cons,
        List.flatten_cons,
        List.length_append, List.length_append]
      exact Nat.add_le_add_left ih _
    | false =>
      rw [List.filter_cons_of_neg (by simp [hp]), List.filter_cons]
      split
      · rw [List.flatten_cons, List.length_append]
        exact ih.trans (Nat.le_add_left _ _)
      · exact ih

theorem length_filter_add_le {p q : List Char → Bool} (h : ∀ cs, p cs = true → q cs = true)
    {texts : List (List Char)} (hmem : text ∈ texts) (hp : p text = false) (hq : q text = true) :
    (texts.filter p).flatten.length + text.length ≤ (texts.filter q).flatten.length := by
  obtain ⟨first, second, rfl⟩ := List.append_of_mem hmem
  have hfirst := length_filter_le h first
  have hsecond := length_filter_le h second
  have hnot : ¬ p text = true := by simp [hp]
  simp only [List.filter_append, List.flatten_append, List.length_append,
    List.filter_cons_of_neg hnot,
    List.filter_cons_of_pos hq, List.flatten_cons]
  omega

namespace Entities

theorem need_mono (hle : less ≤ more) : entities.need less ≤ entities.need more :=
  length_filter_le (fun _ => isReadable_of_le hle) _

theorem need_le_size (entities : Entities) (fuel : Nat) : entities.need fuel ≤ entities.size := by
  have hall := length_filter_le (p := entities.isReadable fuel) (q := fun _ => true)
    (fun _ _ => rfl) entities.texts
  rwa [List.filter_eq_self.mpr fun _ _ => rfl, ← size_eq] at hall

/-- A text that is read with some fuel and with no less needs only texts that are read with less. -/
theorem need_add_le (h : entities.find? name = some (.text cs))
    (hread : (readValue? entities none least cs).isSome = true)
    (hleast : ∀ less < least, (readValue? entities none less cs).isSome = false)
    (hless : least < more) :
    entities.need least + cs.length ≤ entities.need more := by
  refine length_filter_add_le (fun _ => isReadable_of_le (Nat.le_of_lt hless)) (mem_texts h) ?_ ?_
  · rw [Bool.eq_false_iff, ne_eq, isReadable_iff]
    rintro ⟨less, hlt, hsome⟩
    rw [hleast less hlt] at hsome
    cases hsome
  · exact isReadable_iff.mpr ⟨least, hless, hread⟩

end Entities

/-- Whether what is read as a value with some fuel is read with any beyond the lengths of the text
and of the entities needed. -/
def ReadsOn (entities : Entities) (fuel : Nat) : Prop :=
  ∀ ⦃quote? cs found more⦄, readValue? entities quote? fuel cs = some found →
    cs.length + entities.need fuel < more → readValue? entities quote? more cs = some found

theorem readText_of_need (hless : ∀ less ≤ fuel, ReadsOn entities less)
    (hname : entities.find? name = some (.text cs))
    (h : readValue? entities none fuel cs = some found) (hmore : entities.need (fuel + 1) < more) :
    readValue? entities none more cs = some found := by
  -- The text is read with the least fuel that suffices, for which it does not need itself.
  have hsome : ∃ fuel, (readValue? entities none fuel cs).isSome = true := ⟨fuel, by rw [h]; rfl⟩
  have hleast : Nat.find hsome ≤ fuel := Nat.find_min' hsome (by rw [h]; rfl)
  have hcount := Entities.need_add_le hname (Nat.find_spec hsome)
    (fun less hlt => by simpa using Nat.find_min hsome hlt) (Nat.lt_add_one_of_le hleast)
  have hmuch : ∀ fuel, cs.length + entities.need fuel < cs.length + entities.size + 1 := fun fuel =>
    Nat.lt_succ_of_le (Nat.add_le_add_left (entities.need_le_size fuel) _)
  obtain ⟨first, hfirst⟩ := Option.isSome_iff_exists.mp (Nat.find_spec hsome)
  obtain rfl : first = found := by
    have hsame := hless _ hleast hfirst (hmuch _)
    rw [hless fuel (Nat.le_refl fuel) h (hmuch _)] at hsame
    exact (Option.some.inj hsame).symm
  exact hless _ hleast hfirst (by omega)

theorem referencePiece?_of_need (hless : ∀ less ≤ fuel, ReadsOn entities less)
    (h : referencePiece? entities fuel reference = some piece)
    (hmore : entities.need (fuel + 1) < more) :
    referencePiece? entities more reference = some piece := by
  cases reference with
  | character c => exact h
  | entity name =>
    rw [referencePiece?] at h ⊢
    cases hname : entities.find? name with
    | none => simpa only [hname] using h
    | some definition =>
      cases definition with
      | external | unparsed => simp [hname] at h
      | text text =>
        simp only [hname, Option.map_eq_some_iff, Prod.exists] at h ⊢
        obtain ⟨inner, behind, hinner, rfl⟩ := h
        exact ⟨inner, behind, readText_of_need hless hname hinner hmore, rfl⟩

theorem readsOn (entities : Entities) (fuel : Nat) : ReadsOn entities fuel := by
  induction fuel using Nat.strongRecOn with
  | ind fuel ih =>
    intro quote? cs found more h hmore
    obtain ⟨more, rfl⟩ := Nat.exists_eq_add_one_of_ne_zero (Nat.ne_zero_of_lt hmore)
    cases fuel with
    | zero => simp [readValue?] at h
    | succ fuel =>
      have hless : ∀ less ≤ fuel, ReadsOn entities less :=
        fun less hle => ih less (Nat.lt_succ_of_le hle)
      have hneed : entities.need fuel ≤ entities.need (fuel + 1) :=
        Entities.need_mono (Nat.le_succ fuel)
      cases cs with
      | nil => simpa only [readValue?] using h
      | cons c cs =>
        rw [List.length_cons] at hmore
        by_cases hc : c = '&'
        · subst hc
          rw [readValue?_ampersand] at h ⊢
          simp only [Option.bind_eq_some_iff, Option.map_eq_some_iff, Prod.exists] at h ⊢
          obtain ⟨reference, behind, hreference, piece, hpiece, v, rest, hrest, hfound⟩ := h
          have hshorter := (readReference?_suffix hreference).length_le
          exact ⟨reference, behind, hreference, piece,
            referencePiece?_of_need hless hpiece (by omega), v, rest,
            hless fuel (Nat.le_refl fuel) hrest (by omega), hfound⟩
        · rw [readValue?_cons hc] at h ⊢
          split
          · rename_i hquote
            rwa [if_pos hquote] at h
          · rename_i hquote
            rw [if_neg hquote] at h
            simp only [Option.ite_none_left_eq_some, Option.map_eq_some_iff, Prod.exists] at h ⊢
            obtain ⟨hplain, v, rest, hrest, hfound⟩ := h
            exact ⟨hplain, v, rest, hless fuel (Nat.le_refl fuel) hrest (by omega), hfound⟩

-- ---------------------------------------------------------------------------
-- Fuel of all readers
-- ---------------------------------------------------------------------------

/-- Whether a reader reads the same with any fuel beyond the lengths of the text and of all
entities. -/
def Settles (entities : Entities) (read : Nat → List Char → Option α) : Prop :=
  ∀ ⦃fuel cs found more⦄, read fuel cs = some found → cs.length + entities.size < more →
  read more cs = some found

theorem readValue?_settles (entities : Entities) (quote? : Option Char) :
    Settles entities (readValue? entities quote?) := by
  intro fuel cs found more h hmore
  exact readsOn entities fuel h
    (Nat.lt_of_le_of_lt (Nat.add_le_add_left (entities.need_le_size fuel) _) hmore)

theorem readQuoted?_settles (entities : Entities) : Settles entities (readQuoted? entities) := by
  intro fuel cs found more h hmore
  cases cs with
  | nil => simp [readQuoted?] at h
  | cons quote cs =>
    simp only [readQuoted?, Option.ite_none_right_eq_some, List.length_cons] at h hmore ⊢
    exact ⟨h.1, readValue?_settles entities (some quote) h.2 (by omega)⟩

theorem readQuoted?_suffix (h : readQuoted? entities fuel cs = some (v, rest)) : rest <:+ cs := by
  cases cs with
  | nil => simp [readQuoted?] at h
  | cons quote cs =>
    simp only [readQuoted?, Option.ite_none_right_eq_some] at h
    exact (readValue?_suffix h.2).trans (List.suffix_cons _ _)

theorem readAttribute?_suffix (h : readAttribute? entities fuel cs = some (a, rest)) :
    rest <:+ cs := by
  simp only [readAttribute?, Option.bind_eq_bind, Option.bind_eq_some_iff, Prod.exists,
    readQName?_eq_some_iff, dropStart?_eq_some_iff, Option.some.injEq, Prod.mk.injEq] at h
  obtain ⟨name, behind, ⟨-, rfl, -⟩, more, hequals, value, _, hvalue, -, rfl⟩ := h
  have hmore : more <:+ skipSpaces behind := hequals ▸ List.suffix_cons '=' more
  exact (readQuoted?_suffix hvalue).trans ((skipSpaces_suffix more).trans
    (hmore.trans ((skipSpaces_suffix behind).trans (List.suffix_append _ _))))

theorem readAttribute?_settles (entities : Entities) :
    Settles entities (readAttribute? entities) := by
  intro fuel cs found more h hmore
  simp only [readAttribute?, Option.bind_eq_bind, Option.bind_eq_some_iff, Prod.exists] at h ⊢
  obtain ⟨name, behind, hname, rest, hequals, value, _, hvalue, hfound⟩ := h
  obtain ⟨-, rfl, -⟩ := readQName?_eq_some_iff.mp hname
  refine ⟨name, behind, hname, rest, hequals, value, _,
    readQuoted?_settles entities hvalue ?_, hfound⟩
  have hrest := (skipSpaces_suffix rest).length_le
  have hbehind := (skipSpaces_suffix behind).length_le
  rw [dropStart?_eq_some_iff.mp hequals] at hbehind
  simp only [List.length_append, List.length_cons, List.length_nil] at hbehind hmore
  omega

theorem readTagEnd?_suffix (h : readTagEnd? cs = some (empty, rest)) : rest <:+ cs :=
  (readTagEnd?_isBehind h).suffix

theorem skipSpaces_length_lt (h : (cs.head?.map isSpace).getD false = true) :
    (skipSpaces cs).length < cs.length := by
  cases cs with
  | nil => simp at h
  | cons c cs =>
    have hc : isSpace c = true := h
    rw [skipSpaces, List.dropWhile_cons_of_pos hc]
    exact Nat.lt_succ_of_le (skipSpaces_suffix cs).length_le

theorem readAttributes?_suffix
    (h : readAttributes? entities fuel cs = some (attributes, empty, rest)) :
    rest <:+ cs := by
  induction fuel generalizing cs attributes empty with
  | zero => simp [readAttributes?] at h
  | succ fuel ih =>
    rw [readAttributes?] at h
    split at h
    · rename_i hend
      obtain ⟨-, -, rfl⟩ : [] = attributes ∧ _ = empty ∧ _ = rest := by simpa using h
      exact (readTagEnd?_suffix hend).trans (skipSpaces_suffix cs)
    · simp only [Option.ite_none_right_eq_some, Option.bind_eq_bind, Option.bind_eq_some_iff,
        Prod.exists, Option.some.injEq, Prod.mk.injEq] at h
      obtain ⟨-, _, _, behind, hfirst, _, _, _, hmore, -, -, rfl⟩ := h
      exact (ih hmore).trans ((readAttribute?_suffix hfirst).trans (skipSpaces_suffix cs))

theorem readAttributes?_settles (entities : Entities) :
    Settles entities (readAttributes? entities) := by
  intro fuel
  induction fuel with
  | zero => intro cs found more h _; simp [readAttributes?] at h
  | succ fuel ih =>
    intro cs found more h hmore
    obtain ⟨more, rfl⟩ := Nat.exists_eq_add_one_of_ne_zero (Nat.ne_zero_of_lt hmore)
    rw [readAttributes?] at h ⊢
    split
    · rename_i hend
      rwa [hend] at h
    · rename_i hend
      simp only [hend, Option.ite_none_right_eq_some, Option.bind_eq_bind, Option.bind_eq_some_iff,
        Prod.exists] at h ⊢
      obtain ⟨hspace, name, value, behind, hfirst, rest, hrest⟩ := h
      have hshorter := skipSpaces_length_lt hspace
      have hbehind := (readAttribute?_suffix hfirst).length_le
      obtain ⟨attributes, empty, hrest, hfound⟩ := hrest
      exact ⟨hspace, name, value, behind, readAttribute?_settles entities hfirst (by omega), rest,
        attributes, empty,
        ih hrest (by omega), hfound⟩

theorem readOpening?_suffix (h : readOpening? entities fuel cs = some (tokens, rest)) :
    rest <:+ cs := by
  simp only [readOpening?, Option.bind_eq_bind, Option.bind_eq_some_iff, Prod.exists,
    readQName?_eq_some_iff, Option.some.injEq, Prod.mk.injEq] at h
  obtain ⟨name, behind, ⟨-, rfl, -⟩, _, _, _, hattributes, -, rfl⟩ := h
  exact (readAttributes?_suffix hattributes).trans (List.suffix_append _ _)

theorem readOpening?_settles (entities : Entities) : Settles entities (readOpening? entities) := by
  intro fuel cs found more h hmore
  simp only [readOpening?, Option.bind_eq_bind, Option.bind_eq_some_iff, Prod.exists] at h ⊢
  obtain ⟨name, behind, hname, attributes, empty, rest, hattributes, hfound⟩ := h
  obtain ⟨-, rfl, -⟩ := readQName?_eq_some_iff.mp hname
  rw [List.length_append] at hmore
  exact ⟨name, behind, hname, attributes, empty, rest,
    readAttributes?_settles entities hattributes (by omega), hfound⟩

theorem readMarkup?_suffix (h : readMarkup? entities fuel cs = some (tokens, rest)) :
    rest <:+ cs := by
  cases readMarkup?_reads h with
  | @comment s _ => exact ⟨['!', '-', '-'] ++ s.toList ++ ['-', '-', '>'], by simp⟩
  | @cdata s _ _ => exact ⟨'!' :: "[CDATA[".toList ++ s.toList ++ "]]>".toList, by simp⟩
  | @instruction target data gap _ _ =>
    exact ⟨'?' :: (target.toList ++ gap ++ (data.getD "").toList ++ ['?', '>']), by simp⟩
  | closing hclosing => exact (readClosing?_sound hclosing).2.suffix.trans (List.suffix_cons _ _)
  | opening hopening => exact readOpening?_suffix hopening

theorem readTokens?_length_lt (h : readTokens? entities fuel cs = some (tokens, rest)) :
    rest.length < cs.length := by
  cases readTokens?_reads h with
  | markup hmarkup => exact Nat.lt_succ_of_le (readMarkup?_suffix hmarkup).length_le
  | escaped hreference | reference hreference =>
    exact Nat.lt_succ_of_le (readReference?_suffix hreference).length_le
  | char => exact Nat.lt_succ_self _

theorem readMarkup?_settles (entities : Entities) : Settles entities (readMarkup? entities) := by
  intro fuel cs found more h hmore
  unfold readMarkup? at h ⊢
  split at h
  · exact h
  · exact h
  · exact h
  · exact h
  · exact readOpening?_settles entities h hmore

theorem readTokens?_settles (entities : Entities) : Settles entities (readTokens? entities) := by
  intro fuel cs found more h hmore
  unfold readTokens? at h ⊢
  split at h
  · exact h
  · simp only [List.length_cons] at hmore
    exact readMarkup?_settles entities h (by omega)
  · exact h
  · exact h

theorem tokensWithin?_settles (entities : Entities) :
    Settles entities (tokensWithin? entities) := by
  intro fuel
  induction fuel with
  | zero => intro cs found more h _; simp [tokensWithin?] at h
  | succ fuel ih =>
    intro cs found more h hmore
    obtain ⟨more, rfl⟩ := Nat.exists_eq_add_one_of_ne_zero (Nat.ne_zero_of_lt hmore)
    rw [tokensWithin?] at h ⊢
    split
    · rename_i hempty
      rwa [if_pos hempty] at h
    · rename_i hempty
      rw [if_neg hempty] at h
      simp only [Option.bind_eq_bind, Option.bind_eq_some_iff, Prod.exists,
        Option.map_eq_some_iff] at h ⊢
      obtain ⟨tokens, behind, hfirst, rest, hrest, hfound⟩ := h
      have hshorter := readTokens?_length_lt hfirst
      exact ⟨tokens, behind, readTokens?_settles entities hfirst hmore, rest,
        ih hrest (by omega), hfound⟩

/-- Beyond the lengths of the text and of all entities, fuel makes no difference. -/
theorem tokensWithin?_eq (hfuel : cs.length + entities.size < fuel) :
    tokensWithin? entities fuel cs = tokens? entities cs := by
  ext tokens
  exact ⟨fun h => tokensWithin?_settles entities h (Nat.lt_succ_self _),
    fun h => tokensWithin?_settles entities h hfuel⟩

end DocMerge.Xml

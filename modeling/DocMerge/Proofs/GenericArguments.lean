import DocMerge.Docs.Entry
import DocMerge.Proofs.Scanning
import Mathlib.Data.List.Infix
import Mathlib.Data.List.TakeWhile
import Mathlib.Logic.Function.Iterate
import Mathlib.Logic.Relation
import Mathlib.Order.Bounds.Defs

/-!
# Names without generic arguments

`isExplicitImplementation_iff`: the rounds in which a name loses its generic arguments come to an
end, and where the angle brackets of the name are balanced, the name counts as one of an explicit
implementation exactly if it has a dot outside of all of them. `rounds_isGreatest` counts the rounds
of such a name: there are as many as its brackets are deep.

One step takes away one list of arguments that has none inside it. A round is made of such steps,
and so are all rounds together, so what a step keeps is kept to the end.
-/

namespace DocMerge

open Relation (ReflTransGen)
open Text (Advances LooksAhead scan replaceAll dropStart?_eq_some_iff)

-- ---------------------------------------------------------------------------
-- Steps
-- ---------------------------------------------------------------------------

/-- The second text is the first one without one list of generic arguments that has none inside
it. -/
inductive LosesArguments : List Char → List Char → Prop
  | intro (front inner after : List Char) (hopen : '<' ∉ inner) (hclose : '>' ∉ inner) :
    LosesArguments (front ++ '<' :: (inner ++ '>' :: after)) (front ++ after)

theorem LosesArguments.cons (c : Char) (h : LosesArguments cs ds) :
    LosesArguments (c :: cs) (c :: ds) := by
  obtain ⟨front, inner, after, hopen, hclose⟩ := h
  exact .intro (c :: front) inner after hopen hclose

theorem innermostArguments_eq_some_iff : innermostArguments before cs = some (found, after) ↔
    found = [] ∧ ∃ inner, '<' ∉ inner ∧ '>' ∉ inner ∧ cs = '<' :: (inner ++ '>' :: after) := by
  simp only [innermostArguments, Option.bind_eq_bind, Option.bind_eq_some_iff,
    dropStart?_eq_some_iff,
    Option.some.injEq, Prod.mk.injEq, List.singleton_append]
  constructor
  · rintro ⟨opened, rfl, rest, hrest, rfl, rfl⟩
    refine ⟨rfl, opened.takeWhile (fun c => c != '<' && c != '>'), fun h => ?_, fun h => ?_, ?_⟩
    · have := List.mem_takeWhile_imp h
      contradiction
    · have := List.mem_takeWhile_imp h
      contradiction
    · rw [← hrest, List.takeWhile_append_dropWhile]
  · rintro ⟨rfl, inner, hopen, hclose, rfl⟩
    refine ⟨_, rfl, after, ?_, rfl, rfl⟩
    have hinner : ∀ c ∈ inner, (c != '<' && c != '>') = true := fun c hc => by
      rw [Bool.and_eq_true, bne_iff_ne, bne_iff_ne]
      exact ⟨ne_of_mem_of_not_mem hc hopen, ne_of_mem_of_not_mem hc hclose⟩
    rw [List.dropWhile_append_of_pos hinner]
    rfl

theorem innermostArguments_advances : Advances innermostArguments := by
  intro before cs found after h
  obtain ⟨-, inner, -, -, rfl⟩ := innermostArguments_eq_some_iff.mp h
  exact ⟨'<' :: (inner ++ ['>']), by simp, by simp⟩

theorem innermostArguments_looksAhead : LooksAhead innermostArguments := fun _ _ _ => rfl

-- ---------------------------------------------------------------------------
-- Rounds
-- ---------------------------------------------------------------------------

def peeled (cs : List Char) : List Char := replaceAll innermostArguments cs

/-- What a round finds, one entry for each list of arguments that it takes away. -/
def peelings (cs : List Char) : List (List Char) := (scan innermostArguments cs).found

theorem peeled_loses (cs : List Char) : ReflTransGen LosesArguments cs (peeled cs) := by
  refine Text.scanFrom_induction (motive := fun cs scanned =>
    ReflTransGen LosesArguments cs (scanned.write id))
    innermostArguments_advances .refl ?_ ?_ none cs
  · intro before c rest scanned _ ih
    exact ih.lift (c :: ·) fun _ _ h => h.cons c
  · intro before passed found after scanned _ hfound ih
    obtain ⟨rfl, inner, hopen, hclose, hpassed⟩ := innermostArguments_eq_some_iff.mp hfound
    rw [hpassed]
    exact ih.head (.intro [] inner after hopen hclose)

theorem length_peeled (cs : List Char) :
    (peeled cs).length + 2 * (peelings cs).length ≤ cs.length := by
  refine Text.scanFrom_induction
    (motive := fun cs scanned => (scanned.write id).length + 2 * scanned.found.length ≤ cs.length)
    innermostArguments_advances (Nat.le_refl 0) ?_ ?_ none cs
  · intro before c rest scanned _ ih
    simp only [Text.Scanned.write, Text.Scanned.found, List.flatMap_cons,
      Sum.elim_inl, List.cons_append,
      List.nil_append, List.filterMap_cons, Sum.getRight?_inl, List.length_cons] at ih ⊢
    omega
  · intro before passed found after scanned _ hfound ih
    obtain ⟨rfl, inner, -, -, hpassed⟩ := innermostArguments_eq_some_iff.mp hfound
    rw [hpassed]
    simp only [Text.Scanned.write, Text.Scanned.found, List.flatMap_cons, Sum.elim_inr,
      id_eq, List.nil_append,
      List.filterMap_cons, Sum.getRight?_inr, List.length_cons, List.length_append] at ih ⊢
    omega

theorem peelings_ne_nil_of_some (h : innermostArguments none cs = some (found, after)) :
    peelings cs ≠ [] := by
  obtain ⟨passed, hpassed, rfl⟩ := innermostArguments_advances h
  obtain ⟨before, hscan⟩ := Text.scanFrom_append_of_some hpassed h
  rw [peelings, scan, hscan]
  exact List.cons_ne_nil _ _

theorem peelings_ne_nil_iff : peelings cs ≠ [] ↔ ∃ ds, LosesArguments cs ds := by
  constructor
  · intro h
    obtain ⟨found, hfound⟩ := List.exists_mem_of_ne_nil _ h
    obtain ⟨part, hpart, hright⟩ := List.mem_filterMap.mp hfound
    obtain rfl := Sum.getRight?_eq_some_iff.mp hright
    obtain ⟨_, _, after, ⟨front, rfl⟩, hmatch⟩ := Text.exists_of_inr_mem_scanFrom hpart
    obtain ⟨-, inner, hopen, hclose, rfl⟩ := innermostArguments_eq_some_iff.mp hmatch
    exact ⟨_, .intro front inner after hopen hclose⟩
  · rintro ⟨_, front, inner, after, hopen, hclose⟩
    induction front with
    | nil =>
      exact peelings_ne_nil_of_some
        (innermostArguments_eq_some_iff.mpr ⟨rfl, _, hopen, hclose, rfl⟩)
    | cons c front ih =>
      rw [List.cons_append]
      cases h : innermostArguments none (c :: (front ++ '<' :: (inner ++ '>' :: after))) with
      | some => exact peelings_ne_nil_of_some h
      | none =>
        rwa [peelings, scan, Text.scanFrom_cons_of_none h,
          innermostArguments_looksAhead.scanFrom_eq]

theorem peeled_eq_self (h : peelings cs = []) : peeled cs = cs := by
  rcases (peeled_loses cs).cases_head with heq | ⟨_, hstep, -⟩
  · exact heq.symm
  · exact absurd h (peelings_ne_nil_iff.mpr ⟨_, hstep⟩)

/-- The loop goes through so many rounds, each of which finds something to take away, and ends at a
text in which nothing is left to find. -/
structure EndsAfter (rounds : Nat) (name left : List Char) : Prop where
  eq_left : peeled^[rounds] name = left
  goesOn : ∀ m < rounds, peelings (peeled^[m] name) ≠ []
  done : peelings left = []

theorem EndsAfter.next (hfound : peelings name ≠ []) (h : EndsAfter rounds (peeled name) left) :
    EndsAfter (rounds + 1) name left where
  eq_left := h.eq_left
  goesOn
    | 0, _ => hfound
    | m + 1, hm => h.goesOn m (Nat.lt_of_succ_lt_succ hm)
  done := h.done

/-- The loop ends for every name, since each round makes it shorter by two characters at least. -/
theorem withoutArguments_endsAfter (name : List Char) :
    ∃ rounds, 2 * rounds ≤ name.length ∧ EndsAfter rounds name (withoutArguments name) := by
  induction name using withoutArguments.induct with
  | case1 name next shorter ih =>
    obtain ⟨rounds, hrounds, hends⟩ := ih
    have hfound : peelings name ≠ [] := fun h =>
      Nat.lt_irrefl _ (congrArg List.length (peeled_eq_self h) ▸ shorter)
    have hlength := length_peeled name
    have hpos := List.length_pos_iff.mpr hfound
    rw [withoutArguments, dif_pos shorter]
    refine ⟨rounds + 1, ?_, hends.next hfound⟩
    change 2 * rounds ≤ (peeled name).length at hrounds
    omega
  | case2 name next longer =>
    have hdone : peelings name = [] := by
      have hlength := length_peeled name
      change ¬ (peeled name).length < name.length at longer
      exact List.length_eq_zero_iff.mp (by omega)
    rw [withoutArguments, dif_neg longer]
    exact ⟨0, Nat.zero_le _, rfl, fun m hm => absurd hm (Nat.not_lt_zero m), hdone⟩

theorem EndsAfter.loses (h : EndsAfter rounds name left) :
    ReflTransGen LosesArguments name left := by
  rw [← h.eq_left]
  clear h
  induction rounds with
  | zero => exact .refl
  | succ rounds ih =>
    rw [Function.iterate_succ_apply']
    exact ih.trans (peeled_loses _)

-- ---------------------------------------------------------------------------
-- Balanced brackets
-- ---------------------------------------------------------------------------

def angleDepth (cs : List Char) : Int := cs.count '<' - cs.count '>'

/-- Every `>` closes a `<` that stands before it, and every `<` is closed. -/
structure AngleBalanced (cs : List Char) : Prop where
  nonneg : ∀ before, before <+: cs → 0 ≤ angleDepth before
  closed : angleDepth cs = 0

instance : DecidablePred AngleBalanced := fun cs =>
  decidable_of_iff ((∀ before ∈ cs.inits, 0 ≤ angleDepth before) ∧ angleDepth cs = 0)
    ⟨fun h => ⟨fun before hbefore => h.1 before ((List.mem_inits _ _).mpr hbefore), h.2⟩,
      fun h => ⟨fun before hbefore => h.nonneg before ((List.mem_inits _ _).mp hbefore), h.closed⟩⟩

def HasDotAt (depth : Int) (cs : List Char) : Prop :=
  ∃ before after, cs = before ++ '.' :: after ∧ angleDepth before = depth

@[simp] theorem angleDepth_nil : angleDepth [] = 0 := rfl

@[simp] theorem angleDepth_append (first second : List Char) :
    angleDepth (first ++ second) = angleDepth first + angleDepth second := by
  simp only [angleDepth, List.count_append]
  omega

@[simp] theorem angleDepth_open (cs : List Char) : angleDepth ('<' :: cs) = angleDepth cs + 1 := by
  rw [angleDepth, angleDepth, List.count_cons_self, List.count_cons_of_ne (by decide)]
  omega

@[simp] theorem angleDepth_close (cs : List Char) : angleDepth ('>' :: cs) = angleDepth cs - 1 := by
  rw [angleDepth, angleDepth, List.count_cons_self, List.count_cons_of_ne (by decide)]
  omega

theorem angleDepth_of_not_mem (hopen : '<' ∉ cs) (hclose : '>' ∉ cs) : angleDepth cs = 0 := by
  simp [angleDepth, List.count_eq_zero_of_not_mem hopen, List.count_eq_zero_of_not_mem hclose]

theorem angleDepth_prefix_of_not_mem (hopen : '<' ∉ cs) (hclose : '>' ∉ cs) (h : before <+: cs) :
    angleDepth before = 0 :=
  angleDepth_of_not_mem (fun hmem => hopen (h.subset hmem)) (fun hmem => hclose (h.subset hmem))

theorem prefix_append_iff {before first second : List Char} :
    before <+: first ++ second ↔ before <+: first ∨ ∃ mid, before = first ++ mid ∧
    mid <+: second := by
  constructor
  · rintro ⟨after, h⟩
    obtain ⟨mid, rfl, rfl⟩ | ⟨mid, rfl, rfl⟩ := List.append_eq_append_iff.mp h
    · exact .inl (List.prefix_append _ _)
    · exact .inr ⟨mid, rfl, List.prefix_append _ _⟩
  · rintro (h | ⟨mid, rfl, h⟩)
    · exact h.trans (List.prefix_append _ _)
    · exact (List.prefix_append_right_inj first).mpr h

theorem LosesArguments.balanced (h : LosesArguments cs ds) (hcs : AngleBalanced cs) :
    AngleBalanced ds := by
  obtain ⟨front, inner, after, hopen, hclose⟩ := h
  have hinner := angleDepth_of_not_mem hopen hclose
  constructor
  · intro before hbefore
    rcases prefix_append_iff.mp hbefore with hfront | ⟨mid, rfl, hmid⟩
    · exact hcs.nonneg before (hfront.trans (List.prefix_append _ _))
    · -- With the arguments put back, what is open behind the place is the same.
      have hwhole := hcs.nonneg (front ++ '<' :: (inner ++ '>' :: mid))
        (by simpa [List.prefix_cons_iff] using hmid)
      simpa [hinner] using hwhole
  · simpa [hinner] using hcs.closed

theorem hasDotAt_append : HasDotAt depth (first ++ second) ↔
    HasDotAt depth first ∨ HasDotAt (depth - angleDepth first) second := by
  constructor
  · rintro ⟨before, after, h, rfl⟩
    obtain ⟨mid, rfl, rfl⟩ | ⟨mid, rfl, hmid⟩ := List.append_eq_append_iff.mp h
    · refine .inr ⟨mid, after, rfl, ?_⟩
      rw [angleDepth_append]
      omega
    · cases mid with
      | nil => exact .inr ⟨[], after, hmid.symm, by simp⟩
      | cons c mid =>
        obtain ⟨rfl, -⟩ := List.cons.inj hmid
        exact .inl ⟨before, mid, rfl, rfl⟩
  · rintro (⟨before, after, rfl, rfl⟩ | ⟨before, after, rfl, hdepth⟩)
    · exact ⟨before, after ++ second, by simp, rfl⟩
    · refine ⟨first ++ before, after, by simp, ?_⟩
      rw [angleDepth_append]
      omega

theorem hasDotAt_arguments {inner after : List Char} (hopen : '<' ∉ inner) (hclose : '>' ∉ inner)
    (hdepth : depth ≤ 0) : HasDotAt depth ('<' :: (inner ++ '>' :: after)) ↔
    HasDotAt depth after := by
  have hinner := angleDepth_of_not_mem hopen hclose
  constructor
  · rintro ⟨before, behind, h, rfl⟩
    obtain ⟨-, hdot⟩ | ⟨before, rfl, h⟩ := List.cons_eq_append_iff.mp h
    · cases (List.cons.inj hdot).1
    obtain ⟨mid, rfl, hmid⟩ | ⟨mid, rfl, -⟩ := List.append_eq_append_iff.mp (List.cons.inj h).2
    · obtain ⟨-, hdot⟩ | ⟨mid, rfl, rfl⟩ := List.cons_eq_append_iff.mp hmid
      · cases (List.cons.inj hdot).1
      · exact ⟨mid, behind, rfl, by simp [hinner]⟩
    · have hbefore := angleDepth_prefix_of_not_mem hopen hclose (List.prefix_append before mid)
      simp [hbefore] at hdepth
  · rintro ⟨before, behind, rfl, hbefore⟩
    exact ⟨'<' :: (inner ++ '>' :: before), behind, by simp, by simp [hinner, hbefore]⟩

theorem LosesArguments.hasDotAt_iff (h : LosesArguments cs ds) (hcs : AngleBalanced cs) :
    HasDotAt 0 cs ↔ HasDotAt 0 ds := by
  obtain ⟨front, inner, after, hopen, hclose⟩ := h
  have hfront := hcs.nonneg front (List.prefix_append _ _)
  rw [hasDotAt_append, hasDotAt_append, hasDotAt_arguments hopen hclose (by omega)]

theorem AngleBalanced.of_loses (h : AngleBalanced cs) (hsteps : ReflTransGen LosesArguments cs ds) :
    AngleBalanced ds ∧ (HasDotAt 0 cs ↔ HasDotAt 0 ds) := by
  induction hsteps with
  | refl => exact ⟨h, Iff.rfl⟩
  | tail _ hstep ih => exact ⟨hstep.balanced ih.1, ih.2.trans (hstep.hasDotAt_iff ih.1)⟩

theorem AngleBalanced.exists_close (h : AngleBalanced (front ++ '<' :: rest)) :
    ∃ inner after, rest = inner ++ '>' :: after ∧ '>' ∉ inner := by
  refine List.eq_append_cons_of_mem (Decidable.byContradiction fun hclose => ?_)
  have hfront := h.nonneg front (List.prefix_append _ _)
  have hclosed := h.closed
  have hrest : angleDepth rest = rest.count '<' := by
    simp [angleDepth, List.count_eq_zero_of_not_mem hclose]
  rw [angleDepth_append, angleDepth_open, hrest] at hclosed
  omega

/-- The bracket that opens last has no other inside it. -/
theorem AngleBalanced.exists_step (h : AngleBalanced cs) (hopen : '<' ∈ cs) :
    ∃ ds, LosesArguments cs ds := by
  obtain ⟨behind, before, heq, hlast⟩ := List.eq_append_cons_of_mem (List.mem_reverse.mpr hopen)
  obtain rfl : cs = before.reverse ++ '<' :: behind.reverse := by
    simpa using congrArg List.reverse heq
  obtain ⟨inner, after, hrest, hclose⟩ := h.exists_close
  rw [hrest]
  refine ⟨_, .intro before.reverse inner after (fun hmem => hlast ?_) hclose⟩
  rw [← List.mem_reverse, hrest]
  exact List.mem_append_left _ hmem

theorem AngleBalanced.not_mem_of_done (h : AngleBalanced cs) (hdone : peelings cs = []) :
    '<' ∉ cs ∧ '>' ∉ cs := by
  have hopen : '<' ∉ cs := fun hmem => peelings_ne_nil_iff.mpr (h.exists_step hmem) hdone
  refine ⟨hopen, List.count_eq_zero.mp ?_⟩
  have hclosed := h.closed
  rw [angleDepth, List.count_eq_zero_of_not_mem hopen] at hclosed
  omega

-- ---------------------------------------------------------------------------
-- Depth
-- ---------------------------------------------------------------------------

def ReachesDepth (depth : Int) (cs : List Char) : Prop :=
  ∃ before, before <+: cs ∧ depth ≤ angleDepth before

theorem reachesDepth_of_nonpos (h : depth ≤ 0) (cs : List Char) : ReachesDepth depth cs :=
  ⟨[], List.nil_prefix, h⟩

theorem reachesDepth_nil : ReachesDepth depth [] ↔ depth ≤ 0 := by
  simp [ReachesDepth, List.prefix_nil]

theorem reachesDepth_cons :
    ReachesDepth depth (c :: cs) ↔ depth ≤ 0 ∨ ReachesDepth (depth - angleDepth [c]) cs := by
  have hcons : ∀ before, angleDepth (c :: before) = angleDepth [c] + angleDepth before :=
    angleDepth_append [c]
  constructor
  · rintro ⟨before, hbefore, hdepth⟩
    obtain rfl | ⟨behind, rfl, hbehind⟩ := List.prefix_cons_iff.mp hbefore
    · exact .inl hdepth
    · rw [hcons] at hdepth
      exact .inr ⟨behind, hbehind, by omega⟩
  · rintro (h | ⟨before, hbefore, hdepth⟩)
    · exact reachesDepth_of_nonpos h _
    · refine ⟨c :: before, (List.prefix_cons_inj c).mpr hbefore, ?_⟩
      rw [hcons]
      omega

theorem reachesDepth_arguments {inner after : List Char} (hopen : '<' ∉ inner)
    (hclose : '>' ∉ inner)
    (hdepth : 2 ≤ depth) :
    ReachesDepth depth ('<' :: (inner ++ '>' :: after)) ↔ ReachesDepth depth after := by
  have hinner := angleDepth_of_not_mem hopen hclose
  constructor
  · rintro ⟨before, hbefore, hreached⟩
    obtain rfl | ⟨opened, rfl, hopened⟩ := List.prefix_cons_iff.mp hbefore
    · rw [angleDepth_nil] at hreached
      omega
    rw [angleDepth_open] at hreached
    rcases prefix_append_iff.mp hopened with hwithin | ⟨mid, rfl, hmid⟩
    · rw [angleDepth_prefix_of_not_mem hopen hclose hwithin] at hreached
      omega
    rw [angleDepth_append, hinner] at hreached
    obtain rfl | ⟨behind, rfl, hbehind⟩ := List.prefix_cons_iff.mp hmid
    · rw [angleDepth_nil] at hreached
      omega
    · rw [angleDepth_close] at hreached
      exact ⟨behind, hbehind, by omega⟩
  · rintro ⟨before, hbefore, hreached⟩
    refine ⟨'<' :: (inner ++ '>' :: before), by simpa [List.prefix_cons_iff] using hbefore, ?_⟩
    rw [angleDepth_open, angleDepth_append, angleDepth_close, hinner]
    omega

theorem peelings_ne_nil_iff_reachesDepth (h : AngleBalanced cs) : peelings cs ≠ [] ↔
    ReachesDepth 1 cs := by
  rw [peelings_ne_nil_iff]
  constructor
  · rintro ⟨_, front, inner, after, hopen, hclose⟩
    have hfront := h.nonneg front (List.prefix_append _ _)
    refine ⟨front ++ ['<'], by simp [List.prefix_cons_iff], ?_⟩
    rw [angleDepth_append, angleDepth_open, angleDepth_nil]
    omega
  · rintro ⟨before, hbefore, hdepth⟩
    refine h.exists_step (hbefore.subset (List.count_pos_iff.mp ?_))
    rw [angleDepth] at hdepth
    omega

theorem AngleBalanced.reachesDepth_of_kept (h : AngleBalanced (front ++ '<' :: rest))
    (hnone : innermostArguments before ('<' :: rest) = none) : ReachesDepth 1 rest := by
  obtain ⟨inner, after, rfl, hclose⟩ := h.exists_close
  have hopen : '<' ∈ inner := Decidable.byContradiction fun hopen => by
    rw [innermostArguments_eq_some_iff.mpr ⟨rfl, inner, hopen, hclose, rfl⟩] at hnone
    cases hnone
  obtain ⟨first, more, rfl, hfirst⟩ := List.eq_append_cons_of_mem hopen
  refine ⟨first ++ ['<'], by simp [List.prefix_cons_iff], ?_⟩
  rw [angleDepth_append, angleDepth_of_not_mem hfirst fun h => hclose (List.mem_append_left _ h)]
  decide

/-- A round takes away the brackets that have no others inside them, and leaves those around
them. -/
theorem reachesDepth_peeled (h : AngleBalanced cs) (hdepth : 1 ≤ depth) :
    ReachesDepth depth (peeled cs) ↔ ReachesDepth (depth + 1) cs := by
  -- The text before the place where the round has arrived tells how many brackets are open there.
  refine Text.scanFrom_induction
    (motive := fun cs scanned => ∀ front depth, AngleBalanced (front ++ cs) → 1 ≤ depth →
      (ReachesDepth depth (scanned.write id) ↔ ReachesDepth (depth + 1) cs))
    innermostArguments_advances ?nil ?kept ?found none cs [] depth h hdepth
  case nil =>
    intro front depth _ hdepth
    change ReachesDepth depth [] ↔ _
    rw [reachesDepth_nil, reachesDepth_nil]
    omega
  case kept =>
    intro before c rest scanned hnone ih front depth hbalanced hdepth
    have hrest : AngleBalanced (front ++ [c] ++ rest) := by rwa [List.append_assoc]
    change ReachesDepth depth (c :: scanned.write id) ↔ _
    rw [reachesDepth_cons, reachesDepth_cons, or_iff_right (by omega), or_iff_right (by omega)]
    have hrises : depth + 1 - angleDepth [c] = depth - angleDepth [c] + 1 := by omega
    by_cases hbelow : 1 ≤ depth - angleDepth [c]
    · rw [hrises]
      exact ih _ _ hrest hbelow
    · -- The bracket that opens here reaches the depth, and the one inside it the next.
      have hpos : 0 < [c].count '<' := by
        rw [angleDepth] at hbelow
        omega
      obtain rfl : c = '<' := (List.mem_singleton.mp (List.count_pos_iff.mp hpos)).symm
      obtain rfl : depth = 1 := by
        have hopens : angleDepth ['<'] = 1 := rfl
        omega
      exact iff_of_true (reachesDepth_of_nonpos (by decide) _)
        (hbalanced.reachesDepth_of_kept hnone)
  case found =>
    intro before passed found after scanned _ hfound ih front depth hbalanced hdepth
    obtain ⟨rfl, inner, hopen, hclose, hpassed⟩ := innermostArguments_eq_some_iff.mp hfound
    change ReachesDepth depth (scanned.write id) ↔ _
    rw [hpassed, reachesDepth_arguments hopen hclose (by omega)]
    exact ih (front ++ passed) depth (by rwa [List.append_assoc]) hdepth

theorem peelings_iterate_ne_nil_iff (h : AngleBalanced name) (m : Nat) :
    peelings (peeled^[m] name) ≠ [] ↔ ReachesDepth (m + 1) name := by
  induction m generalizing name with
  | zero => exact peelings_ne_nil_iff_reachesDepth h
  | succ m ih =>
    have hpeeled := (h.of_loses (peeled_loses name)).1
    rw [Function.iterate_succ_apply, ih hpeeled, reachesDepth_peeled h (by omega)]
    rfl

/-- A balanced name takes as many rounds as its brackets are deep. -/
theorem rounds_isGreatest (h : AngleBalanced name) (hends : EndsAfter rounds name left) :
    IsGreatest {depth : Int | ∃ before, before <+: name ∧ angleDepth before = depth} rounds := by
  have hreached : ReachesDepth rounds name := by
    cases rounds with
    | zero => exact reachesDepth_of_nonpos (by decide) name
    | succ m => exact (peelings_iterate_ne_nil_iff h m).mp (hends.goesOn m (Nat.lt_succ_self m))
  have hdone : ¬ ReachesDepth (rounds + 1) name := fun hdeeper =>
    (peelings_iterate_ne_nil_iff h rounds).mpr hdeeper (hends.eq_left ▸ hends.done)
  have hbound : ∀ before, before <+: name → angleDepth before ≤ rounds := fun before hbefore =>
    Int.lt_add_one_iff.mp (Int.not_le.mp fun hdepth => hdone ⟨before, hbefore, hdepth⟩)
  obtain ⟨before, hbefore, hdepth⟩ := hreached
  refine ⟨⟨before, hbefore, Int.le_antisymm (hbound before hbefore) hdepth⟩, ?_⟩
  rintro _ ⟨other, hother, rfl⟩
  exact hbound other hother

-- ---------------------------------------------------------------------------
-- Explicit implementations
-- ---------------------------------------------------------------------------

theorem hasDotAt_zero_iff (hopen : '<' ∉ cs) (hclose : '>' ∉ cs) : HasDotAt 0 cs ↔ '.' ∈ cs := by
  constructor
  · rintro ⟨before, after, rfl, -⟩
    exact List.mem_append_right _ List.mem_cons_self
  · intro hdot
    obtain ⟨before, after, rfl⟩ := List.append_of_mem hdot
    exact ⟨before, after, rfl,
      angleDepth_prefix_of_not_mem hopen hclose (List.prefix_append before _)⟩

/-- The rounds come to an end for every name. What they leave of a balanced one has a dot exactly if
the name has one outside of its angle brackets, however deep these are. -/
theorem isExplicitImplementation_iff {node : ApiNode} (hkind : node.kind = .member)
    (himplements : node.interfaceMembers ≠ []) :
    (∃ rounds, 2 * rounds ≤ node.name.toList.length ∧
      EndsAfter rounds node.name.toList (withoutArguments node.name.toList)) ∧
    (AngleBalanced node.name.toList →
      (node.isExplicitImplementation = true ↔ HasDotAt 0 node.name.toList)) := by
  obtain ⟨rounds, hrounds, hends⟩ := withoutArguments_endsAfter node.name.toList
  refine ⟨⟨rounds, hrounds, hends⟩, fun hbalanced => ?_⟩
  obtain ⟨hleft, hdots⟩ := hbalanced.of_loses hends.loses
  obtain ⟨hopen, hclose⟩ := hleft.not_mem_of_done hends.done
  have hexplicit : node.isExplicitImplementation = true ↔
      '.' ∈ withoutArguments node.name.toList := by
    simp [ApiNode.isExplicitImplementation, ApiNode.implementsInterface, hkind, himplements]
  rw [hexplicit, hdots, hasDotAt_zero_iff hopen hclose]

theorem isExplicitImplementation_iff_nested :
    let node : ApiNode := {
      kind := .member
      docId := "M:Bag.ISet#Add"
      key := .ofDocId "M:Bag.ISet#Add"
      name := "ISet<System.Pair<A,B>>.Add"
      interfaceMembers := ["M:ISet`1.Add"] }
    node.kind = .member ∧ node.interfaceMembers ≠ [] ∧ AngleBalanced node.name.toList ∧
      HasDotAt 0 node.name.toList ∧ node.isExplicitImplementation = true := by
  intro node
  have hbalanced : AngleBalanced node.name.toList := by decide +kernel
  have hdot : HasDotAt 0 node.name.toList :=
    ⟨"ISet<System.Pair<A,B>>".toList, "Add".toList, by decide, by decide⟩
  obtain ⟨-, hiff⟩ := isExplicitImplementation_iff (rfl : node.kind = .member) (by decide)
  exact ⟨rfl, by decide, hbalanced, hdot, (hiff hbalanced).mpr hdot⟩

end DocMerge

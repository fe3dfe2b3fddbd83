import DocMerge.Docs.Markdown
import DocMerge.Proofs.Scanning
import Mathlib.Data.List.Forall2
import Mathlib.Data.List.TakeWhile

/-!
# Code blocks survive the way to markdown

While markup is changed, a text carries the tokens of its code blocks. A token is never taken apart:
what a pattern matches begins, ends and is divided at characters that no token has. So the tokens
that are put in are those that are found at the end, perhaps in another order, and `markdown?`
answers for every text without null characters.
-/

namespace DocMerge.Markdown

open Text

-- ---------------------------------------------------------------------------
-- Texts that carry tokens
-- ---------------------------------------------------------------------------

/-- A text in which null characters stand in whole tokens alone, and the numbers of these. -/
inductive Carries : List Char → List Nat → Prop
  | nil : Carries [] []
  | plain (h : c ≠ '\x00') : Carries cs ns → Carries (c :: cs) ns
  | token (n : Nat) : Carries cs ns → Carries (token n ++ cs) (n :: ns)

def IsMarkup (c : Char) : Prop := c ≠ '\x00' ∧ c.isDigit = false

instance (c : Char) : Decidable (IsMarkup c) := inferInstanceAs (Decidable (_ ∧ _))

def AllMarkup (m : List Char) : Prop := ∀ c ∈ m, IsMarkup c

instance (m : List Char) : Decidable (AllMarkup m) := List.decidableBAll IsMarkup m

@[simp] theorem allMarkup_nil : AllMarkup [] := by simp [AllMarkup]

@[simp] theorem allMarkup_cons :
    AllMarkup (c :: m) ↔ IsMarkup c ∧ AllMarkup m := by simp [AllMarkup]

@[simp] theorem allMarkup_append : AllMarkup (m ++ m') ↔ AllMarkup m ∧ AllMarkup m' := by
  simp [AllMarkup, or_imp, forall_and]

theorem IsMarkup.not_mem_token (h : IsMarkup c) (n : Nat) : c ∉ token n := by
  simp only [token, List.cons_append, List.mem_cons, List.mem_append, List.not_mem_nil, or_false]
  rintro (hnull | hdigit | hnull)
  · exact h.1 hnull
  · have := h.2.symm.trans (isDigit_of_mem_repr hdigit)
    simp at this
  · exact h.1 hnull

theorem isMarkup_of_isBlank (h : isBlank c = true) : IsMarkup c := by
  constructor
  · rintro rfl
    simp [isBlank] at h
  · cases hd : c.isDigit with
    | false => rfl
    | true =>
      simp only [Char.isDigit, Bool.and_eq_true, decide_eq_true_eq, UInt32.le_iff_toNat_le] at hd
      simp only [isBlank, Char.toNat] at h
      grind

theorem not_isBlank_of_mem_token (h : c ∈ token n) : isBlank c = false := by
  cases hb : isBlank c with
  | false => rfl
  | true => exact absurd h ((isMarkup_of_isBlank hb).not_mem_token n)

namespace Carries

theorem of_plain (h : '\x00' ∉ cs) : Carries cs [] := by
  induction cs with
  | nil => exact .nil
  | cons c cs ih =>
    simp only [List.mem_cons, not_or] at h
    exact .plain (Ne.symm h.1) (ih h.2)

theorem of_token (n : Nat) : Carries (Markdown.token n) [n] := by
  simpa using Carries.nil.token n

theorem append (h : Carries a ns) (h' : Carries b ms) : Carries (a ++ b) (ns ++ ms) := by
  induction h with
  | nil => exact h'
  | plain hc _ ih => exact .plain hc ih
  | token n _ ih => rw [List.append_assoc]; exact .token n ih

theorem eq_nil (h : Carries [] ns) : ns = [] := by
  generalize hcs : ([] : List Char) = cs at h
  cases h with
  | nil => rfl
  | plain => simp at hcs
  | token n => simp [Markdown.token] at hcs

theorem tail (h : Carries (c :: cs) ns) (hc : c ≠ '\x00') : Carries cs ns := by
  generalize hcs : c :: cs = all at h
  cases h with
  | nil => simp at hcs
  | plain _ h =>
    obtain ⟨-, rfl⟩ := List.cons.inj hcs
    exact h
  | token n =>
    rw [Markdown.token, List.cons_append, List.cons_append] at hcs
    exact absurd (List.cons.inj hcs).1 hc

theorem drop_markup (hm : AllMarkup m) (h : Carries (m ++ cs) ns) : Carries cs ns := by
  induction m with
  | nil => exact h
  | cons c m ih =>
    exact ih (allMarkup_cons.mp hm).2 (h.tail (allMarkup_cons.mp hm).1.1)

theorem split (h : Carries (a ++ c :: b) ns) (hc : IsMarkup c) :
    ∃ xs ys, ns = xs ++ ys ∧ Carries a xs ∧ Carries (c :: b) ys := by
  generalize hcs : a ++ c :: b = cs at h
  induction h generalizing a with
  | nil => simp at hcs
  | @plain d cs ns hd h ih =>
    cases a with
    | nil =>
      rw [List.nil_append] at hcs
      exact ⟨[], ns, rfl, .nil, hcs ▸ .plain hd h⟩
    | cons e a =>
      rw [List.cons_append] at hcs
      obtain ⟨rfl, hrest⟩ := List.cons.inj hcs
      obtain ⟨xs, ys, hns, ha, hb⟩ := ih hrest
      exact ⟨xs, ys, hns, .plain hd ha, hb⟩
  | @token cs ns n h ih =>
    rcases List.append_eq_append_iff.mp hcs with ⟨a', htoken, hb⟩ | ⟨a', ha, hb⟩
    · cases a' with
      | nil =>
        rw [List.append_nil] at htoken
        subst htoken
        exact ⟨[n], ns, rfl, .of_token n, hb ▸ h⟩
      | cons d a' =>
        obtain ⟨rfl, -⟩ := List.cons.inj hb
        exact absurd (htoken ▸ List.mem_append_right a List.mem_cons_self) (hc.not_mem_token n)
    · obtain ⟨xs, ys, rfl, ha', hb'⟩ := ih hb.symm
      exact ⟨n :: xs, ys, rfl, ha ▸ .token n ha', hb'⟩

theorem cut (h : Carries (a ++ m ++ b) ns) (hne : m ≠ []) (hm : AllMarkup m) :
    ∃ xs ys, ns = xs ++ ys ∧ Carries a xs ∧ Carries b ys := by
  cases m with
  | nil => exact absurd rfl hne
  | cons c m =>
    rw [List.append_assoc, List.cons_append] at h
    obtain ⟨xs, ys, hns, ha, hb⟩ := h.split (allMarkup_cons.mp hm).1
    exact ⟨xs, ys, hns, ha, drop_markup (m := c :: m) hm hb⟩

theorem left (h : Carries (a ++ m) ns) (hm : AllMarkup m) : Carries a ns := by
  by_cases hne : m = []
  · subst hne
    simpa using h
  · obtain ⟨xs, ys, rfl, ha, hb⟩ := cut (b := []) (by simpa using h) hne hm
    rw [hb.eq_nil, List.append_nil]
    exact ha

end Carries

-- ---------------------------------------------------------------------------
-- Blanks
-- ---------------------------------------------------------------------------

theorem trimEnd_append (cs : List Char) :
    ∃ blanks, (∀ c ∈ blanks, isBlank c = true) ∧ cs = trimEnd cs ++ blanks := by
  induction cs with
  | nil => exact ⟨[], by simp, rfl⟩
  | cons c cs ih =>
    obtain ⟨blanks, hblank, hcs⟩ := ih
    rw [trimEnd]
    split
    · rename_i hnil
      rw [hnil, List.nil_append] at hcs
      subst hcs
      split
      · rename_i hc
        exact ⟨c :: cs, by simpa [hc] using hblank, rfl⟩
      · exact ⟨cs, hblank, rfl⟩
    · exact ⟨blanks, hblank, by rw [List.cons_append, ← hcs]⟩

theorem isPrefix_trimEnd (cs : List Char) : trimEnd cs <+: cs := by
  obtain ⟨blanks, -, hend⟩ := trimEnd_append cs
  exact ⟨blanks, hend.symm⟩

theorem Carries.trim (h : Carries cs ns) : Carries (Text.trim cs) ns := by
  have hsplit : cs = cs.takeWhile isBlank ++ trimStart cs := List.takeWhile_append_dropWhile.symm
  rw [hsplit] at h
  have hstart := Carries.drop_markup (fun c hc => isMarkup_of_isBlank (List.mem_takeWhile_imp hc)) h
  obtain ⟨blanks, hblank, hend⟩ := trimEnd_append (trimStart cs)
  rw [hend] at hstart
  exact hstart.left fun c hc => isMarkup_of_isBlank (hblank c hc)

theorem squeeze_cons_of_not_blank (h : isBlank c = false) (cs : List Char) :
    squeeze (c :: cs) = c :: squeeze cs := by
  cases cs <;> simp [squeeze, h]

theorem squeeze_append (h : ∀ c ∈ a, isBlank c = false) (b : List Char) :
    squeeze (a ++ b) = a ++ squeeze b := by
  induction a with
  | nil => rfl
  | cons c a ih =>
    rw [List.cons_append, squeeze_cons_of_not_blank (h c List.mem_cons_self),
      ih fun d hd => h d (List.mem_cons_of_mem c hd), List.cons_append]

theorem Carries.squeeze (h : Carries cs ns) : Carries (Text.squeeze cs) ns := by
  induction h with
  | nil => exact .nil
  | @plain c cs ns hc h ih =>
    cases hb : isBlank c with
    | false =>
      rw [squeeze_cons_of_not_blank hb]
      exact .plain hc ih
    | true =>
      cases cs with
      | nil => simpa [Text.squeeze, hb] using h.plain (c := ' ') (by decide)
      | cons d cs =>
        rw [Text.squeeze, if_pos hb]
        split
        · exact ih
        · exact .plain (by decide) ih
  | token n h ih =>
    rw [squeeze_append fun c hc => not_isBlank_of_mem_token hc]
    exact .token n ih

theorem Carries.collapse (h : Carries cs ns) : Carries (Text.collapse cs) ns := h.squeeze.trim

-- ---------------------------------------------------------------------------
-- Scans
-- ---------------------------------------------------------------------------

/-- A match begins with a character that no token has, and the tokens of what it takes off a text
are those of what is written instead. -/
def KeepsMatch (cs after out : List Char) : Prop :=
  ∃ c passed, IsMarkup c ∧ cs = c :: (passed ++ after) ∧
    ∀ {ns}, Carries cs ns → ∃ xs ys, Carries out xs ∧ Carries after ys ∧ (xs ++ ys).Perm ns

def Keeps (pattern : Pattern α) (render : α → List Char) : Prop :=
  ∀ before cs found after, pattern before cs = some (found, after) →
    KeepsMatch cs after (render found)

inductive ScanCarries (render : α → List Char) : Scanned α → List Nat → Prop
  | nil : ScanCarries render [] []
  | plain (h : c ≠ '\x00') : ScanCarries render s ns → ScanCarries render (.inl c :: s) ns
  | token (n : Nat) : ScanCarries render s ns →
    ScanCarries render ((token n).map .inl ++ s) (n :: ns)
  | found (h : Carries (render x) xs) : ScanCarries render s ys →
    ScanCarries render (.inr x :: s) (xs ++ ys)

variable {α : Type} {pattern : Pattern α} {render : α → List Char}

theorem Keeps.not_in_token (hk : Keeps pattern render) (hc : c ∈ token n) (before : Option Char)
    (rest : List Char) : pattern before (c :: rest) = none := by
  cases h : pattern before (c :: rest) with
  | none => rfl
  | some match_ =>
    obtain ⟨d, passed, hd, hcs, -⟩ := hk _ _ _ _ h
    obtain ⟨rfl, -⟩ := List.cons.inj hcs
    exact absurd hc (hd.not_mem_token n)

/-- By induction on what is left of the text: a match leaves less of it. -/
theorem Keeps.scan (hk : Keeps pattern render) (before : Option Char) (h : Carries cs ns) :
    ∃ ms, ScanCarries render (scanFrom pattern 0 before cs) ms ∧ ms.Perm ns := by
  induction hlen : cs.length using Nat.strongRecOn generalizing cs ns before with
  | ind len ih =>
    subst hlen
    cases h with
    | nil => exact ⟨[], .nil, .refl []⟩
    | @plain c rest _ hc hrest =>
      cases hmatch : pattern before (c :: rest) with
      | none =>
        obtain ⟨ms, hms, hperm⟩ := ih rest.length (by simp) (some c) hrest rfl
        rw [scanFrom_cons_of_none hmatch]
        exact ⟨ms, .plain hc hms, hperm⟩
      | some result =>
        obtain ⟨found, after⟩ := result
        obtain ⟨d, passed, -, hcs, htokens⟩ := hk _ _ _ _ hmatch
        obtain ⟨xs, ys, hxs, hys, hperm⟩ := htokens (.plain hc hrest)
        rw [hcs, ← List.cons_append] at hmatch ⊢
        obtain ⟨before', hscan⟩ := scanFrom_append_of_some (by simp) hmatch
        have hshorter : after.length < (c :: rest).length := by
          rw [hcs, List.length_cons, List.length_append]
          omega
        obtain ⟨ms, hms, hperm'⟩ := ih after.length hshorter before' hys rfl
        rw [hscan]
        exact ⟨xs ++ ms, .found hxs hms, (hperm'.append_left xs).trans hperm⟩
    | @token rest ns n hrest =>
      obtain ⟨before', hscan⟩ :=
        scanFrom_append_of_none (fun c hc => hk.not_in_token (n := n) hc) before rest
      obtain ⟨ms, hms, hperm⟩ := ih rest.length (by simp [Markdown.token]; omega) before' hrest rfl
      rw [hscan]
      exact ⟨n :: ms, .token n hms, hperm.cons n⟩

theorem ScanCarries.write (h : ScanCarries render s ns) : Carries (s.write render) ns := by
  induction h with
  | nil => exact .nil
  | plain hc _ ih => exact .plain hc ih
  | token n _ ih =>
    rw [Scanned.write_append, Scanned.write_plain]
    exact .token n ih
  | found hx _ ih => exact hx.append ih

/-- Replacing all matches of a pattern keeps all tokens, perhaps in another order. -/
theorem Keeps.replaceAll {pattern : Pattern (List Char)} (hk : Keeps pattern id)
    (h : Carries cs ns) : ∃ ms, Carries (Text.replaceAll pattern cs) ms ∧ ms.Perm ns := by
  obtain ⟨ms, hms, hperm⟩ := hk.scan none h
  exact ⟨ms, hms.write, hperm⟩

theorem split_plain (plain : List Char) (h : Scanned.split s = part :: parts) :
    Scanned.split (plain.map .inl ++ s) = (plain ++ part) :: parts := by
  induction plain with
  | nil => simpa using h
  | cons c plain ih => simp [Scanned.split, ih, consFirst]

/-- The texts between matches share the tokens out among them, where matches have none. -/
theorem ScanCarries.split (h : ScanCarries (fun _ : α => []) s ns) :
    ∃ part parts ms mss, Scanned.split s = part :: parts ∧ Carries part ms ∧
      List.Forall₂ Carries parts mss ∧ ns = ms ++ mss.flatten := by
  induction h with
  | nil => exact ⟨[], [], [], [], rfl, .nil, .nil, rfl⟩
  | @plain c s ns hc _ ih =>
    obtain ⟨part, parts, ms, mss, hsplit, hpart, hparts, hns⟩ := ih
    exact ⟨c :: part, parts, ms, mss, by simp [Scanned.split, hsplit, consFirst], .plain hc hpart,
      hparts, hns⟩
  | token n _ ih =>
    obtain ⟨part, parts, ms, mss, hsplit, hpart, hparts, rfl⟩ := ih
    exact ⟨_, parts, n :: ms, mss, split_plain (Markdown.token n) hsplit,
      .token n hpart, hparts, rfl⟩
  | found hx _ ih =>
    obtain ⟨part, parts, ms, mss, hsplit, hpart, hparts, rfl⟩ := ih
    exact ⟨[], part :: parts, [], ms :: mss, by simp [Scanned.split, hsplit], .nil,
      .cons hpart hparts, by simp [hx.eq_nil]⟩

-- ---------------------------------------------------------------------------
-- What a match may look like
-- ---------------------------------------------------------------------------

section
variable {cs after out a b a' b' : List Char}

theorem KeepsMatch.of_none (hcs : cs = c :: (m ++ after)) (hm : AllMarkup (c :: m))
    (hout : '\x00' ∉ out) : KeepsMatch cs after out := by
  refine ⟨c, m, (allMarkup_cons.mp hm).1, hcs, fun {ns} h => ?_⟩
  rw [hcs, ← List.cons_append] at h
  exact ⟨[], ns, .of_plain hout, h.drop_markup hm, .refl ns⟩

theorem KeepsMatch.of_one (hcs : cs = c :: (m ++ (a ++ (p ++ after)))) (hm : AllMarkup (c :: m))
    (hp : AllMarkup p) (hne : p ≠ []) (hout : ∀ {ns}, Carries a ns → Carries out ns) :
    KeepsMatch cs after out := by
  refine ⟨c, m ++ a ++ p, (allMarkup_cons.mp hm).1, by simp [hcs], fun {ns} h => ?_⟩
  rw [hcs, ← List.cons_append] at h
  have h := h.drop_markup hm
  rw [← List.append_assoc] at h
  obtain ⟨xs, ys, rfl, ha, hafter⟩ := h.cut hne hp
  exact ⟨xs, ys, hout ha, hafter, .refl _⟩

theorem KeepsMatch.of_two (hcs : cs = c :: (m ++ (a ++ (p ++ (b ++ (q ++ after))))))
    (hm : AllMarkup (c :: m)) (hp : AllMarkup p) (hne : p ≠ []) (hq : AllMarkup q)
    (hne' : q ≠ [])
    (hout : ∀ {xs ys}, Carries a xs → Carries b ys → Carries out (ys ++ xs)) :
    KeepsMatch cs after out := by
  refine ⟨c, m ++ a ++ p ++ b ++ q, (allMarkup_cons.mp hm).1, by simp [hcs], fun {ns} h => ?_⟩
  rw [hcs, ← List.cons_append] at h
  have h := h.drop_markup hm
  rw [← List.append_assoc] at h
  obtain ⟨xs, zs, rfl, ha, hrest⟩ := h.cut hne hp
  rw [← List.append_assoc] at hrest
  obtain ⟨ys, zs, rfl, hb, hafter⟩ := hrest.cut hne' hq
  refine ⟨ys ++ xs, zs, hout ha hb, hafter, ?_⟩
  rw [← List.append_assoc]
  exact List.perm_append_comm.append_right zs

end

-- ---------------------------------------------------------------------------
-- Tags
-- ---------------------------------------------------------------------------

theorem allMarkup_blanks (cs : List Char) : AllMarkup (cs.takeWhile isBlank) :=
  fun _ hc => isMarkup_of_isBlank (List.mem_takeWhile_imp hc)

theorem dropBlanks?_eq_some (h : dropBlanks? cs = some rest) :
    ∃ m, AllMarkup m ∧ cs = m ++ rest := by
  simp only [dropBlanks?, Option.ite_none_right_eq_some, Option.some.injEq] at h
  obtain ⟨-, rfl⟩ := h
  exact ⟨cs.takeWhile isBlank, allMarkup_blanks cs, List.takeWhile_append_dropWhile.symm⟩

theorem attribute?_eq_some (h : attribute? name cs = some (value, rest)) :
    cs = name.toList ++ ['=', '"'] ++ (value ++ '"' :: rest) := by
  simp only [attribute?, Option.bind_eq_bind, Option.bind_eq_some_iff, Option.some.injEq,
    Prod.mk.injEq] at h
  obtain ⟨quoted, hquoted, _, hquote, rfl, rfl⟩ := h
  have hquote := dropStart?_eq_some_iff.mp hquote
  rw [dropStart?_eq_some_iff.mp hquoted]
  congr 1
  conv_lhs => rw [← List.takeWhile_append_dropWhile (p := (· != '"')) (l := quoted), hquote]
  rfl

/-- A tag with an attribute: markup around the value. -/
theorem tagged?_eq_some (htag : AllMarkup tag.toList) (hname : AllMarkup name.toList)
    (h : tagged? tag name cs = some (value, rest)) :
    ∃ m, AllMarkup m ∧ cs = '<' :: (m ++ (value ++ (['"'] ++ rest))) := by
  simp only [tagged?, Option.bind_eq_bind, Option.bind_eq_some_iff, Prod.exists] at h
  obtain ⟨_, hstart, _, hblanks, _, _, hattribute, h⟩ := h
  split at h
  · simp at h
  · simp only [Option.some.injEq, Prod.mk.injEq] at h
    obtain ⟨rfl, rfl⟩ := h
    obtain ⟨m, hm, rfl⟩ := dropBlanks?_eq_some hblanks
    refine ⟨tag.toList ++ m ++ name.toList ++ ['=', '"'], ?_, ?_⟩
    · simp only [allMarkup_append, htag, hm, hname, true_and]
      decide
    · rw [dropStart?_eq_some_iff.mp hstart, attribute?_eq_some hattribute]
      simp

theorem emptyEnd?_eq_some (h : emptyEnd? cs = some rest) :
    ∃ m, AllMarkup m ∧ m ≠ [] ∧ cs = m ++ rest := by
  have h := dropStart?_eq_some_iff.mp h
  refine ⟨cs.takeWhile isBlank ++ ['/', '>'], ?_, by simp, ?_⟩
  · simp only [allMarkup_append, allMarkup_blanks, true_and]
    decide
  · rw [List.append_assoc, ← h, List.takeWhile_append_dropWhile]

/-- The rest of a start tag with the content and the end tag: markup around the content. -/
theorem content?_eq_some (htag : AllMarkup tag.toList)
    (h : content? tag cs = some (enclosed, rest)) :
    ∃ m m', AllMarkup m ∧ AllMarkup m' ∧ m' ≠ [] ∧ cs = m ++ (enclosed ++ (m' ++ rest)) := by
  simp only [content?, Option.bind_eq_bind, Option.bind_eq_some_iff] at h
  obtain ⟨_, hopen, hcut⟩ := h
  have hopen := dropStart?_eq_some_iff.mp hopen
  refine ⟨cs.takeWhile isBlank ++ ['>'], "</".toList ++ tag.toList ++ ['>'], ?_, ?_, by simp, ?_⟩
  · simp only [allMarkup_append, allMarkup_blanks, true_and]
    decide
  · simp only [allMarkup_append, htag]
    decide
  · rw [List.append_assoc, ← List.append_assoc enclosed, ← cutAt?_eq_some hcut, ← hopen,
      List.takeWhile_append_dropWhile]

-- ---------------------------------------------------------------------------
-- Patterns
-- ---------------------------------------------------------------------------

theorem Carries.withoutKind (h : Carries cs ns) : Carries (withoutKind cs) ns := by
  unfold Markdown.withoutKind
  split
  · split
    · rename_i kind c rest halpha
      have hkind : kind ≠ '\x00' := by rintro rfl; simp at halpha
      exact (h.tail hkind).tail (by decide)
    · exact h
  · exact h

theorem Carries.between (h : Carries a ns) (hstart : '\x00' ∉ start) (hstop : '\x00' ∉ stop) :
    Carries (start ++ a ++ stop) ns := by
  simpa using ((of_plain hstart).append h).append (of_plain hstop)

theorem Carries.inlineCode (h : Carries cs ns) : Carries (inlineCode cs) ns := by
  have h' : Carries (Markdown.inlineCode cs) (ns ++ []) :=
    (h.plain (by decide)).append (of_plain (by decide))
  rwa [List.append_nil] at h'

theorem Carries.link (ha : Carries a xs) (hb : Carries b ys) : Carries (link a b) (xs ++ ys) := by
  have hend : Carries ([']', '('] ++ b ++ [')']) ys := hb.between (by decide) (by decide)
  have hstart : Carries ['['] [] := of_plain (by decide)
  simpa [Markdown.link] using hstart.append (ha.append hend)

theorem paragraphMark_keeps : Keeps paragraphMark (fun _ => []) := by
  intro before cs found after h
  simp only [paragraphMark, Option.or_eq_some_iff, Option.bind_eq_bind, Option.bind_eq_some_iff,
    Option.map_eq_some_iff, Prod.mk.injEq, true_and, exists_eq_right, Option.some.injEq] at h
  rcases h with ⟨rest, hstart, hend⟩ | ⟨-, hstart | ⟨-, hstart⟩⟩
  · obtain ⟨m, hm, -, hend⟩ := emptyEnd?_eq_some hend
    refine .of_none (c := '<') (m := "para".toList ++ m) ?_ ?_ (by simp)
    · rw [dropStart?_eq_some_iff.mp hstart, hend]
      rfl
    · simp only [allMarkup_cons, allMarkup_append, hm, and_true]
      decide
  · exact .of_none (c := '<') (m := "/para>".toList) (dropStart?_eq_some_iff.mp hstart) (by decide)
      (by simp)
  · exact .of_none (c := '<') (m := "para>".toList) (dropStart?_eq_some_iff.mp hstart) (by decide)
      (by simp)

theorem KeepsMatch.of_empty (htag : AllMarkup tag.toList) (hname : AllMarkup name.toList)
    (hopen : tagged? tag name cs = some (value, rest)) (hend : emptyEnd? rest = some after)
    (hout : ∀ {ns}, Carries value ns → Carries out ns) : KeepsMatch cs after out := by
  obtain ⟨m, hm, hcs⟩ := tagged?_eq_some htag hname hopen
  obtain ⟨m', hm', -, hrest⟩ := emptyEnd?_eq_some hend
  refine .of_one (c := '<') (p := '"' :: m') ?_ (allMarkup_cons.mpr ⟨by decide, hm⟩)
    (allMarkup_cons.mpr ⟨by decide, hm'⟩) (by simp) hout
  rw [hcs, hrest]
  simp

theorem KeepsMatch.of_link (htag : AllMarkup tag.toList) (hname : AllMarkup name.toList)
    (hopen : tagged? tag name cs = some (value, rest))
    (hend : content? tag rest = some (enclosed, after))
    (htarget : ∀ {ns}, Carries value ns → Carries target ns) :
    KeepsMatch cs after (link enclosed target) := by
  obtain ⟨m, hm, hcs⟩ := tagged?_eq_some htag hname hopen
  obtain ⟨m', m'', hm', hm'', hne, hrest⟩ := content?_eq_some htag hend
  refine .of_two (c := '<') (p := '"' :: m') ?_ (allMarkup_cons.mpr ⟨by decide, hm⟩)
    (allMarkup_cons.mpr ⟨by decide, hm'⟩) (by simp) hm'' hne
    fun hvalue henclosed => henclosed.link (htarget hvalue)
  rw [hcs, hrest]
  simp

theorem textLink_keeps : Keeps textLink id := by
  intro before cs found after h
  simp only [textLink, Option.bind_eq_bind, Option.bind_eq_some_iff, Prod.exists, Option.some.injEq,
    Prod.mk.injEq] at h
  obtain ⟨_, _, hopen, _, _, hend, rfl, rfl⟩ := h
  refine .of_link (by decide) (by decide) hopen hend fun h => ?_
  have hstart : Carries "xref:".toList [] := .of_plain (by decide)
  exact hstart.append h.withoutKind

theorem bareLink_keeps : Keeps bareLink id := by
  intro before cs found after h
  simp only [bareLink, Option.bind_eq_bind, Option.bind_eq_some_iff, Prod.exists, Option.some.injEq,
    Prod.mk.injEq] at h
  obtain ⟨_, _, hopen, _, hend, rfl, rfl⟩ := h
  exact .of_empty (by decide) (by decide) hopen hend fun h =>
    h.withoutKind.between (by decide) (by decide)

theorem keyword_keeps : Keeps keyword id := by
  intro before cs found after h
  simp only [keyword, Option.bind_eq_bind, Option.bind_eq_some_iff, Prod.exists, Option.some.injEq,
    Prod.mk.injEq] at h
  obtain ⟨_, _, hopen, _, hend, rfl, rfl⟩ := h
  exact .of_empty (by decide) (by decide) hopen hend fun h => h.inlineCode

theorem webLink_keeps : Keeps webLink id := by
  intro before cs found after h
  simp only [webLink, Option.bind_eq_bind, Option.bind_eq_some_iff, Prod.exists, Option.some.injEq,
    Prod.mk.injEq] at h
  obtain ⟨_, _, hopen, _, _, hend, rfl, rfl⟩ := h
  exact .of_link (by decide) (by decide) hopen hend fun h => h

theorem parameterName_keeps : Keeps parameterName id := by
  intro before cs found after h
  simp only [parameterName, Option.bind_eq_bind, Option.bind_eq_some_iff, Prod.exists,
    Option.or_eq_some_iff, Option.some.injEq, Prod.mk.injEq] at h
  obtain ⟨_, _, hopen | ⟨-, hopen⟩, _, hend, rfl, rfl⟩ := h <;>
    exact .of_empty (by decide) (by decide) hopen hend fun h => h.inlineCode

theorem codeSpan_keeps : Keeps codeSpan id := by
  intro before cs found after h
  simp only [codeSpan, Option.bind_eq_bind, Option.bind_eq_some_iff, Prod.exists, Option.some.injEq,
    Prod.mk.injEq] at h
  obtain ⟨_, hopen, _, _, hcut, rfl, rfl⟩ := h
  refine .of_one (c := '<') (m := ['c', '>']) (p := "</c>".toList) ?_ (by decide) (by decide)
    (by decide) fun h => h.inlineCode
  rw [dropStart?_eq_some_iff.mp hopen, cutAt?_eq_some hcut]
  simp

theorem blankLines_keeps : Keeps blankLines id := by
  intro before cs found after h
  simp only [blankLines, Option.ite_none_left_eq_some, Option.some.injEq, Prod.mk.injEq] at h
  obtain ⟨hlen, rfl, rfl⟩ := h
  have hnewlines : AllMarkup (cs.takeWhile (· == '\n')) := by
    intro c hc
    have : c = '\n' := by simpa using List.mem_takeWhile_imp hc
    subst this
    decide
  have hcs : cs = cs.takeWhile (· == '\n') ++ cs.dropWhile (· == '\n') :=
    List.takeWhile_append_dropWhile.symm
  cases hrun : cs.takeWhile (· == '\n') with
  | nil => simp [hrun] at hlen
  | cons c m =>
    rw [hrun] at hcs hnewlines
    exact .of_none hcs hnewlines (by decide)

theorem inline_carries (h : Carries cs ns) : ∃ ms, Carries (inline cs) ms ∧ ms.Perm ns := by
  have hall : ∀ patterns : List (Pattern (List Char)), (∀ p ∈ patterns, Keeps p id) →
      ∀ {cs ns}, Carries cs ns →
        ∃ ms, Carries (patterns.foldl (fun text p => replaceAll p text) cs) ms ∧ ms.Perm ns := by
    intro patterns
    induction patterns with
    | nil => exact fun _ _ ns h => ⟨ns, h, .refl ns⟩
    | cons p patterns ih =>
      intro hkeeps cs ns h
      obtain ⟨ms, hms, hperm⟩ := (hkeeps p List.mem_cons_self).replaceAll h
      obtain ⟨ls, hls, hperm'⟩ := ih (fun q hq => hkeeps q (List.mem_cons_of_mem p hq)) hms
      exact ⟨ls, hls, hperm'.trans hperm⟩
  refine hall _ (fun p hp => ?_) h
  simp only [List.mem_cons, List.not_mem_nil, or_false] at hp
  rcases hp with rfl | rfl | rfl | rfl | rfl | rfl | rfl
  · exact textLink_keeps
  · exact bareLink_keeps
  · exact keyword_keeps
  · exact webLink_keeps
  · exact parameterName_keeps
  · exact codeSpan_keeps
  · exact blankLines_keeps

-- ---------------------------------------------------------------------------
-- From code blocks to fences
-- ---------------------------------------------------------------------------

theorem numbered_carries (scanned : Scanned CodeBlock) (n : Nat)
    (hplain : ∀ c, .inl c ∈ scanned → c ≠ '\x00') :
    Carries (numbered n scanned) (List.range' n scanned.found.length) := by
  induction scanned generalizing n with
  | nil => exact .nil
  | cons part rest ih =>
    have hrest : ∀ c, .inl c ∈ rest → c ≠ '\x00' := fun c hc => hplain c (List.mem_cons_of_mem _ hc)
    cases part with
    | inl c =>
      rw [numbered_inl, show Scanned.found (.inl c :: rest) = Scanned.found rest from rfl]
      exact .plain (hplain c List.mem_cons_self) (ih n hrest)
    | inr block =>
      have hstart : Carries "<para>".toList [] := .of_plain (by decide)
      have hend : Carries "</para>".toList [] := .of_plain (by decide)
      rw [numbered_inr]
      have h := ((hstart.append (.of_token n)).append hend).append (ih (n + 1) hrest)
      exact h

theorem joinWith_carries (hsep : '\x00' ∉ separator) (h : List.Forall₂ Carries parts nss) :
    Carries (joinWith separator parts) nss.flatten := by
  induction h with
  | nil => exact .nil
  | @cons part ns parts nss hpart hparts ih =>
    cases hparts with
    | nil => simpa [joinWith] using hpart
    | cons => simpa [joinWith] using (hpart.append (.of_plain hsep)).append ih

theorem blocks_carry (h : List.Forall₂ Carries parts nss) :
    ∃ mss, List.Forall₂ Carries ((parts.map collapse).filter (!·.isEmpty)) mss ∧
      mss.flatten = nss.flatten := by
  induction h with
  | nil => exact ⟨[], .nil, rfl⟩
  | @cons part ns parts nss hpart _ ih =>
    obtain ⟨mss, hmss, hflat⟩ := ih
    have hline := hpart.collapse
    rw [List.map_cons, List.filter_cons]
    split
    · exact ⟨ns :: mss, .cons hline hmss, by simp [hflat]⟩
    · rename_i hempty
      have hempty : collapse part = [] := by simpa using hempty
      rw [hempty] at hline
      exact ⟨mss, hmss, by simp [hline.eq_nil, hflat]⟩

theorem paragraphs_carry (h : Carries cs ns) : ∃ ms, Carries (paragraphs cs) ms ∧ ms.Perm ns := by
  obtain ⟨ms, hms, hperm⟩ := paragraphMark_keeps.scan none h
  obtain ⟨part, parts, ls, lss, hsplit, hpart, hparts, rfl⟩ := hms.split
  obtain ⟨mss, hmss, hflat⟩ := blocks_carry (.cons hpart hparts)
  refine ⟨mss.flatten, ?_, by rw [hflat]; exact hperm⟩
  rw [paragraphs, scan, hsplit]
  exact joinWith_carries (by decide) hmss

theorem takeWhile_isDigit_token (n : Nat) (cs : List Char) :
    ((Nat.repr n).toList ++ '\x00' :: cs).takeWhile isDigit = (Nat.repr n).toList ∧
      ((Nat.repr n).toList ++ '\x00' :: cs).dropWhile isDigit = '\x00' :: cs := by
  have hdigits : ∀ c ∈ (Nat.repr n).toList, isDigit c = true := fun c hc => by
    rw [isDigit, digitValue?_of_isDigit (isDigit_of_mem_repr hc)]
    rfl
  have hnull : isDigit '\x00' = false := by decide
  rw [List.takeWhile_append_of_pos hdigits, List.dropWhile_append_of_pos hdigits]
  simp [hnull]

theorem tokenMark_token (n : Nat) (before : Option Char) (cs : List Char) :
    tokenMark before (token n ++ cs) = some (n, cs) := by
  obtain ⟨htake, hdrop⟩ := takeWhile_isDigit_token n cs
  have hsplit : token n ++ cs = '\x00' :: ((Nat.repr n).toList ++ '\x00' :: cs) := by simp [token]
  have hne : ((Nat.repr n).toList).isEmpty = false := by
    simp [List.isEmpty_eq_false_iff]
  rw [hsplit]
  simp only [tokenMark, dropStart?, if_true, Option.bind_eq_bind, Option.bind_some,
    hdrop, htake, hne,
    decimal_repr]
  rfl

/-- The tokens that a text carries are those that are found in it, and there are no other null
characters. -/
theorem scan_tokenMark (before : Option Char) (h : Carries cs ns) :
    Scanned.found (scanFrom tokenMark 0 before cs) = ns ∧
    .inl '\x00' ∉ scanFrom tokenMark 0 before cs := by
  induction h generalizing before with
  | nil => exact ⟨rfl, List.not_mem_nil⟩
  | @plain c cs ns hc _ ih =>
    have hnone : tokenMark before (c :: cs) = none := by
      simp [tokenMark, dropStart?, Ne.symm hc]
    rw [scanFrom_cons_of_none hnone]
    obtain ⟨hfound, hplain⟩ := ih (some c)
    exact ⟨hfound, by simp [Ne.symm hc, hplain]⟩
  | @token cs ns n _ ih =>
    obtain ⟨before', hscan⟩ :=
      scanFrom_append_of_some (by simp [Markdown.token]) (tokenMark_token n before cs)
    obtain ⟨hfound, hplain⟩ := ih before'
    rw [hscan]
    exact ⟨congrArg (n :: ·) hfound, by simp [hplain]⟩

/-- Where each number has a fence, each token gives way to its own. -/
theorem restore?_eq_some {scanned : Scanned Nat} (h : ∀ n ∈ scanned.found, n < fences.length) :
    restore? fences scanned = some (scanned.write fun n => fences.getD n []) := by
  induction scanned with
  | nil => rfl
  | cons part rest ih =>
    cases part with
    | inl c => simp [restore?, ih h, Scanned.write]
    | inr n =>
      simp only [Scanned.found, List.filterMap_cons, Sum.getRight?_inr, List.mem_cons] at h ih
      have hn : n < fences.length := h n (.inl rfl)
      have hrest := ih fun m hm => h m (.inr hm)
      simp [restore?, List.getElem?_eq_getElem hn, hrest, Scanned.write]

def fences (cs : List Char) : List (List Char) := (scan codeBlock cs).found.map CodeBlock.fence

def tokenized (cs : List Char) : List Char :=
  trim (inline (paragraphs (numbered 0 (scan codeBlock cs))))

theorem ofMarkup?_eq (cs : List Char) :
    ofMarkup? cs = restore? (fences cs) (scan tokenMark (tokenized cs)) := rfl

/-- When markup has given way to markdown, the text carries one token for each code block. -/
theorem tokens_restored (h : '\x00' ∉ cs) :
    (scan tokenMark (tokenized cs)).found.Perm (List.range (fences cs).length) ∧
      .inl '\x00' ∉ scan tokenMark (tokenized cs) := by
  have hnumbered := numbered_carries (scan codeBlock cs) 0 fun c hc => by
    rintro rfl
    exact h (mem_of_inl_mem_scan hc)
  obtain ⟨ms, hms, hperm⟩ := paragraphs_carry hnumbered
  obtain ⟨ls, hls, hperm'⟩ := inline_carries hms
  obtain ⟨hfound, hplain⟩ := scan_tokenMark none hls.trim
  rw [List.range_eq_range', fences, List.length_map]
  exact ⟨(List.Perm.of_eq hfound).trans (hperm'.trans hperm), hplain⟩

theorem ofMarkup?_eq_some (h : '\x00' ∉ cs) :
    ofMarkup? cs = some ((scan tokenMark (tokenized cs)).write fun n => (fences cs).getD n []) := by
  rw [ofMarkup?_eq]
  refine restore?_eq_some fun n hn => ?_
  have hmem := (tokens_restored h).1.mem_iff.mp hn
  simpa using hmem

end DocMerge.Markdown

namespace DocMerge

theorem markdown?_isSome (h : '\x00' ∉ text.toList) : (markdown? text).isSome = true := by
  rw [markdown?, Markdown.ofMarkup?_eq_some h]
  rfl

end DocMerge

import DocMerge.Proofs.Namespaces
import DocMerge.Xml.Adopt

/-!
# Nodes that move twice

A node that comes into a tree gives up what its surroundings declare already. One that has given up
what is declared twice in itself first, and then comes into the tree, is the same in the end, as
long as no declaration in it gives a prefix another namespace than the prefix has around it: names
are renamed by their prefixes alone.
-/

namespace DocMerge.Xml

-- ---------------------------------------------------------------------------
-- Prefixes that keep their namespaces
-- ---------------------------------------------------------------------------

mutual
def Node.keepsPrefixes (scope : Scope) : Node → Bool
  | .element tag children =>
    scope.agrees tag.declarations && Node.allKeepPrefixes (tag.declarations ++ scope) children
  | _ => true

def Node.allKeepPrefixes (scope : Scope) : List Node → Bool
  | [] => true
  | n :: rest => n.keepsPrefixes scope && Node.allKeepPrefixes scope rest
end

-- ---------------------------------------------------------------------------
-- Renamings
-- ---------------------------------------------------------------------------

def Renaming.target (r : Renaming) (p : String) : String := (r.lookup p).getD p

theorem Renaming.apply_eq (r : Renaming) (n : Name) :
    r.apply n =
    { n with written := { n.written with nsPrefix := r.target n.written.nsPrefix } } := by
  unfold apply target
  cases r.lookup n.written.nsPrefix <;> rfl

def targetIn (scope : Scope) (d : Declaration) : String := (replacement? scope d).getD d.nsPrefix

def keptIn (scope : Scope) (declarations : List Declaration) : List Declaration :=
  declarations.filter fun d => (replacement? scope d).isNone

theorem lookup_renamingOf (scope : Scope) (declarations : List Declaration) (p : String) :
    (renamingOf scope declarations).lookup p =
      (Scope.declared? declarations p).map fun uri => targetIn scope ⟨p, uri⟩ := by
  induction declarations with
  | nil => rfl
  | cons d rest ih =>
    rw [renamingOf, List.map_cons, List.lookup_cons, Scope.declared?]
    by_cases hp : p = d.nsPrefix
    · subst hp
      simp [targetIn]
    · have hne : (p == d.nsPrefix) = false := by simpa using hp
      rw [List.find?_cons_of_neg (by simpa using Ne.symm hp), hne]
      exact ih

theorem lookup_renamingOf_append (scope : Scope) (declarations : List Declaration)
    (r : Renaming) (p : String) :
    (renamingOf scope declarations ++ r).lookup p =
      ((Scope.declared? declarations p).map fun uri => targetIn scope ⟨p, uri⟩).or
        (r.lookup p) := by
  rw [List.lookup_append, lookup_renamingOf]

theorem replacement?_eq_some_iff {scope : Scope} {d : Declaration} :
    replacement? scope d = some p ↔ scope.prefixOf? d.uri = some p ∧
    (p ≠ "" ∨ d.nsPrefix = "") := by
  simp [replacement?, Option.filter_eq_some_iff]

theorem replacement?_eq_none_iff {scope : Scope} {d : Declaration} :
    replacement? scope d = none ↔ ∀ p, scope.prefixOf? d.uri = some p →
    p = "" ∧ d.nsPrefix ≠ "" := by
  simp [replacement?, Option.filter_eq_none_iff]

theorem targetIn_of_kept {scope : Scope} (h : replacement? scope d = none) :
    targetIn scope d = d.nsPrefix := by
  rw [targetIn, h, Option.getD_none]

theorem targetIn_of_replaced {scope : Scope} (h : replacement? scope d = some p) :
    targetIn scope d = p := by
  rw [targetIn, h, Option.getD_some]

/-- Of a scope, only the prefix that it chooses for the namespace counts. -/
theorem targetIn_congr {scope other : Scope}
    (h : scope.prefixOf? uri = other.prefixOf? uri) (p : String) :
    targetIn scope ⟨p, uri⟩ = targetIn other ⟨p, uri⟩ := by
  rw [targetIn, targetIn, replacement?, replacement?, h]

theorem targetIn_beside_default {scope : Scope} (h : ∀ p, scope.prefixOf? d.uri = some p → p = "")
    (hne : d.nsPrefix ≠ "") : targetIn scope d = d.nsPrefix :=
  targetIn_of_kept (replacement?_eq_none_iff.mpr fun p hp => ⟨h p hp, hne⟩)

theorem keptIn_sublist (scope : Scope) (declarations : List Declaration) :
    (keptIn scope declarations).Sublist declarations := List.filter_sublist

theorem mem_keptIn {scope : Scope} {declarations : List Declaration} :
    d ∈ keptIn scope declarations ↔ d ∈ declarations ∧ replacement? scope d = none := by
  simp [keptIn]

theorem Renaming.target_append (scope : Scope) (declarations : List Declaration)
    (r : Renaming) (p : String) :
    Renaming.target (renamingOf scope declarations ++ r) p =
      ((Scope.declared? declarations p).map fun uri => targetIn scope ⟨p, uri⟩).getD
        (r.target p) := by
  rw [target, lookup_renamingOf_append]
  cases Scope.declared? declarations p <;> rfl

theorem Renaming.target_of_declared (scope : Scope) {declarations : List Declaration} (r : Renaming)
    (h : Scope.declared? declarations p = some uri) :
    Renaming.target (renamingOf scope declarations ++ r) p = targetIn scope ⟨p, uri⟩ := by
  rw [target_append, h, Option.map_some, Option.getD_some]

theorem Renaming.target_of_undeclared (scope : Scope)
    {declarations : List Declaration} (r : Renaming)
    (h : Scope.declared? declarations p = none) :
    Renaming.target (renamingOf scope declarations ++ r) p = r.target p := by
  rw [target_append, h, Option.map_none, Option.getD_none]

section
variable {declarations : List Declaration}

theorem find?_keptIn_none (scope : Scope) (h : declarations.find? (·.uri == uri) = none) :
    (keptIn scope declarations).find? (·.uri == uri) = none := by
  rw [List.find?_eq_none] at h ⊢
  exact fun d hd => h d (List.mem_of_mem_filter hd)

theorem find?_keptIn_of_kept {scope : Scope} (h : declarations.find? (·.uri == uri) = some d)
    (hstays : replacement? scope d = none) :
    (keptIn scope declarations).find? (·.uri == uri) = some d := by
  obtain ⟨huri, before, behind, rfl, hbefore⟩ := List.find?_eq_some_iff_append.mp h
  refine List.find?_eq_some_iff_append.mpr ⟨huri, keptIn scope before, keptIn scope behind, ?_, ?_⟩
  · simp [keptIn, hstays]
  · exact fun other hother => hbefore other (List.mem_of_mem_filter hother)

theorem find?_keptIn_of_chosen {scope : Scope} (h : scope.prefixOf? uri = some p) (hp : p ≠ "") :
    (keptIn scope declarations).find? (·.uri == uri) = none := by
  rw [List.find?_eq_none]
  intro d hd huri
  obtain rfl : d.uri = uri := by simpa using huri
  exact hp (replacement?_eq_none_iff.mp (mem_keptIn.mp hd).2 p h).1

end

theorem AreOwn.keptIn (h : AreOwn declarations) (scope : Scope) :
    AreOwn (keptIn scope declarations) where
  distinct := h.distinct.sublist ((keptIn_sublist scope declarations).map _)
  standing d hd := h.standing d (List.mem_of_mem_filter hd)
  empty d hd := h.empty d (List.mem_of_mem_filter hd)

theorem AreOwn.declared?_keptIn (h : AreOwn declarations)
    (hdeclared : Scope.declared? declarations p = some uri)
    (hstays : replacement? scope ⟨p, uri⟩ = none) :
    Scope.declared? (DocMerge.Xml.keptIn scope declarations) p = some uri :=
  Scope.declared?_of_mem (h.keptIn scope).distinct
    (mem_keptIn.mpr ⟨Scope.mem_of_declared? hdeclared, hstays⟩)

theorem Tag.adopt_declarations (scope : Scope) (r : Renaming) (t : Tag) :
    (t.adopt scope r).declarations = keptIn scope t.declarations := rfl

-- ---------------------------------------------------------------------------
-- Two moves
-- ---------------------------------------------------------------------------

/-- How things stand inside a node on its way: the declarations of the text around, those that are
left of them after the first move, and those in force in the end, with the renamings of the first
move, of the second and of one move for both. -/
structure Follows (around first last : Scope) (before after both : Renaming) : Prop where
  first_declared : ∀ p uri, first.declared? p = some uri → around.declared? p = some uri
  last_declared : ∀ p uri, last.declared? p = some uri → around.declared? p = some uri
  standing : first.declared? "xml" = none
  /-- The prefix that a namespace has after the first move is renamed to the one that it has in the
  end. -/
  found : ∀ uri p, first.prefixOf? uri = some p →
    last.prefixOf? uri = some (after.target p) ∧ (p ≠ "" → after.target p ≠ "")
  default : ∀ uri, last.prefixOf? uri = some "" → uri = "" ∨ ∃ p, first.prefixOf? uri = some p
  /-- Where a namespace is the default, its other prefixes can be declared once more. -/
  again : ∀ uri p, first.prefixOf? uri = some "" → first.declared? p = some uri → p ≠ "" →
    after.target p = targetIn last ⟨p, uri⟩
  composed : ∀ p, after.target (before.target p) = both.target p
  renamed : ∀ p new, before.lookup p = some new → (∃ uri, first.declared? new = some uri) ∧
    (p ≠ "" → new ≠ "")

theorem Follows.start {inside : Scope} (hdefault : inside.resolve? "" = some "") :
    Follows inside [] inside [] [] [] where
  first_declared p uri h := by simp [Scope.declared?] at h
  last_declared _ _ h := h
  standing := rfl
  found uri p h := by simp [Scope.prefixOf?] at h
  default uri h := by
    have hresolve := (Scope.resolve?_of_prefixOf? h).2
    rw [hdefault] at hresolve
    exact .inl (Option.some.inj hresolve).symm
  again uri p h := by simp [Scope.prefixOf?] at h
  composed _ := rfl
  renamed p new h := by simp at h

section
variable {around first last : Scope} {before after both : Renaming}
  (h : Follows around first last before after both)
  {declarations : List Declaration} (hown : AreOwn declarations)
  (hagree : ∀ d ∈ declarations, ∀ uri, around.declared? d.nsPrefix = some uri → uri = d.uri)
include h

theorem Follows.standing_of_declared (hp : first.declared? p = some uri) : p ≠ "xml" := by
  rintro rfl
  rw [h.standing] at hp
  cases hp

theorem Follows.declared_of_prefixOf (hp : first.prefixOf? uri = some p) :
    first.declared? p = some uri := by
  refine Scope.declared?_of_prefixOf? hp fun hxml => ?_
  obtain ⟨known, hknown⟩ := Option.isSome_iff_exists.mp
    (Scope.declared?_isSome_iff.mpr (Scope.resolve?_of_prefixOf? hp).1)
  exact h.standing_of_declared hknown hxml

/-- What the second move keeps, the first one has kept. -/
theorem Follows.keptIn_keptIn :
    keptIn last (keptIn first declarations) = keptIn last declarations := by
  rw [keptIn, keptIn, List.filter_filter, keptIn]
  refine List.filter_congr fun d _ => ?_
  cases hfirst : replacement? first d with
  | none => simp
  | some p =>
    obtain ⟨hchosen, hdefault⟩ := replacement?_eq_some_iff.mp hfirst
    obtain ⟨hlast, hne⟩ := h.found _ p hchosen
    have hsome : replacement? last d = some (after.target p) :=
      replacement?_eq_some_iff.mpr ⟨hlast, hdefault.imp_left hne⟩
    simp [hsome]

include hown hagree

theorem Follows.first_prefixOf (uri : String) :
    Scope.prefixOf? (keptIn first declarations ++ first) uri =
    (((keptIn first declarations).find? (·.uri == uri)).map (·.nsPrefix)).or
      (first.prefixOf? uri) :=
  Scope.prefixOf?_append (hown.keptIn first)
    (fun d hd uri hdeclared =>
      hagree d (List.mem_of_mem_filter hd) uri (h.first_declared _ _ hdeclared)) uri

theorem Follows.last_prefixOf (uri : String) :
    Scope.prefixOf? (keptIn last declarations ++ last) uri =
    (((keptIn last declarations).find? (·.uri == uri)).map (·.nsPrefix)).or (last.prefixOf? uri) :=
  Scope.prefixOf?_append (hown.keptIn last)
    (fun d hd uri hdeclared =>
      hagree d (List.mem_of_mem_filter hd) uri (h.last_declared _ _ hdeclared)) uri

omit h hown in
theorem declared_inside {kept scope : Scope} (hkept : kept.Sublist declarations)
    (hdistinct : (declarations.map (·.nsPrefix)).Nodup)
    (hscope : ∀ p uri, scope.declared? p = some uri → around.declared? p = some uri)
    (hp : Scope.declared? (kept ++ scope) p = some uri) :
    Scope.declared? (declarations ++ around) p = some uri := by
  rw [Scope.declared?_append, Option.or_eq_some_iff] at hp
  rw [Scope.declared?_append]
  rcases hp with hp | ⟨-, hp⟩
  · have hmem := hkept.subset (Scope.mem_of_declared? hp)
    rw [show Scope.declared? declarations p = some uri
      from Scope.declared?_of_mem hdistinct hmem, Option.some_or]
  · cases hown : Scope.declared? declarations p with
    | none => rw [Option.none_or, hscope p uri hp]
    | some own => rw [Option.some_or, hagree _ (Scope.mem_of_declared? hown) uri (hscope p uri hp)]

omit hown in
theorem Follows.kept_again (hp : first.declared? p = some known)
    (hkept : Scope.declared? (keptIn first declarations) p = some uri) :
    known = uri ∧ first.prefixOf? uri = some "" ∧ p ≠ "" := by
  obtain ⟨hmem, hstays⟩ := mem_keptIn.mp (Scope.mem_of_declared? hkept)
  obtain rfl : known = uri := hagree _ hmem known (h.first_declared _ _ hp)
  obtain ⟨other, hother⟩ := Scope.prefixOf?_of_declared? hp (h.standing_of_declared hp)
  obtain ⟨rfl, hne⟩ := replacement?_eq_none_iff.mp hstays other hother
  exact ⟨rfl, hother, hne⟩

omit hown hagree in
theorem Follows.kept_default (hd : ⟨"", uri⟩ ∈ keptIn first declarations)
    (hlast : last.prefixOf? uri = some "") :
    uri = "" := by
  refine (h.default uri hlast).resolve_right fun ⟨p, hp⟩ => ?_
  exact (replacement?_eq_none_iff.mp (mem_keptIn.mp hd).2 p hp).2 rfl

omit hown in
theorem Follows.target_again (hp : first.declared? p = some uri) :
    Renaming.target (renamingOf last (keptIn first declarations) ++ after) p = after.target p := by
  cases hkept : Scope.declared? (keptIn first declarations) p with
  | none => exact Renaming.target_of_undeclared last after hkept
  | some own =>
    obtain ⟨rfl, hdefault, hne⟩ := h.kept_again hagree hp hkept
    rw [Renaming.target_of_declared last after hkept, h.again uri p hdefault hp hne]

theorem Follows.step_found
    (hp : Scope.prefixOf? (keptIn first declarations ++ first) uri = some p) :
    Scope.prefixOf? (keptIn last declarations ++ last) uri =
        some (Renaming.target (renamingOf last (keptIn first declarations) ++ after) p) ∧
      (p ≠ "" → Renaming.target (renamingOf last (keptIn first declarations) ++ after) p ≠ "") := by
  rw [h.first_prefixOf hown hagree] at hp
  rw [h.last_prefixOf hown hagree, ← h.keptIn_keptIn]
  cases hfind : (keptIn first declarations).find? (·.uri == uri) with
  | none =>
    rw [hfind, Option.map_none, Option.none_or] at hp
    rw [find?_keptIn_none last hfind, Option.map_none, Option.none_or,
      h.target_again hagree (h.declared_of_prefixOf hp)]
    exact h.found uri p hp
  | some d =>
    rw [hfind, Option.map_some, Option.some_or, Option.some.injEq] at hp
    subst hp
    have hmem := List.mem_of_find?_eq_some hfind
    obtain rfl : d.uri = uri := by simpa using List.find?_some hfind
    rw [Renaming.target_of_declared last after
      (Scope.declared?_of_mem (hown.keptIn first).distinct hmem)]
    cases hnew : replacement? last d with
    | none =>
      rw [targetIn_of_kept hnew, find?_keptIn_of_kept hfind hnew, Option.map_some, Option.some_or]
      exact ⟨rfl, id⟩
    | some new =>
      obtain ⟨hlast, hne⟩ := replacement?_eq_some_iff.mp hnew
      have hnone : (keptIn last (keptIn first declarations)).find? (·.uri == d.uri) = none := by
        by_cases hdefault : new = ""
        · -- The default is renamed to the default only where it is no namespace, and then nothing
          -- else declares that.
          subst hdefault
          have hchosen := hne.resolve_left (by simp)
          have hempty : d.uri = "" := h.kept_default (by rw [← hchosen]; exact hmem) hlast
          rw [List.find?_eq_none]
          intro other hother huri
          have hkept := mem_keptIn.mp hother
          have hother : other.uri = d.uri := by simpa using huri
          refine (replacement?_eq_none_iff.mp hkept.2 "" (by rw [hother, hlast])).2 ?_
          exact (hown.keptIn first).empty other hkept.1 (hother.trans hempty)
        · exact find?_keptIn_of_chosen hlast hdefault
      rw [targetIn_of_replaced hnew, hnone, Option.map_none, Option.none_or, hlast]
      exact ⟨rfl, fun hp => hne.resolve_right hp⟩

/-- A declaration of the default that the first move keeps goes on to whatever the second one makes
of it, and the other prefixes of its namespace with it. -/
theorem Follows.again_of_kept (hfind : (keptIn first declarations).find? (·.uri == d.uri) = some d)
    (hdefault : d.nsPrefix = "")
    (hp : Scope.declared? (keptIn first declarations) p = some d.uri) (hne : p ≠ "") :
    targetIn last ⟨p, d.uri⟩ = targetIn (keptIn last declarations ++ last) ⟨p, d.uri⟩ := by
  have hmem : ⟨"", d.uri⟩ ∈ keptIn first declarations := by
    rw [← hdefault]
    exact List.mem_of_find?_eq_some hfind
  have hlast := h.last_prefixOf hown hagree d.uri
  rw [← h.keptIn_keptIn] at hlast ⊢
  cases hold : last.prefixOf? d.uri with
  | none =>
    -- The default is declared, and the other prefix beside it.
    have hstays : replacement? last d = none :=
      replacement?_eq_none_iff.mpr fun p hp => by simp [hold] at hp
    rw [find?_keptIn_of_kept hfind hstays, Option.map_some, Option.some_or, hdefault] at hlast
    rw [targetIn_beside_default (by simp [hold]) hne, targetIn_beside_default (by simp [hlast]) hne]
  | some old =>
    have hold_ne : old ≠ "" := by
      rintro rfl
      exact hne ((hown.keptIn first).empty _ (Scope.mem_of_declared? hp) (h.kept_default hmem hold))
    rw [find?_keptIn_of_chosen hold hold_ne, Option.map_none, Option.none_or] at hlast
    exact (targetIn_congr hlast p).symm

theorem Follows.step_again
    (hchosen : Scope.prefixOf? (keptIn first declarations ++ first) uri = some "")
    (hp : Scope.declared? (keptIn first declarations ++ first) p = some uri) (hne : p ≠ "") :
    Renaming.target (renamingOf last (keptIn first declarations) ++ after) p =
      targetIn (keptIn last declarations ++ last) ⟨p, uri⟩ := by
  rw [h.first_prefixOf hown hagree] at hchosen
  rw [Scope.declared?_append, Option.or_eq_some_iff] at hp
  cases hfind : (keptIn first declarations).find? (·.uri == uri) with
  | none =>
    rw [hfind, Option.map_none, Option.none_or] at hchosen
    have hlast := h.last_prefixOf hown hagree uri
    rw [← h.keptIn_keptIn, find?_keptIn_none last hfind, Option.map_none, Option.none_or,
      h.keptIn_keptIn] at hlast
    rcases hp with hp | ⟨-, hp⟩
    · exact absurd (beq_self_eq_true uri)
        (List.find?_eq_none.mp hfind _ (Scope.mem_of_declared? hp))
    · rw [h.target_again hagree hp, h.again uri p hchosen hp hne]
      exact (targetIn_congr hlast p).symm
  | some d =>
    obtain rfl : d.uri = uri := by simpa using List.find?_some hfind
    rw [hfind, Option.map_some, Option.some_or, Option.some.injEq] at hchosen
    rcases hp with hp | ⟨-, hp⟩
    · rw [Renaming.target_of_declared last after hp]
      exact h.again_of_kept hown hagree hfind hchosen hp hne
    · -- The first move keeps the default only where nothing else names the namespace.
      obtain ⟨other, hother⟩ := Scope.prefixOf?_of_declared? hp (h.standing_of_declared hp)
      have hstays := (mem_keptIn.mp (List.mem_of_find?_eq_some hfind)).2
      exact absurd hchosen (replacement?_eq_none_iff.mp hstays other hother).2

theorem Follows.step_composed (p : String) :
    Renaming.target (renamingOf last (keptIn first declarations) ++ after)
        (Renaming.target (renamingOf first declarations ++ before) p) =
      Renaming.target (renamingOf last declarations ++ both) p := by
  cases hdeclared : Scope.declared? declarations p with
  | some uri =>
    rw [Renaming.target_of_declared first before hdeclared,
      Renaming.target_of_declared last both hdeclared]
    cases hfirst : replacement? first ⟨p, uri⟩ with
    | none =>
      have hkept := hown.declared?_keptIn hdeclared hfirst
      rw [targetIn_of_kept hfirst, Renaming.target_of_declared last after hkept]
    | some new =>
      obtain ⟨hchosen, hne⟩ := replacement?_eq_some_iff.mp hfirst
      obtain ⟨hlast, hkeeps⟩ := h.found uri new hchosen
      have hboth : replacement? last ⟨p, uri⟩ = some (after.target new) :=
        replacement?_eq_some_iff.mpr ⟨hlast, hne.imp_left hkeeps⟩
      rw [targetIn_of_replaced hfirst, targetIn_of_replaced hboth,
        h.target_again hagree (h.declared_of_prefixOf hchosen)]
  | none =>
    rw [Renaming.target_of_undeclared first before hdeclared,
      Renaming.target_of_undeclared last both hdeclared,
      ← h.composed p]
    cases hbefore : before.lookup p with
    | none =>
      have hsame : before.target p = p := by rw [Renaming.target, hbefore, Option.getD_none]
      have hnone : Scope.declared? (keptIn first declarations) p = none := by
        by_contra hsome
        obtain ⟨uri, huri⟩ := Option.ne_none_iff_exists'.mp hsome
        have hmem := (mem_keptIn.mp (Scope.mem_of_declared? huri)).1
        rw [show Scope.declared? declarations p = some uri
          from Scope.declared?_of_mem hown.distinct hmem] at hdeclared
        cases hdeclared
      rw [hsame, Renaming.target_of_undeclared last after hnone]
    | some new =>
      have hsame : before.target p = new := by rw [Renaming.target, hbefore, Option.getD_some]
      obtain ⟨⟨uri, huri⟩, -⟩ := h.renamed p new hbefore
      rw [hsame, h.target_again hagree huri]

/-- Inside an element, both moves go on in the same way. -/
theorem Follows.step : Follows (declarations ++ around) (keptIn first declarations ++ first)
    (keptIn last declarations ++ last) (renamingOf first declarations ++ before)
    (renamingOf last (keptIn first declarations) ++ after)
      (renamingOf last declarations ++ both) where
  first_declared _ _ hp :=
  declared_inside hagree (keptIn_sublist first declarations) hown.distinct h.first_declared hp
  last_declared _ _ hp :=
  declared_inside hagree (keptIn_sublist last declarations) hown.distinct h.last_declared hp
  standing := by
    rw [Scope.declared?_append, h.standing, Option.or_none]
    by_contra hsome
    obtain ⟨uri, huri⟩ := Option.ne_none_iff_exists'.mp hsome
    exact (hown.keptIn first).standing _ (Scope.mem_of_declared? huri) rfl
  found _ _ hp := h.step_found hown hagree hp
  default uri hlast := by
    rw [h.last_prefixOf hown hagree, ← h.keptIn_keptIn] at hlast
    rw [h.first_prefixOf hown hagree]
    cases hfind : (keptIn first declarations).find? (·.uri == uri) with
    | some d => exact .inr ⟨d.nsPrefix, by rw [Option.map_some, Option.some_or]⟩
    | none =>
      rw [find?_keptIn_none last hfind, Option.map_none, Option.none_or] at hlast
      rw [Option.map_none, Option.none_or]
      exact h.default uri hlast
  again _ _ hchosen hp hne := h.step_again hown hagree hchosen hp hne
  composed p := h.step_composed hown hagree p
  renamed p new hnew := by
    rw [lookup_renamingOf_append] at hnew
    rw [Scope.declared?_append]
    cases hdeclared : Scope.declared? declarations p with
    | none =>
      rw [hdeclared, Option.map_none, Option.none_or] at hnew
      obtain ⟨⟨uri, huri⟩, hne⟩ := h.renamed p new hnew
      refine ⟨?_, hne⟩
      rw [huri]
      cases Scope.declared? (keptIn first declarations) new <;> simp
    | some uri =>
      rw [hdeclared, Option.map_some, Option.some_or, Option.some.injEq] at hnew
      subst hnew
      cases hfirst : replacement? first ⟨p, uri⟩ with
      | none =>
        rw [targetIn_of_kept hfirst, hown.declared?_keptIn hdeclared hfirst]
        exact ⟨⟨uri, Option.some_or⟩, id⟩
      | some new =>
        obtain ⟨hchosen, hne⟩ := replacement?_eq_some_iff.mp hfirst
        rw [targetIn_of_replaced hfirst, h.declared_of_prefixOf hchosen]
        refine ⟨?_, fun hp => hne.resolve_right hp⟩
        cases Scope.declared? (keptIn first declarations) new <;> simp

end

-- ---------------------------------------------------------------------------
-- Nodes
-- ---------------------------------------------------------------------------

theorem Follows.adopt_tag (h : Follows around first last before after both) {t : Tag}
    (hown : AreOwn t.declarations)
    (hagree : around.agrees t.declarations = true) :
    (t.adopt first (renamingOf first t.declarations ++ before)).adopt last
        (renamingOf last (keptIn first t.declarations) ++ after) =
      t.adopt last (renamingOf last t.declarations ++ both) := by
  have hinside := h.step hown (Scope.agrees_iff.mp hagree)
  have happly : ∀ n : Name, Renaming.apply (renamingOf last (keptIn first t.declarations) ++ after)
      (Renaming.apply (renamingOf first t.declarations ++ before) n) =
        Renaming.apply (renamingOf last t.declarations ++ both) n := by
    intro n
    rw [Renaming.apply_eq, Renaming.apply_eq, Renaming.apply_eq, ← hinside.composed]
  have hattribute : ∀ a : Attribute, a.name.written.nsPrefix ≠ "" →
      (Renaming.apply (renamingOf first t.declarations ++ before) a.name).written.nsPrefix ≠
      "" := by
    intro a ha
    rw [Renaming.apply_eq]
    dsimp only
    cases hnew : List.lookup a.name.written.nsPrefix
      (renamingOf first t.declarations ++ before) with
    | none => rwa [Renaming.target, hnew, Option.getD_none]
    | some new =>
      rw [Renaming.target, hnew, Option.getD_some]
      exact (hinside.renamed _ new hnew).2 ha
  simp only [Tag.adopt, happly, List.map_map, Tag.mk.injEq, true_and]
  refine ⟨h.keptIn_keptIn, List.map_congr_left fun a _ => ?_⟩
  by_cases ha : a.name.written.nsPrefix = ""
  · simp [ha]
  · simp [ha, hattribute a ha, happly]

mutual
theorem Node.adopt_adopt (h : Follows around first last before after both) :
    ∀ {n : Node}, n.IsSound outer depth → n.keepsPrefixes around = true →
      (n.adopt first before).adopt last after = n.adopt last both
  | .text _, _, _ | .cdata _, _, _ | .comment _, _, _ | .instruction .., _,
    _ | .reference _, _, _ => rfl
  | .element t children, .element _ ht _ hchildren, hkeeps => by
    rw [keepsPrefixes, Bool.and_eq_true] at hkeeps
    have hinside := h.step ht.own (Scope.agrees_iff.mp hkeeps.1)
    simp only [Node.adopt, Tag.adopt_declarations, h.adopt_tag ht.own hkeeps.1]
    rw [Node.adoptAll_adoptAll hinside hchildren hkeeps.2]

theorem Node.adoptAll_adoptAll (h : Follows around first last before after both) :
    ∀ {nodes : List Node}, (∀ n ∈ nodes, n.IsSound outer depth) →
    allKeepPrefixes around nodes = true →
      adoptAll last after (adoptAll first before nodes) = adoptAll last both nodes
  | [], _, _ => rfl
  | n :: rest, hsound, hkeeps => by
    rw [allKeepPrefixes, Bool.and_eq_true] at hkeeps
    rw [List.forall_mem_cons] at hsound
    rw [adoptAll, adoptAll, adoptAll, Node.adopt_adopt h hsound.1 hkeeps.1,
      Node.adoptAll_adoptAll h hsound.2 hkeeps.2]
end

/-- Nodes that have first lost what is declared twice among them come into an element as they would
have come themselves. -/
theorem Node.adoptAll_twice {inside : Scope} (hdefault : inside.resolve? "" = some "")
    {nodes : List Node}
    (hsound : ∀ n ∈ nodes, n.IsSound outer depth) (hkeeps : allKeepPrefixes inside nodes = true) :
    adoptAll inside [] (adoptAll [] [] nodes) = adoptAll inside [] nodes :=
  adoptAll_adoptAll (.start hdefault) hsound hkeeps

end DocMerge.Xml

import DocMerge.Proofs.Rewriting
import Mathlib.Data.List.Find

/-!
# Namespaces in force

What the declarations around a name make of its prefix, and which prefix they have for a namespace.
In a tree that has been read, an element without a namespace has none around it for names without a
prefix either: no other prefix can be declared to stand for none.
-/

namespace DocMerge.Xml

-- ---------------------------------------------------------------------------
-- Scopes
-- ---------------------------------------------------------------------------

def Scope.declared? (scope : Scope) (nsPrefix : String) : Option String :=
  (scope.find? (·.nsPrefix == nsPrefix)).map (·.uri)

def Scope.agrees (scope : Scope) (declarations : List Declaration) : Bool :=
  declarations.all (fun d => (scope.declared? d.nsPrefix).all (· == d.uri))

-- ---------------------------------------------------------------------------
-- Declarations of a tag
-- ---------------------------------------------------------------------------

structure AreOwn (declarations : List Declaration) : Prop where
  distinct : (declarations.map (·.nsPrefix)).Nodup
  standing : ∀ d ∈ declarations, d.nsPrefix ≠ "xml"
  empty : ∀ d ∈ declarations, d.uri = "" → d.nsPrefix = ""

theorem declaration?_own {a : RawAttribute} (h : declaration? a = some (some d)) :
    d.nsPrefix ≠ "xml" ∧ (d.uri = "" → d.nsPrefix = "") := by
  simp only [declaration?] at h
  grind

theorem Declaration.raw_inj {d d' : Declaration} (h : d.raw.1 ≠ d'.raw.1) :
    d.nsPrefix ≠ d'.nsPrefix := by
  intro hsame
  simp [raw, hsame] at h

theorem declared_of_ofRaw? {t : Tag} (h : Tag.ofRaw? outer written given = some t) :
    ∀ d ∈ t.declarations, d.nsPrefix ≠ "xml" ∧ (d.uri = "" → d.nsPrefix = "") := by
  obtain ⟨-, ⟨found, hfound, hdeclarations⟩, -⟩ := Tag.ofRaw?_eq_some_iff.mp h
  have hread : ∀ o ∈ found, ∃ a, declaration? a = some o := by
    clear hdeclarations
    generalize given.filter (·.1.isDeclaration) = attributes at hfound
    induction hfound with
    | nil => simp
    | cons ha _ ih => exact List.forall_mem_cons.mpr ⟨⟨_, ha⟩, ih⟩
  intro d hd
  rw [← hdeclarations] at hd
  obtain ⟨o, ho, rfl⟩ := List.mem_filterMap.mp hd
  obtain ⟨a, ha⟩ := hread _ ho
  exact declaration?_own ha

theorem Tag.IsSound.own {t : Tag} (h : t.IsSound outer) : AreOwn t.declarations := by
  have hdeclared := declared_of_ofRaw? h.read
  refine ⟨?_, fun d hd => (hdeclared d hd).1, fun d hd => (hdeclared d hd).2⟩
  have hsub : (t.declarations.map Declaration.raw).Sublist (t.raw.filter (·.1.isDeclaration)) := by
    rw [Tag.raw, List.filter_append,
      List.filter_eq_self.mpr (by simp [Declaration.raw_isDeclaration])]
    exact List.sublist_append_left _ _
  have hdistinct := (Tag.ofRaw?_eq_some_iff.mp h.read).1.sublist hsub
  rw [List.pairwise_map] at hdistinct
  exact List.pairwise_map.mpr (hdistinct.imp Declaration.raw_inj)

-- ---------------------------------------------------------------------------
-- Prefixes in force
-- ---------------------------------------------------------------------------

namespace Scope

theorem declared?_append (declarations scope : Scope) (p : String) :
    declared? (declarations ++ scope) p = (declared? declarations p).or (declared? scope p) := by
  rw [declared?, List.find?_append]
  cases h : List.find? (·.nsPrefix == p) declarations <;> simp [declared?, h]

theorem mem_of_declared? {scope : Scope} (h : scope.declared? p = some uri) : ⟨p, uri⟩ ∈ scope := by
  obtain ⟨d, hd, rfl⟩ := Option.map_eq_some_iff.mp h
  have hp : d.nsPrefix = p := by simpa using List.find?_some hd
  exact hp ▸ List.mem_of_find?_eq_some hd

theorem declared?_isSome_iff {scope : Scope} : (scope.declared? p).isSome = true ↔
    ∃ d ∈ scope, d.nsPrefix = p := by
  simp [declared?, List.find?_isSome]

theorem declared?_of_mem {declarations : Scope} (h : (declarations.map (·.nsPrefix)).Nodup)
    (hd : d ∈ declarations) :
    declared? declarations d.nsPrefix = some d.uri := by
  induction declarations with
  | nil => cases hd
  | cons first rest ih =>
    rw [List.map_cons, List.nodup_cons] at h
    rcases List.mem_cons.mp hd with rfl | hd
    · simp [declared?]
    · have hne : first.nsPrefix ≠ d.nsPrefix := fun hsame => h.1 (hsame ▸ List.mem_map_of_mem hd)
      rw [declared?, List.find?_cons_of_neg (by simpa using hne)]
      exact ih h.2 hd

theorem resolve?_eq (scope : Scope) (p : String) : scope.resolve? p =
    if p = "xml" then some xmlUri else (scope.declared? p).or
      (if p = "" then some "" else none) := by
  unfold resolve? declared?
  simp only [beq_iff_eq]
  split
  · rfl
  · split
    · rename_i d hd
      simp [hd]
    · rename_i hd
      simp [hd]

theorem agrees_iff {scope : Scope} {declarations : List Declaration} :
    scope.agrees declarations = true ↔
      ∀ d ∈ declarations, ∀ uri, scope.declared? d.nsPrefix = some uri → uri = d.uri := by
  rw [agrees, List.all_eq_true]
  refine forall₂_congr fun d _ => ?_
  cases scope.declared? d.nsPrefix <;> simp

theorem resolve?_of_prefixOf? {scope : Scope} (h : scope.prefixOf? uri = some p) :
    (∃ d ∈ scope, d.nsPrefix = p) ∧ scope.resolve? p = some uri := by
  obtain ⟨d, hd, rfl⟩ := Option.map_eq_some_iff.mp h
  have hfound := List.find?_some hd
  simp only [Bool.and_eq_true, beq_iff_eq] at hfound
  exact ⟨⟨d, List.mem_of_find?_eq_some hd, rfl⟩, hfound.2⟩

theorem declared?_of_prefixOf? {scope : Scope} (h : scope.prefixOf? uri = some p) (hp : p ≠ "xml") :
    scope.declared? p = some uri := by
  obtain ⟨hmem, hresolve⟩ := resolve?_of_prefixOf? h
  obtain ⟨other, hother⟩ := Option.isSome_iff_exists.mp (declared?_isSome_iff.mpr hmem)
  rw [resolve?_eq, if_neg hp, hother, Option.some_or] at hresolve
  rw [hother, hresolve]

theorem prefixOf?_of_declared? {scope : Scope} (h : scope.declared? p = some uri) (hp : p ≠ "xml") :
    ∃ other, scope.prefixOf? uri = some other := by
  have hresolve : scope.resolve? p = some uri := by rw [resolve?_eq, if_neg hp, h, Option.some_or]
  have hsome :
      (scope.find? (fun d => d.uri == uri && scope.resolve? d.nsPrefix == some uri)).isSome =
      true := by
    rw [List.find?_isSome]
    exact ⟨⟨p, uri⟩, mem_of_declared? h, by simp [hresolve]⟩
  obtain ⟨d, hd⟩ := Option.isSome_iff_exists.mp hsome
  exact ⟨d.nsPrefix, by rw [prefixOf?, hd, Option.map_some]⟩

/-- Declarations that agree with their surroundings have the prefix of a namespace, or leave it to
these. -/
theorem prefixOf?_append {declarations : List Declaration} {scope : Scope}
    (hown : AreOwn declarations)
    (hagree : ∀ d ∈ declarations, ∀ uri, scope.declared? d.nsPrefix = some uri →
      uri = d.uri) (uri : String) :
    prefixOf? (declarations ++ scope) uri =
      ((declarations.find? (·.uri == uri)).map (·.nsPrefix)).or (scope.prefixOf? uri) := by
  have hfirst : ∀ d ∈ declarations,
      (d.uri == uri && resolve? (declarations ++ scope) d.nsPrefix == some uri) =
      (d.uri == uri) := by
    intro d hd
    have hresolve : resolve? (declarations ++ scope) d.nsPrefix = some d.uri := by
      rw [resolve?_eq, if_neg (hown.standing d hd), declared?_append,
        declared?_of_mem hown.distinct hd, Option.some_or,
        Option.some_or]
    rw [hresolve, Bool.and_eq_left_iff_imp]
    simp
  have hrest : ∀ d ∈ scope,
      (d.uri == uri && resolve? (declarations ++ scope) d.nsPrefix == some uri) =
      (d.uri == uri && resolve? scope d.nsPrefix == some uri) := by
    intro d hd
    have hsame : resolve? (declarations ++ scope) d.nsPrefix = resolve? scope d.nsPrefix := by
      rw [resolve?_eq, resolve?_eq, declared?_append]
      cases hdeclared : declared? declarations d.nsPrefix with
      | none => rw [Option.none_or]
      | some own =>
        -- A prefix that is declared again stands for the same.
        obtain ⟨known, hknown⟩ :=
          Option.isSome_iff_exists.mp (declared?_isSome_iff.mpr ⟨d, hd, rfl⟩)
        have hown := hagree _ (mem_of_declared? hdeclared) known hknown
        rw [hknown, show known = own from hown, Option.some_or]
    rw [hsame]
  rw [prefixOf?, List.find?_append, List.find?_congr hfirst, List.find?_congr hrest, prefixOf?]
  cases declarations.find? (·.uri == uri) <;> simp

end Scope

-- ---------------------------------------------------------------------------
-- Trees that have been read
-- ---------------------------------------------------------------------------

def Scope.IsPlain (scope : Scope) : Prop := ∀ d ∈ scope, d.uri = "" → d.nsPrefix = ""

inductive Node.IsResolved : Scope → Node → Prop
  | leaf (h : n.element? = none) : IsResolved scope n
  | element (name : Scope.resolve? (tag.declarations ++ scope) tag.name.written.nsPrefix =
    some tag.name.uri)
      (plain : Scope.IsPlain tag.declarations)
      (inside : ∀ n ∈ children, IsResolved (tag.declarations ++ scope) n) :
      IsResolved scope (.element tag children)

structure Unclosed.IsResolved (outer : List Unclosed) (u : Unclosed) : Prop where
  scope : u.scope = u.tag.declarations ++ scopeOf outer
  name : u.scope.resolve? u.tag.name.written.nsPrefix = some u.tag.name.uri
  plain : Scope.IsPlain u.tag.declarations
  done : ∀ n ∈ u.done, n.IsResolved u.scope

def AreResolved : List Unclosed → Prop
  | [] => True
  | u :: outer => u.IsResolved outer ∧ AreResolved outer

theorem areResolved_nil : AreResolved [] := trivial

namespace Unclosed.IsResolved
variable {outer : List Unclosed} {u : Unclosed} (h : u.IsResolved outer)
include h

theorem push (hn : n.IsResolved u.scope) : (u.push n).IsResolved outer :=
  ⟨h.scope, h.name, h.plain, List.forall_mem_cons.mpr ⟨hn, h.done⟩⟩

theorem close : u.close.IsResolved (scopeOf outer) := by
  have hname := h.name
  have hdone := h.done
  rw [h.scope] at hname hdone
  exact .element hname h.plain fun n hn => hdone n (List.mem_reverse.mp hn)

theorem grow {done : List Node} (hdone : ∀ n ∈ done, n ∈ u.done ∨ n.element? = none) :
    Unclosed.IsResolved outer { u with done } :=
  ⟨h.scope, h.name, h.plain, fun n hn => (hdone n hn).elim (h.done n) .leaf⟩

theorem pushChar (c : Char) : (u.pushChar c).IsResolved outer := by
  obtain ⟨written, tag, scope, done⟩ := u
  rcases done with _ | ⟨⟨⟩, done⟩ <;> exact h.grow (by simp +contextual [Node.element?])

theorem pushSection (s : String) : (u.pushSection s).IsResolved outer := by
  obtain ⟨written, tag, scope, done⟩ := u
  rcases done with _ | ⟨⟨⟩, done⟩ <;> exact h.grow (by simp +contextual [Node.element?])

end Unclosed.IsResolved

theorem Token.element?_node {token : Token} (hn : token.node? = some n) : n.element? = none := by
  cases token with
  | comment | instruction | reference =>
    obtain rfl := Option.some.inj hn
    rfl
  | _ => cases hn

theorem openElement?_resolved {stack : List Unclosed}
    (h : openElement? stack name attributes = some u) :
    u.IsResolved stack := by
  simp only [openElement?_eq, Option.ite_none_right_eq_some, Option.map_eq_some_iff] at h
  obtain ⟨-, tag, htag, rfl⟩ := h
  obtain ⟨-, -, hname, -, -⟩ := Tag.ofRaw?_eq_some_iff.mp htag
  have hwritten := elementName?_written hname
  obtain ⟨uri, huri, hsame⟩ := Option.map_eq_some_iff.mp hname
  refine ⟨rfl, ?_, fun d hd => (declared_of_ofRaw? htag d hd).2, by simp⟩
  rw [hwritten, huri, ← hsame]

theorem TakesToken.resolved (h : TakesToken stack token next) (hstack : AreResolved stack) :
    AreResolved next := by
  cases h with
  | opening hopen => exact ⟨openElement?_resolved hopen, hstack⟩
  | @char _ _ c | @escaped _ _ c => exact ⟨hstack.1.pushChar c, hstack.2⟩
  | @cdata _ _ s => exact ⟨hstack.1.pushSection s, hstack.2⟩
  | node hn => exact ⟨hstack.1.push (.leaf (Token.element?_node hn)), hstack.2⟩
  | @closing u parent =>
    obtain ⟨hu, hparent, houter⟩ := hstack
    have hclose : u.close.IsResolved parent.scope := hu.close
    exact ⟨hparent.push hclose, houter⟩

theorem assemble?_resolved {stack : List Unclosed} (hstack : AreResolved stack)
    (h : assemble? stack tokens = some (root, behind)) : root.IsResolved [] := by
  obtain ⟨inside, u, -, hinside, rfl⟩ := assemble?_takesTokens h
  have hresolved : AreResolved [u] := hinside.invariant (fun _ _ _ _ hstep => hstep.resolved) hstack
  exact hresolved.1.close

structure Element.IsResolved (outer : Scope) (e : Element) : Prop where
  plain : outer.IsPlain
  node : e.toNode.IsResolved outer

namespace Element

theorem isResolved_of_readDocument? {cs : List Char} (h : readDocument? cs = some e) :
    e.IsResolved [] := by
  refine ⟨by simp [Scope.IsPlain], ?_⟩
  simp only [readDocument?, root?, Option.bind_eq_bind, Option.bind_eq_some_iff, Prod.exists,
    Option.ite_none_right_eq_some] at h
  obtain ⟨_, _, -, _, _, -, tokens, -, root, behind, hassemble, -, helement⟩ := h
  have hroot := assemble?_resolved areResolved_nil hassemble
  cases root with
  | element tag children =>
    obtain rfl : ⟨tag, children⟩ = e := by simpa [Node.element?] using helement
    exact hroot
  | _ => simp [Node.element?] at helement

theorem isResolved_of_ofBytes {content : ByteArray} (h : File.ofBytes content = .ok file) :
    file.root.IsResolved [] := by
  unfold File.ofBytes at h
  split at h
  · cases h
  · dsimp only at h
    split at h
    · cases h
    · rename_i root hparse
      obtain ⟨cs, -, hread⟩ := Option.bind_eq_some_iff.mp hparse
      cases h
      exact isResolved_of_readDocument? hread

variable {outer : Scope} {e : Element} (h : e.IsResolved outer)
include h

theorem IsResolved.named {name : String} (hchild : child ∈ e.named name) :
    child.IsResolved (e.scope outer) := by
  have hmem := (Node.mem_named hchild).1
  obtain ⟨hplain, hnode⟩ := h
  cases hnode with
  | leaf hnone => cases hnone
  | element _ hdeclared hinside =>
    refine ⟨fun d hd => ?_, hinside _ hmem⟩
    rcases List.mem_append.mp hd with hd | hd
    · exact hdeclared d hd
    · exact hplain d hd

/-- Inside an element without a namespace, names without a prefix have none. -/
theorem IsResolved.default (hname : e.tag.name.is name = true) :
    (e.scope outer).resolve? "" = some "" := by
  obtain ⟨hplain, hnode⟩ := h
  cases hnode with
  | leaf hnone => cases hnone
  | element hresolve hdeclared _ =>
    have huri : e.tag.name.uri = "" := by
      rw [Name.is, Bool.and_eq_true, beq_iff_eq] at hname
      exact hname.1
    rw [huri] at hresolve
    by_cases hp : e.tag.name.written.nsPrefix = ""
    · rwa [hp] at hresolve
    · -- A prefix would have to be declared for no namespace.
      rw [Scope.resolve?_eq, if_neg hp, Option.or_none] at hresolve
      by_cases hxml : e.tag.name.written.nsPrefix = "xml"
      · rw [if_pos hxml] at hresolve
        exact absurd hresolve (by decide)
      · rw [if_neg hxml] at hresolve
        rcases List.mem_append.mp (Scope.mem_of_declared? hresolve) with hd | hd
        · exact absurd (hdeclared _ hd rfl) hp
        · exact absurd (hplain _ hd rfl) hp

end Element

end DocMerge.Xml

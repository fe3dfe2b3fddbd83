import DocMerge.Proofs.Rewriting

/-!
# Passes over children

A pass over the children with a name takes them out, edits them in turn up to a fault, and puts them
back. What it leaves alone does not depend on what the edits do, as long as these leave tags alone:
children with other names are the same, and a pass that leaves the children with its name as they
were leaves all as it was.
-/

namespace DocMerge.Xml

-- ---------------------------------------------------------------------------
-- Children that are put back
-- ---------------------------------------------------------------------------

def Node.putNamed (name : String) : List Node → List Element → List Node
  | [], _ => []
  | n :: nodes, [] => n :: nodes
  | n :: nodes, e :: es =>
    if n.isNamed name then e.toNode :: putNamed name nodes es else n ::
      putNamed name nodes (e :: es)

theorem Node.putNamed_nil (name : String) (nodes : List Node) : putNamed name nodes [] = nodes := by
  cases nodes <;> rfl

theorem Node.putNamed_cons_of_is {e : Element} (h : e.tag.name.is name = true)
    (nodes : List Node) (new : Element)
    (es : List Element) : putNamed name (e.toNode :: nodes) (new :: es) = new.toNode ::
    putNamed name nodes es :=
  if_pos h

theorem Node.putNamed_cons_of_not {n : Node} (h : n.isNamed name = false) (nodes : List Node)
    (es : List Element) :
    putNamed name (n :: nodes) es = n :: putNamed name nodes es := by
  cases es with
  | nil => rw [putNamed_nil, putNamed_nil]
  | cons e es => exact if_neg (by simp [h])

theorem Node.putNamed_named (name : String) (nodes : List Node) :
    putNamed name nodes (named name nodes) = nodes := by
  induction nodes with
  | nil => rfl
  | cons n nodes ih =>
    rcases isNamed_cases name n with hn | ⟨e, rfl, he⟩
    · rw [named_cons_of_not hn, putNamed_cons_of_not hn, ih]
    · rw [named_cons_of_is he, putNamed_cons_of_is he, ih]

def Element.IsAlike (e e' : Element) : Prop := e'.tag = e.tag

theorem Node.named_putNamed {nodes : List Node}
    (h : List.Forall₂ Element.IsAlike (named name nodes) es) :
    named name (putNamed name nodes es) = es := by
  induction nodes generalizing es with
  | nil =>
    cases h
    rfl
  | cons n nodes ih =>
    rcases isNamed_cases name n with hn | ⟨e, rfl, he⟩
    · rw [named_cons_of_not hn] at h
      rw [putNamed_cons_of_not hn, named_cons_of_not hn, ih h]
    · rw [named_cons_of_is he] at h
      cases h with
      | @cons _ new _ es halike hrest =>
        have hnew : new.tag.name.is name = true := by rw [halike, he]
        rw [putNamed_cons_of_is he, named_cons_of_is hnew, ih hrest]

end DocMerge.Xml

namespace DocMerge.Writing

open Content (Edited)
open Xml (Element Node Scope)

def Touched (names : List String) (n n' : Node) : Prop :=
  n' = n ∨ ∃ e children, n = Element.toNode e ∧ n' = Element.toNode { e with children } ∧
    ∃ name ∈ names, e.tag.name.is name = true

structure Touches (names : List String) (d d' : Element) : Prop where
  tag : d'.tag = d.tag
  children : List.Forall₂ (Touched names) d.children d'.children

theorem Touched.mono (h : Touched names n n') (hsub : names ⊆ more) : Touched more n n' := by
  obtain rfl | ⟨e, children, rfl, rfl, name, hmem, hname⟩ := h
  · exact .inl rfl
  · exact .inr ⟨e, children, rfl, rfl, name, hsub hmem, hname⟩

theorem Touched.trans (h : Touched names n n') (h' : Touched names n' n'') :
    Touched names n n'' := by
  obtain rfl | ⟨e, children, rfl, rfl, hname⟩ := h
  · exact h'
  · obtain rfl | ⟨e', children', heq, rfl, -⟩ := h'
    · exact .inr ⟨e, children, rfl, rfl, hname⟩
    · have htag : e'.tag = e.tag := by
        simp only [Element.toNode, Node.element.injEq] at heq
        exact heq.1.symm
      exact .inr ⟨e, children', rfl, by simp only [Element.toNode, htag], hname⟩

theorem Touches.refl (names : List String) (d : Element) : Touches names d d :=
  ⟨rfl, List.forall₂_same.mpr fun _ _ => .inl rfl⟩

theorem Touches.mono (h : Touches names d d') (hsub : names ⊆ more) : Touches more d d' :=
  ⟨h.tag, h.children.imp fun _ _ htouched => htouched.mono hsub⟩

theorem Touches.trans (h : Touches names d d') (h' : Touches names d' d'') : Touches names d d'' :=
  ⟨h'.tag.trans h.tag,
    forall₂_trans (fun _ _ _ hfirst hsecond => hfirst.trans hsecond) h.children h'.children⟩

theorem named_of_touched {nodes nodes' : List Node} (h : List.Forall₂ (Touched names) nodes nodes')
    (hother : other ∉ names) :
    Node.named other nodes' = Node.named other nodes := by
  induction h with
  | nil => rfl
  | @cons n n' nodes nodes' hfirst _ ih =>
    obtain rfl | ⟨e, children, rfl, rfl, name, hmem, hname⟩ := hfirst
    · rw [← List.singleton_append, Node.named_append, ih, ← Node.named_append,
        List.singleton_append]
    · have hnot : e.tag.name.is other = false :=
        Bool.eq_false_iff.mpr fun his => hother (Xml.Name.is_unique his hname ▸ hmem)
      rw [Node.named_cons_of_not (by exact hnot), Node.named_cons_of_not (by exact hnot), ih]

theorem Touches.named (h : Touches names d d') (hother : other ∉ names) :
    d'.named other = d.named other :=
  named_of_touched h.children hother

theorem putNamed_touched {nodes : List Node}
    (h : List.Forall₂ Element.IsAlike (Node.named name nodes) es) :
    List.Forall₂ (Touched [name]) nodes (Node.putNamed name nodes es) := by
  induction nodes generalizing es with
  | nil => exact .nil
  | cons n nodes ih =>
    rcases Node.isNamed_cases name n with hn | ⟨e, rfl, he⟩
    · rw [Node.named_cons_of_not hn] at h
      rw [Node.putNamed_cons_of_not hn]
      exact .cons (.inl rfl) (ih h)
    · rw [Node.named_cons_of_is he] at h
      cases h with
      | @cons _ new _ es halike hrest =>
        have hnew : new.toNode = Element.toNode { e with children := new.children } := by
          simp only [Element.toNode, show new.tag = e.tag from halike]
        rw [Node.putNamed_cons_of_is he]
        exact .cons (.inr ⟨e, new.children, rfl, hnew, name, List.mem_singleton_self name, he⟩)
          (ih hrest)

-- ---------------------------------------------------------------------------
-- Passes
-- ---------------------------------------------------------------------------

def editAll (edit : σ → Element → σ × Edited) : σ → List Element → σ × List Element × Option Fault
  | state, [] => (state, [], none)
  | state, e :: es =>
    match edit state e with
    | (state, e, some fault) => (state, e :: es, some fault)
    | (state, e, none) =>
      let (state, es, fault) := editAll edit state es
      (state, e :: es, fault)

/-- A pass takes out the elements with a name, edits them and puts them back. -/
theorem editNamed_eq (name : String) (edit : σ → Element → σ × Edited) (state : σ)
    (nodes : List Node) :
    editNamed name edit state nodes =
      ((editAll edit state (Node.named name nodes)).1,
        Node.putNamed name nodes (editAll edit state (Node.named name nodes)).2.1,
        (editAll edit state (Node.named name nodes)).2.2) := by
  induction nodes generalizing state with
  | nil => rfl
  | cons n nodes ih =>
    rcases Node.isNamed_cases name n with hn | ⟨e, rfl, he⟩
    · rw [editNamed_cons_of_not hn, Node.named_cons_of_not hn, Node.putNamed_cons_of_not hn, ih]
    · rw [Node.named_cons_of_is he, editAll]
      cases hedit : edit state e with
      | mk next edited =>
        obtain ⟨e', fault⟩ := edited
        cases fault with
        | none =>
          rw [editNamed_cons_of_is he hedit, ih]
          simp only [Node.putNamed_cons_of_is he]
        | some fault =>
          have hsome : e.toNode.element?.filter (·.tag.name.is name) = some e :=
            Option.filter_some_pos he
          rw [editNamed, hsome]
          simp only [hedit, Node.putNamed_cons_of_is he, Node.putNamed_named]

theorem editAll_forall₂ {R : Element → Element → Prop} (hsame : ∀ e, R e e)
    {edit : σ → Element → σ × Edited}
    (hedit : ∀ state e, R e (edit state e).2.1) (state : σ) (es : List Element) :
    List.Forall₂ R es (editAll edit state es).2.1 := by
  induction es generalizing state with
  | nil => exact .nil
  | cons e es ih =>
    have hfirst := hedit state e
    cases hrun : edit state e with
    | mk next edited =>
      obtain ⟨e', fault⟩ := edited
      rw [hrun] at hfirst
      cases fault with
      | none =>
        simp only [editAll, hrun]
        exact .cons hfirst (ih next)
      | some fault =>
        simp only [editAll, hrun]
        exact .cons hfirst (List.forall₂_same.mpr fun e _ => hsame e)

def KeepsTags (edit : σ → Element → σ × Edited) : Prop :=
  ∀ state e, Element.IsAlike e (edit state e).2.1

theorem KeepsTags.editAll {edit : σ → Element → σ × Edited} (h : KeepsTags edit) (state : σ)
    (es : List Element) :
    List.Forall₂ Element.IsAlike es (editAll edit state es).2.1 := by
  have hsame : ∀ e, Element.IsAlike e e := fun _ => rfl
  exact editAll_forall₂ hsame h state es

section
variable {edit : σ → Element → σ × Edited} (hedit : KeepsTags edit) (name : String)
  (state : σ) (d : Element)
include hedit

theorem named_editChildren :
    (editChildren name edit state d).2.1.named name = (editAll edit state (d.named name)).2.1 := by
  rw [editChildren, editNamed_eq]
  exact Node.named_putNamed (hedit.editAll state (d.named name))

theorem editChildren_touches : Touches [name] d (editChildren name edit state d).2.1 := by
  rw [editChildren, editNamed_eq]
  exact ⟨rfl, putNamed_touched (hedit.editAll state (d.named name))⟩

omit hedit in
theorem editChildren_of_editAll
    (h : editAll edit state (d.named name) = (last, d.named name, none)) :
    editChildren name edit state d = (last, d, none) := by
  rw [editChildren, editNamed_eq, ← Element.named_eq, h]
  simp only [Element.named_eq, Node.putNamed_named]

theorem editChildren_same_iff :
    (editChildren name edit state d).2 = (d, none) ↔
    (editAll edit state (d.named name)).2 = (d.named name, none) := by
  constructor
  · intro h
    refine Prod.ext ?_ ?_
    · rw [← named_editChildren hedit, h]
    · have hfault := congrArg Prod.snd h
      rwa [editChildren, editNamed_eq] at hfault
  · intro h
    exact congrArg Prod.snd (editChildren_of_editAll name state d (Prod.ext rfl h))

theorem editChildren_same (h : (editChildren name edit state d).2.1.named name = d.named name) :
    (editChildren name edit state d).2.1 = d := by
  rw [named_editChildren hedit] at h
  rw [editChildren, editNamed_eq, ← Element.named_eq, h]
  simp only [Element.named_eq, Node.putNamed_named]

end

-- ---------------------------------------------------------------------------
-- Edits
-- ---------------------------------------------------------------------------

section
variable (inside : Scope)

theorem setInner_tag (markup : String) (e : Element) :
    (Content.setInner inside e markup).1.tag = e.tag := by
  unfold Content.setInner
  split
  · rfl
  · split <;> rfl

theorem setRemarks_tag (text : String) (e : Element) :
    (Content.setRemarks e text).1.tag = e.tag := by
  unfold Content.setRemarks
  dsimp only
  split <;> split <;> rfl

theorem writeText_tag (text : String) (e : Element) : (writeText inside text e).1.tag = e.tag := by
  unfold writeText
  split
  · rfl
  · exact setInner_tag inside text e

theorem writeRemarks_tag (text : String) (e : Element) :
    (writeRemarks inside text e).1.tag = e.tag := by
  unfold writeRemarks
  split
  · rfl
  · exact setRemarks_tag text e

@[simp] theorem writeText_said (e : Element) :
    writeText inside (Content.text inside e) e = (e, none) :=
  if_pos (by simp)

@[simp] theorem writeRemarks_said (e : Element) :
    writeRemarks inside (Content.remarks inside e) e = (e, none) :=
  if_pos (by simp)

theorem firstOnly_keepsTags {edit : Element → Edited} (h : ∀ e, (edit e).1.tag = e.tag) :
    KeepsTags (firstOnly edit) := by
  intro done e
  unfold firstOnly
  split
  · rfl
  · exact h e

theorem editAll_firstOnly (edit : Element → Edited) (es : List Element) :
    (editAll (firstOnly edit) false es).2 =
      match es with
      | [] => ([], none)
      | e :: rest => ((edit e).1 :: rest, (edit e).2) := by
  have hrest : ∀ es, editAll (firstOnly edit) true es = (true, es, none) := by
    intro es
    induction es with
    | nil => rfl
    | cons e es ih => simp only [editAll, firstOnly, if_true, ih]
  cases es with
  | nil => rfl
  | cons e es =>
    cases hedit : edit e with
    | mk e' fault => cases fault <;> simp [editAll, firstOnly, hedit, hrest]

def writeUnder (texts : NamedTexts) (_ : Unit) (e : Element) : Unit × Edited :=
  match texts.lookup (e.value "name") with
  | some text => ((), writeText inside text e)
  | none => ((), e, none)

theorem writeUnder_keepsTags (texts : NamedTexts) : KeepsTags (writeUnder inside texts) := by
  intro _ e
  cases h : texts.lookup (e.value "name") with
  | none => simp only [writeUnder, h, Element.IsAlike]
  | some text => simp only [writeUnder, h, Element.IsAlike, writeText_tag]

def writeFrom (left : List ExceptionDoc) (e : Element) : List ExceptionDoc × Edited :=
  match left with
  | x :: left => (left, writeText inside x.text e)
  | [] => ([], e, none)

theorem writeFrom_keepsTags : KeepsTags (writeFrom inside) := by
  intro left e
  cases left with
  | nil => simp only [writeFrom, Element.IsAlike]
  | cons x left => simp only [writeFrom, Element.IsAlike, writeText_tag]

end

end DocMerge.Writing

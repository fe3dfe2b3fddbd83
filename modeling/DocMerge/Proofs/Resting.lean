import DocMerge.Proofs.Moving
import DocMerge.Proofs.Unedited

/-!
# Edits that rest

What an edit has made of an element it leaves alone when it is made again: a text that is not read
as it was written is written in the same way once more. A pass over children rests as long as the
children with its name stay as it has left them, so the passes over the fields of an entry rest
together. A new exception is made outside the tree and comes into it afterwards; the edit that
writes its text in its place rests on it if no prefix in the text stands for something else than
around it.
-/

namespace DocMerge.Xml

theorem isRoot_of_wrapper {markup : String}
    (h : parse? ("<wrapper>" ++ markup ++ "</wrapper>") = some wrapper) :
    wrapper.IsRoot := by
  obtain ⟨cs, hcs⟩ : ∃ cs, ("<wrapper>" ++ markup ++ "</wrapper>").toList = '<' :: 'w' :: cs := by
    rw [String.toList_append, String.toList_append]
    exact ⟨_, rfl⟩
  have hplain : Files.plainLines ('<' :: 'w' :: cs) = '<' :: 'w' :: Files.plainLines cs := by
    rw [Files.plainLines_cons (by decide), Files.plainLines_cons (by decide)]
  have hstarts : StartsElement ('<' :: 'w' :: Files.plainLines cs) := ⟨'w', _, rfl, by decide⟩
  obtain ⟨behind, hdeclaration, hskip⟩ := isHead_nil.read hstarts.endsMiscellany
  have hprolog : readProlog? false behind = some ({}, '<' :: 'w' :: Files.plainLines cs) := by
    rw [readProlog?, hskip]
    rfl
  have hread : readDocument? ('<' :: 'w' :: cs) = some wrapper := by
    rw [parse?, hcs] at h
    exact h
  rw [List.nil_append] at hdeclaration
  simp only [readDocument?, hplain, hdeclaration, hprolog, Option.bind_eq_bind,
    Option.bind_some] at hread
  exact root?_sound (hplain ▸ Files.not_mem_plainLines _) hread

theorem Node.allKeepPrefixes_iff {scope : Scope} {nodes : List Node} :
    allKeepPrefixes scope nodes = true ↔ ∀ n ∈ nodes, n.keepsPrefixes scope = true := by
  induction nodes with
  | nil => simp [allKeepPrefixes]
  | cons n nodes ih => rw [allKeepPrefixes, Bool.and_eq_true, ih, List.forall_mem_cons]

end DocMerge.Xml

namespace DocMerge.Content

open Xml (Element Node Scope)

-- ---------------------------------------------------------------------------
-- Texts
-- ---------------------------------------------------------------------------

theorem setInner_congr (outer : Scope) (markup : String) {e e' : Element} (h : e'.tag = e.tag) :
    setInner outer e' markup = setInner outer e markup := by
  obtain ⟨tag, children⟩ := e
  obtain ⟨tag', children'⟩ := e'
  obtain rfl : tag' = tag := h
  rfl

theorem setInner_again (h : setInner outer e markup = (e', none)) :
    setInner outer e' markup = (e', none) := by
  have htag := Writing.setInner_tag outer markup e
  rw [h] at htag
  rw [setInner_congr outer markup htag, h]

theorem setBlock_setBlock (s : String) (nodes : List Node) :
    setBlock s (setBlock s nodes) = setBlock s nodes := by
  induction nodes with
  | nil => rfl
  | cons n nodes ih =>
    rcases Node.isNamed_cases "format" n with hn | ⟨format, rfl, hformat⟩
    · rw [setBlock_cons_of_not hn, setBlock_cons_of_not hn, ih]
    · have hbehind : Node.behindText (.cdata (remarksBlock s) :: Node.behindText format.children) =
          Node.behindText format.children := by
        rw [Node.behindText, List.dropWhile_cons_of_pos rfl]
        exact List.dropWhile_idempotent _ _
      rw [setBlock_cons_of_is hformat, setBlock_cons_of_is (by exact hformat), hbehind]

theorem setRemarks_again (h : setRemarks e s = (e', none)) : setRemarks e' s = (e', none) := by
  unfold setRemarks at h
  dsimp only at h
  split at h
  · rename_i hwritable
    generalize hkept :
      (if (e.find? "format").isSome then e else { e with children := [emptyFormat] }) = kept at h
    have hformat : (Node.named "format" kept.children).head?.isSome = true := by
      subst hkept
      split
      · assumption
      · rfl
    obtain rfl : { kept with children := setBlock s kept.children } = e' := congrArg Prod.fst h
    have hfind : (Element.find? { kept with children := setBlock s kept.children }
        "format").isSome = true := by
      rw [Element.find?, Element.named_eq, named_setBlock]
      cases hnamed : Node.named "format" kept.children with
      | nil => simp [hnamed] at hformat
      | cons format rest => rfl
    simp only [setRemarks, hfind, if_true, hwritable, setBlock_setBlock]
  · cases h

-- ---------------------------------------------------------------------------
-- New exceptions
-- ---------------------------------------------------------------------------

/-- Whether no declaration in a text gives a prefix another namespace than it has where the text
comes to. What is no markup declares nothing. -/
def keepsPrefixes (scope : Scope) (markup : String) : Bool :=
  match Xml.parse? ("<wrapper>" ++ markup ++ "</wrapper>") with
  | some wrapper => Node.allKeepPrefixes scope wrapper.children
  | none => true

/-- Markup that is set in an element outside of a tree and then comes into the tree with it is what
it would be if it were set there. -/
theorem setInner_adopt (hdefault : inside.resolve? "" = some "")
    (hkeeps : keepsPrefixes inside markup = true)
    {e : Element} (htag : e.tag.declarations = []) (h : setInner [] e markup = (made, none)) :
    setInner inside e markup = (⟨made.tag, Node.adoptAll inside [] made.children⟩, none) := by
  have hinside : e.scope inside = inside := by rw [Element.scope, htag, List.nil_append]
  have hempty : e.scope [] = [] := by rw [Element.scope, htag, List.nil_append]
  unfold setInner at h ⊢
  unfold keepsPrefixes at hkeeps
  cases hparse : Xml.parse? ("<wrapper>" ++ markup ++ "</wrapper>") with
  | some wrapper =>
    simp only [hparse, hempty, hinside, Prod.mk.injEq, and_true] at h hkeeps ⊢
    have hroot := (Xml.isRoot_of_wrapper hparse).sound
    rw [Element.toNode] at hroot
    cases hroot with
    | element _ _ _ hsound =>
      have hbehind : ∀ n ∈ Node.behindText wrapper.children, n ∈ wrapper.children := fun n hn =>
        (List.dropWhile_suffix _).subset hn
      have htwice := Node.adoptAll_twice hdefault (fun n hn => hsound n (hbehind n hn))
        (Node.allKeepPrefixes_iff.mpr fun n hn =>
          Node.allKeepPrefixes_iff.mp hkeeps n (hbehind n hn))
      rw [← h]
      cases wrapper.text? with
      | none => simpa using htwice.symm
      | some text => simpa [Node.adoptAll, Node.adopt] using htwice.symm
  | none =>
    simp only [hparse] at h ⊢
    split at h
    · rename_i hwritable
      obtain rfl : { e with children := [.text markup] } = made := congrArg Prod.fst h
      simp only [hwritable, if_true]
      rfl
    · cases h

end DocMerge.Content

namespace DocMerge.Writing

open Content (Edited)
open Xml (Element Node Scope)

theorem exists_of_forall₂ (h : List.Forall₂ R xs ys) (hy : y ∈ ys) : ∃ x ∈ xs, R x y := by
  induction h with
  | nil => cases hy
  | @cons x y' xs ys hxy _ ih =>
    rcases List.mem_cons.mp hy with rfl | hy
    · exact ⟨x, List.mem_cons_self, hxy⟩
    · obtain ⟨x, hx, hxy⟩ := ih hy
      exact ⟨x, List.mem_cons_of_mem _ hx, hxy⟩

theorem zip_append_right (xs : List α) (ys zs : List β) :
    xs.zip (ys ++ zs) = xs.zip ys ++ (xs.drop ys.length).zip zs := by
  induction ys generalizing xs with
  | nil => simp
  | cons y ys ih => cases xs <;> simp [ih]

-- ---------------------------------------------------------------------------
-- Passes
-- ---------------------------------------------------------------------------

/-- Whether an edit leaves alone what it has made. -/
def Rests (edit : σ → Element → σ × Edited) : Prop :=
  ∀ state e next e', edit state e = (next, e', none) → edit state e' = (next, e', none)

theorem editAll_cons_eq_none {edit : σ → Element → σ × Edited} :
    editAll edit state (e :: es) = (last, made, none) ↔
      ∃ next e' es', edit state e = (next, e', none) ∧ editAll edit next es = (last, es', none) ∧
      made = e' :: es' := by
  rw [editAll]
  cases hrun : edit state e with
  | mk next edited =>
    obtain ⟨e', fault⟩ := edited
    cases fault with
    | some fault => simp
    | none => grind

theorem editAll_again {edit : σ → Element → σ × Edited} (hrests : Rests edit)
    (h : editAll edit state es = (last, es', none)) :
    editAll edit state es' = (last, es', none) := by
  induction es generalizing state es' with
  | nil =>
    obtain ⟨rfl, rfl⟩ : state = last ∧ [] = es' := by simpa [editAll] using h
    rfl
  | cons e es ih =>
    obtain ⟨next, e', made, hfirst, hrest, rfl⟩ := editAll_cons_eq_none.mp h
    exact editAll_cons_eq_none.mpr ⟨next, e', made, hrests _ _ _ _ hfirst, ih hrest, rfl⟩

/-- An edit of the children with some names that leaves an element alone as long as these children
are as it has left them. -/
structure Settles (names : List String) (edit : Element → Edited) : Prop where
  touches : edit d = (d', none) → Touches names d d'
  rests : edit d = (d', none) → (∀ name ∈ names, d''.named name = d'.named name) →
    edit d'' = (d'', none)

theorem Settles.start : Settles [] fun d => (d, none) where
  touches h := by
    cases h
    exact .refl _ _
  rests _ _ := rfl

theorem Settles.andThen {edit next : Element → Edited} (h : Settles names edit)
    (hnext : Settles [name] next)
    (hnew : name ∉ names) : Settles (name :: names) fun d => andThen (edit d) next where
  touches hrun := by
    obtain ⟨d₁, hfirst, hsecond⟩ := andThen_eq_none _ hrun
    exact ((h.touches hfirst).mono (by simp)).trans ((hnext.touches hsecond).mono (by simp))
  rests hrun hsame := by
    obtain ⟨d₁, hfirst, hsecond⟩ := andThen_eq_none _ hrun
    rw [List.forall_mem_cons] at hsame
    have hstays : ∀ other ∈ names, _ = d₁.named other := fun other hother =>
      (hsame.2 other hother).trans ((hnext.touches hsecond).named (by
        rw [List.mem_singleton]
        rintro rfl
        exact hnew hother))
    rw [h.rests hfirst hstays]
    exact hnext.rests hsecond (by simpa using hsame.1)

theorem editChildren_eq_none {edit : σ → Element → σ × Edited} (htags : KeepsTags edit)
    (h : editChildren name edit state d = (last, d', none)) :
    editAll edit state (d.named name) = (last, d'.named name, none) := by
  have hnamed := named_editChildren htags name state d
  rw [h] at hnamed
  rw [editChildren, editNamed_eq, ← Element.named_eq] at h
  have hstate : (editAll edit state (d.named name)).1 = last := congrArg Prod.fst h
  have hfault : (editAll edit state (d.named name)).2.2 = none := congrArg (·.2.2) h
  exact Prod.ext hstate (Prod.ext hnamed.symm hfault)

theorem Rests.settles {edit : σ → Element → σ × Edited} (h : Rests edit)
    (htags : KeepsTags edit) (name : String)
    (state : σ) : Settles [name] fun d => (editChildren name edit state d).2 where
  touches {d d'} hrun := by
    have htouches := editChildren_touches htags name state d
    rwa [hrun] at htouches
  rests {d d' d''} hrun hsame := by
    have hall := editChildren_eq_none htags (Prod.ext rfl hrun)
    rw [editChildren_same_iff htags, hsame name (List.mem_singleton_self name),
      editAll_again h hall]

-- ---------------------------------------------------------------------------
-- Fields
-- ---------------------------------------------------------------------------

section
variable (inside : Scope)

theorem writeText_again (h : writeText inside s e = (e', none)) :
    writeText inside s e' = (e', none) := by
  unfold writeText at h ⊢
  split at h
  · obtain rfl : e = e' := congrArg Prod.fst h
    rename_i hsaid
    exact if_pos hsaid
  · split
    · rfl
    · exact Content.setInner_again h

theorem editAs_again (f : ScalarField) (h : editAs inside f s e = (e', none)) :
    editAs inside f s e' = (e', none) := by
  cases f with
  | summary | returns | value => exact writeText_again inside h
  | remarks =>
    simp only [editAs, writeRemarks] at h ⊢
    split at h
    · obtain rfl : e = e' := congrArg Prod.fst h
      rename_i hsaid
      exact if_pos hsaid
    · split
      · rfl
      · exact Content.setRemarks_again h

theorem firstOnly_rests {edit : Element → Edited}
    (h : ∀ e e', edit e = (e', none) → edit e' = (e', none)) :
    Rests (firstOnly edit) := by
  intro done e next e' hrun
  unfold firstOnly at hrun ⊢
  split at hrun
  · rename_i hdone
    cases hrun
    exact if_pos hdone
  · rename_i hdone
    simp only [Prod.mk.injEq] at hrun
    rw [if_neg hdone, h _ _ hrun.2, ← hrun.1]

theorem writeOne_settles (fields : DocFields) (f : ScalarField) :
    Settles [f.toField.name] (writeOne inside fields f) := by
  unfold writeOne
  cases fields.scalar f with
  | none => exact ⟨fun h => (Settles.start.touches h).mono (by simp), fun _ _ => rfl⟩
  | some s =>
    have hrests : Rests (firstOnly (editAs inside f s)) :=
      firstOnly_rests fun _ _ => editAs_again inside f
    exact hrests.settles (firstOnly_keepsTags (editAs_tag inside f s)) f.toField.name false

theorem writeNamed_settles (kind : String) (texts : NamedTexts) :
    Settles [kind] (writeNamed inside kind texts) := by
  refine Rests.settles ?_ (writeUnder_keepsTags inside texts) kind ()
  intro _ e _ e' hrun
  have htag : e'.tag = e.tag := by
    have hkept := writeUnder_keepsTags inside texts () e
    rwa [hrun] at hkept
  have hname : e'.value "name" = e.value "name" := by
    rw [Element.value, Element.attribute?, htag]; rfl
  unfold writeUnder at hrun ⊢
  rw [hname]
  cases htext : texts.lookup (e.value "name") with
  | none => rfl
  | some text =>
    simp only [htext, Prod.mk.injEq, true_and] at hrun ⊢
    exact writeText_again inside hrun

theorem writeTexts_settles (fields : DocFields) :
    Settles ["typeparam", "param", "remarks", "value", "returns", "summary"] fun d =>
      andThen
        (andThen
          (andThen (andThen (andThen (writeOne inside fields .summary d)
            (writeOne inside fields .returns))
        (writeOne inside fields .value)) (writeOne inside fields .remarks))
          (writeNamed inside "param" fields.params))
        (writeNamed inside "typeparam" fields.typeparams) := by
  have hreturns := (writeOne_settles inside fields .summary).andThen
    (writeOne_settles inside fields .returns)
    (show "returns" ∉ ["summary"] by decide)
  have hvalue := hreturns.andThen (writeOne_settles inside fields .value)
    (show "value" ∉ ["returns", "summary"] by decide)
  have hremarks := hvalue.andThen (writeOne_settles inside fields .remarks)
    (show "remarks" ∉ ["value", "returns", "summary"] by decide)
  have hparams := hremarks.andThen (writeNamed_settles inside "param" fields.params)
    (show "param" ∉ ["remarks", "value", "returns", "summary"] by decide)
  exact hparams.andThen (writeNamed_settles inside "typeparam" fields.typeparams)
    (show "typeparam" ∉ ["param", "remarks", "value", "returns", "summary"] by decide)

end

-- ---------------------------------------------------------------------------
-- Rows
-- ---------------------------------------------------------------------------

def editNext (edit : α → Element → Edited) (left : List α) (e : Element) : List α × Edited :=
  match left with
  | x :: left => (left, edit x e)
  | [] => ([], e, none)

section
variable {edit : α → Element → Edited}

/-- What a row makes of elements: each is edited with what stands in its place. -/
theorem editAll_editNext (h : editAll (editNext edit) row es = (left, es', none)) :
    left = row.drop es.length ∧ es'.length = es.length ∧
      List.Forall₂ (fun p p' => p'.1 = p.1 ∧ edit p.1 p.2 = (p'.2, none)) (row.zip es)
        (row.zip es') := by
  induction es generalizing row es' with
  | nil =>
    obtain ⟨rfl, rfl⟩ : row = left ∧ [] = es' := by simpa [editAll] using h
    simp
  | cons e es ih =>
    obtain ⟨next, e', made, hfirst, hrest, rfl⟩ := editAll_cons_eq_none.mp h
    obtain ⟨hleft, hlength, hall⟩ := ih hrest
    cases row with
    | nil =>
      obtain ⟨rfl, -⟩ : [] = next ∧ _ := by simpa [editNext] using hfirst
      simpa [hlength] using hleft
    | cons x row =>
      obtain ⟨rfl, hedit⟩ : row = next ∧ edit x e = (e', none) := by simpa [editNext] using hfirst
      exact ⟨by simpa using hleft, by simp [hlength], .cons ⟨rfl, hedit⟩ hall⟩

theorem editAll_editNext_same (h : ∀ p ∈ row.zip es, edit p.1 p.2 = (p.2, none)) :
    editAll (editNext edit) row es = (row.drop es.length, es, none) := by
  induction es generalizing row with
  | nil => rfl
  | cons e es ih =>
    refine editAll_cons_eq_none.mpr ?_
    cases row with
    | nil =>
      have hrest : editAll (editNext edit) [] es = ([].drop es.length, es, none) := ih (by simp)
      exact ⟨[], e, es, rfl, by simpa using hrest, rfl⟩
    | cons x row =>
      rw [List.zip_cons_cons, List.forall_mem_cons] at h
      exact ⟨row, e, es, by rw [editNext, h.1], ih h.2, rfl⟩

end

-- ---------------------------------------------------------------------------
-- Exceptions
-- ---------------------------------------------------------------------------

section
variable (inside : Scope)

theorem writeFrom_eq : writeFrom inside = editNext fun x => writeText inside x.text := by
  funext left e
  cases left <;> rfl

def IsAdded (x : ExceptionDoc) (e : Element) : Prop :=
  ∃ made, exceptionElement x = .ok made ∧ e.toNode = made.toNode.adopt inside []

theorem exceptionElement_eq_ok (h : exceptionElement x = .ok e) :
    Content.setInner [] ⟨exceptionTag x.cref, []⟩ x.text = (e, none) := by
  unfold exceptionElement at h
  dsimp only at h
  split at h
  · cases h
  · split at h
    · rename_i hset
      cases h
      exact hset
    · cases h

variable {inside}

theorem IsAdded.eq {e : Element} (h : IsAdded inside x e) : ∃ made,
    Content.setInner [] ⟨exceptionTag x.cref, []⟩ x.text = (made, none) ∧
      e = ⟨made.tag, Node.adoptAll inside [] made.children⟩ ∧ made.tag = exceptionTag x.cref := by
  obtain ⟨made, hmade, hadopt⟩ := h
  have hset := exceptionElement_eq_ok hmade
  have htag := setInner_tag [] x.text ⟨exceptionTag x.cref, []⟩
  rw [hset] at htag
  obtain ⟨tag, children⟩ := made
  obtain rfl : tag = exceptionTag x.cref := htag
  refine ⟨_, hset, ?_, rfl⟩
  obtain ⟨tag', children'⟩ := e
  rw [Element.toNode, Element.toNode, Node.adopt] at hadopt
  obtain ⟨rfl, rfl⟩ := Node.element.inj hadopt
  rfl

theorem IsAdded.isNamed {e : Element} (h : IsAdded inside x e) :
    e.tag.name.is "exception" = true := by
  obtain ⟨made, -, rfl, htag⟩ := h.eq
  rw [htag]
  rfl

/-- The edit that writes the text of a new exception in its place finds it there. -/
theorem IsAdded.rests (hdefault : inside.resolve? "" = some "") {e : Element}
    (h : IsAdded inside x e)
    (hkeeps : Content.keepsPrefixes inside x.text = true) :
    writeText inside x.text e = (e, none) := by
  obtain ⟨made, hset, rfl, htag⟩ := h.eq
  have hplace := Content.setInner_adopt hdefault hkeeps rfl hset
  unfold writeText
  split
  · rfl
  · exact (Content.setInner_congr inside x.text htag).trans hplace

theorem addExceptions_eq_none (h : Marks anchor first rest)
    (hadd : addExceptions inside anchor added (first ++ rest) = (nodes, none)) :
    ∃ new : List Element, List.Forall₂ (IsAdded inside) added new ∧
      Node.withoutText nodes = Node.withoutText first ++ new.map Element.toNode ++
      Node.withoutText rest := by
  induction added generalizing anchor first rest with
  | nil =>
    obtain rfl : first ++ rest = nodes := congrArg Prod.fst hadd
    exact ⟨[], .nil, by simp⟩
  | cons x added ih =>
    cases hmade : exceptionElement x with
    | error fault => simp [addExceptions, hmade] at hadd
    | ok made =>
      obtain ⟨first', rest', hinsert, hfirst, hrest⟩ :=
        insertAt_marks h (made.toNode.adopt inside [])
      simp only [addExceptions, hmade, hinsert] at hadd
      obtain ⟨new, hnew, htext⟩ := ih (.behind first' (made.toNode.adopt inside []) rest') hadd
      have hone : Node.withoutText [made.toNode.adopt inside []] = [made.toNode.adopt inside []] :=
        Node.withoutText_cons (Node.isText_of_isNamed (exceptionElement_adopted inside hmade)) []
      refine ⟨⟨made.tag.adopt inside (Xml.renamingOf inside made.tag.declarations ++ []), _⟩ :: new,
        .cons ⟨made, hmade, rfl⟩ hnew, ?_⟩
      rw [htext, Node.withoutText_append, hfirst, hrest, hone, List.map_cons]
      simp [Element.toNode, Node.adopt]

theorem named_map_toNode {new : List Element} (h : ∀ e ∈ new, e.tag.name.is name = true) :
    Node.named name (new.map Element.toNode) = new := by
  induction new with
  | nil => rfl
  | cons e new ih =>
    rw [List.forall_mem_cons] at h
    rw [List.map_cons, Node.named_cons_of_is h.1, ih h.2]

/-- The elements of exceptions when all have been written: those that there were, and one for each
of the others. -/
theorem writeAllExceptions_eq_none (h : writeAllExceptions inside row d = (d', none)) :
    ∃ written new,
    editAll (writeFrom inside) row (d.named "exception") =
    (row.drop (d.named "exception").length, written, none) ∧
      List.Forall₂ (IsAdded inside) (row.drop (d.named "exception").length) new ∧
      d'.named "exception" = written ++ new := by
  rw [writeAllExceptions] at h
  cases hrun : writeExceptions inside row d with
  | mk left edited =>
    obtain ⟨d₁, fault⟩ := edited
    rw [hrun] at h
    cases fault with
    | some fault => cases h
    | none =>
      have hall := editChildren_eq_none (writeFrom_keepsTags inside) hrun
      obtain rfl : left = row.drop (d.named "exception").length := by
        rw [writeFrom_eq] at hall
        exact (editAll_editNext hall).1
      obtain ⟨first, rest, hsplit, hmarks, hplace⟩ := anchor?_marks d₁.children
      cases hadd : addExceptions inside (anchor? d₁.children)
        (row.drop (d.named "exception").length) d₁.children with
      | mk nodes fault =>
        simp only [andThen, hadd, Prod.mk.injEq] at h
        obtain ⟨rfl, rfl⟩ := h
        generalize anchor? d₁.children = anchor at hadd hmarks
        rw [hsplit] at hadd
        obtain ⟨new, hnew, htext⟩ := addExceptions_eq_none hmarks hadd
        refine ⟨d₁.named "exception", new, hall, hnew, ?_⟩
        have hnamed : Node.named "exception" (new.map Element.toNode) = new :=
          named_map_toNode fun e he => by
            obtain ⟨x, -, hx⟩ := exists_of_forall₂ hnew he
            exact hx.isNamed
        have hfirst : d₁.named "exception" = Node.named "exception" first := by
          have hnone := hplace.no_exception
          rw [Node.named_withoutText] at hnone
          rw [Element.named_eq, hsplit, Node.named_append, hnone, List.append_nil]
        rw [Element.named_eq, ← Node.named_withoutText, htext, Node.named_append, Node.named_append,
          hplace.no_exception, List.append_nil, Node.named_withoutText, hnamed, hfirst]

/-- Written once more, exceptions are where they were put, if the texts of the new ones keep their
prefixes. -/
theorem writeAllExceptions_again (hdefault : inside.resolve? "" = some "")
    (hkeeps : ∀ x ∈ row.drop (d.named "exception").length,
      Content.keepsPrefixes inside x.text = true)
    (h : writeAllExceptions inside row d = (d', none)) :
    writeAllExceptions inside row d' = (d', none) := by
  obtain ⟨written, new, hwritten, hnew, hnamed⟩ := writeAllExceptions_eq_none h
  rw [writeFrom_eq] at hwritten
  obtain ⟨-, hlength, hall⟩ := editAll_editNext hwritten
  have hsame : ∀ p ∈ row.zip (d'.named "exception"),
      writeText inside p.1.text p.2 = (p.2, none) := by
    rw [hnamed, zip_append_right, hlength, List.forall_mem_append]
    constructor
    · intro p hp
      obtain ⟨before, -, hx, hedit⟩ := exists_of_forall₂ hall hp
      rw [hx]
      exact writeText_again inside hedit
    · intro p hp
      exact (List.forall₂_zip hnew hp).rests hdefault (hkeeps _ (List.of_mem_zip hp).1)
  have hleft : row.drop (d'.named "exception").length = [] := by
    have hcount := hnew.length_eq
    rw [List.length_drop] at hcount
    rw [List.drop_eq_nil_iff, hnamed, List.length_append, hlength]
    omega
  have hrun : writeExceptions inside row d' = ([], d', none) := by
    have hnothing : editAll (editNext fun x => writeText inside x.text) row (d'.named "exception") =
        (row.drop (d'.named "exception").length, d'.named "exception", none) :=
      editAll_editNext_same hsame
    rw [writeExceptions_eq, writeFrom_eq]
    exact editChildren_of_editAll "exception" row d' (hleft ▸ hnothing)
  simp only [writeAllExceptions, hrun, andThen, addExceptions]

theorem writeAllExceptions_count (h : writeAllExceptions inside row d = (d', none))
    (hrow : (d.named "exception").length ≤ row.length) :
    (d'.named "exception").length = row.length := by
  obtain ⟨written, new, hwritten, hnew, hnamed⟩ := writeAllExceptions_eq_none h
  rw [writeFrom_eq] at hwritten
  have hlength := (editAll_editNext hwritten).2.1
  have hcount := hnew.length_eq
  rw [List.length_drop] at hcount
  rw [hnamed, List.length_append, hlength, ← hcount]
  omega

end

-- ---------------------------------------------------------------------------
-- Entries
-- ---------------------------------------------------------------------------

/-- The documentation of an entry that has been written: the texts, and the exceptions behind
them. -/
theorem writeDocs_eq_none (h : writeDocs outer fields d = (d', none)) : ∃ d₁,
    writeTextsOf outer fields d = (d₁, none) ∧ d₁.tag = d.tag ∧
    d₁.named "exception" = d.named "exception" ∧
      writeAllExceptions (d.scope outer) fields.exceptions d₁ = (d', none) := by
  rw [writeDocs_of_texts] at h
  obtain ⟨d₁, htexts, hexceptions⟩ := andThen_eq_none _ h
  have htouches := (writeTexts_settles (d.scope outer) fields).touches htexts
  exact ⟨d₁, htexts, htouches.tag, htouches.named (by decide), hexceptions⟩

/-- Documentation that has been written is written already, if the texts of its new exceptions keep
their prefixes. -/
theorem writeDocs_again (hdefault : (d.scope outer).resolve? "" = some "")
    (hkeeps : ∀ x ∈ fields.exceptions.drop (d.named "exception").length,
      Content.keepsPrefixes (d.scope outer) x.text = true)
    (h : writeDocs outer fields d = (d', none)) : writeDocs outer fields d' = (d', none) := by
  obtain ⟨d₁, htexts, htag, hnamed, hexceptions⟩ := writeDocs_eq_none h
  have hextends := (writeAllExceptions_extends (d.scope outer) fields.exceptions d₁).1
  rw [hexceptions] at hextends
  have hscope : d'.scope outer = d.scope outer := by
    rw [Element.scope, hextends.tag, htag, Element.scope]
  have hagain : writeTextsOf outer fields d' = (d', none) := by
    unfold writeTextsOf
    rw [hscope]
    refine (writeTexts_settles (d.scope outer) fields).rests htexts fun name hname =>
      hextends.others name ?_ ?_
    · rw [List.mem_singleton]
      rintro rfl
      exact absurd hname (by decide)
    · rintro rfl
      exact absurd hname (by decide)
  rw [writeDocs_of_texts, hagain, hscope]
  exact writeAllExceptions_again hdefault (hnamed ▸ hkeeps) hexceptions

theorem writeDocs_count (h : writeDocs outer fields d = (d', none))
    (hrow : (d.named "exception").length ≤ fields.exceptions.length) :
    (d'.named "exception").length = fields.exceptions.length := by
  obtain ⟨d₁, -, -, hnamed, hexceptions⟩ := writeDocs_eq_none h
  exact writeAllExceptions_count hexceptions (hnamed ▸ hrow)

end DocMerge.Writing

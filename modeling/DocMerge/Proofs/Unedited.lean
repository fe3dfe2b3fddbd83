import DocMerge.Proofs.Passes
import DocMerge.Proofs.Projection
import Mathlib.Data.List.Nodup

/-!
# What writing leaves alone

A text that an element says already is not written into it, so documentation that is written as it
was read leaves its elements alone, and so does any documentation wherever it says what the elements
say. Elements that share a name are the exception: what was read holds the text of the last of them
alone, and all of them come to say it.
-/

namespace DocMerge.NamedTexts

theorem lookup_foldl_set (pairs : List (String × String)) (texts : NamedTexts) (name : String) :
    (pairs.foldl (fun texts (n, t) => texts.set n t) texts).lookup name =
      ((pairs.filter (·.1 == name)).getLast?.map (·.2)).or (texts.lookup name) := by
  induction pairs using List.reverseRecOn with
  | nil => rfl
  | append_singleton pairs pair ih =>
    rw [List.foldl_append, List.foldl_cons, List.foldl_nil, lookup_set, List.filter_append]
    by_cases hname : pair.1 = name
    · simp [hname]
    · rw [if_neg (Ne.symm hname), ih, List.filter_cons_of_neg (by simpa using hname),
        List.filter_nil, List.append_nil]

theorem lookup_ofList (pairs : List (String × String)) (name : String) :
    (ofList pairs).lookup name = (pairs.filter (·.1 == name)).getLast?.map (·.2) := by
  rw [ofList, lookup_foldl_set, lookup_empty, Option.or_none]

end DocMerge.NamedTexts

namespace DocMerge.Writing

open Content (Edited)
open Xml (Element Node Scope)

-- ---------------------------------------------------------------------------
-- Passes over fields
-- ---------------------------------------------------------------------------

section
variable (inside : Scope) (d : Element)

theorem editFirst_same_iff {edit : Element → Edited} (hedit : ∀ e, (edit e).1.tag = e.tag) :
    editFirst name edit d = (d, none) ↔ ∀ e ∈ d.find? name, edit e = (e, none) := by
  have hfirst : (editAll (firstOnly edit) false (d.named name)).2 = (d.named name, none) ↔
      ∀ e ∈ d.find? name, edit e = (e, none) := by
    rw [editAll_firstOnly, Element.find?]
    cases d.named name with
    | nil => simp
    | cons e rest => simp [Prod.ext_iff]
  rw [← hfirst]
  exact editChildren_same_iff (firstOnly_keepsTags hedit) name false d

def readAs (f : ScalarField) : Element → String :=
  match f with
  | .remarks => Content.remarks inside
  | _ => Content.text inside

def editAs (f : ScalarField) (s : String) : Element → Edited :=
  match f with
  | .remarks => writeRemarks inside s
  | _ => writeText inside s

def writeOne (fields : DocFields) (f : ScalarField) (d : Element) : Edited :=
  match fields.scalar f with
  | some s => editFirst f.toField.name (editAs inside f s) d
  | none => (d, none)

theorem editAs_tag (f : ScalarField) (s : String) (e : Element) :
    (editAs inside f s e).1.tag = e.tag := by
  cases f with
  | remarks => simp only [editAs, writeRemarks_tag]
  | summary | returns | value => simp only [editAs, writeText_tag]

theorem editAs_said (f : ScalarField) (e : Element) :
    editAs inside f (readAs inside f e) e = (e, none) := by
  cases f with
  | remarks => exact writeRemarks_said inside e
  | summary | returns | value => exact writeText_said inside e

theorem writeOne_touches (fields : DocFields) (f : ScalarField) :
    Touches [f.toField.name] d (writeOne inside fields f d).1 := by
  cases h : fields.scalar f with
  | none =>
    simp only [writeOne, h]
    exact .refl _ d
  | some s =>
    simp only [writeOne, h]
    exact editChildren_touches (firstOnly_keepsTags (editAs_tag inside f s)) f.toField.name false d

theorem writeOne_said {fields : DocFields} {f : ScalarField}
    (h : fields.scalar f = (d.find? f.toField.name).map (readAs inside f)) :
    writeOne inside fields f d = (d, none) := by
  cases hfind : d.find? f.toField.name with
  | none => simp only [writeOne, h, hfind, Option.map_none]
  | some first =>
    simp only [writeOne, h, hfind, Option.map_some]
    refine (editFirst_same_iff d (editAs_tag inside f _)).mpr fun e he => ?_
    obtain rfl : first = e := Option.some.inj (hfind.symm.trans he)
    exact editAs_said inside f first

theorem writeNamed_eq (kind : String) (texts : NamedTexts) :
    writeNamed inside kind texts d = (editChildren kind (writeUnder inside texts) () d).2 := rfl

theorem writeNamed_touches (kind : String) (texts : NamedTexts) :
    Touches [kind] d (writeNamed inside kind texts d).1 :=
  editChildren_touches (writeUnder_keepsTags inside texts) kind () d

theorem writeNamed_kept (kind : String) (texts : NamedTexts) :
    List.Forall₂ (fun e e' =>
      (∀ text ∈ texts.lookup (e.value "name"), text = Content.text inside e) → e' = e)
      (d.named kind) ((writeNamed inside kind texts d).1.named kind) := by
  rw [writeNamed_eq, named_editChildren (writeUnder_keepsTags inside texts)]
  refine editAll_forall₂ (fun _ _ => rfl) (fun _ e hsame => ?_) () (d.named kind)
  cases h : texts.lookup (e.value "name") with
  | none => simp only [writeUnder, h]
  | some text =>
    obtain rfl := hsame text h
    simp only [writeUnder, h, writeText_said]

theorem editAll_writeUnder_same (texts : NamedTexts) (es : List Element) :
    (editAll (writeUnder inside texts) () es).2 = (es, none) ↔
      ∀ e ∈ es, ∀ text ∈ texts.lookup (e.value "name"), writeText inside text e = (e, none) := by
  have hfirst : ∀ e, (writeUnder inside texts () e).2 = (e, none) ↔
      ∀ text ∈ texts.lookup (e.value "name"), writeText inside text e = (e, none) := by
    intro e
    cases h : texts.lookup (e.value "name") <;> simp [writeUnder, h]
  induction es with
  | nil => simp [editAll]
  | cons e es ih =>
    rw [List.forall_mem_cons]
    refine Iff.trans ?_ (and_congr (hfirst e) ih)
    cases hrun : writeUnder inside texts () e with
    | mk next edited =>
      obtain ⟨e', fault⟩ := edited
      cases fault with
      | none => simp [editAll, hrun, Prod.ext_iff, and_assoc]
      | some fault => simp [editAll, hrun]

theorem writeNamed_same_iff (kind : String) (texts : NamedTexts) :
    writeNamed inside kind texts d = (d, none) ↔
      ∀ e ∈ d.named kind, ∀ text ∈ texts.lookup (e.value "name"),
      writeText inside text e = (e, none) := by
  rw [writeNamed_eq, ← editAll_writeUnder_same]
  exact editChildren_same_iff (writeUnder_keepsTags inside texts) kind () d

end

-- ---------------------------------------------------------------------------
-- Exceptions
-- ---------------------------------------------------------------------------

section
variable (inside : Scope)

theorem writeExceptions_eq (exceptions : List ExceptionDoc) (d : Element) :
    writeExceptions inside exceptions d = editChildren "exception"
      (writeFrom inside) exceptions d := rfl

/-- Elements of exceptions, each of which stays in its place as it was unless the exception there
has another text. -/
def KeepsSaid (exceptions : List ExceptionDoc) (es es' : List Element) : Prop :=
  ∀ (i : Nat) (e : Element), es[i]? = some e →
  (∀ x ∈ exceptions[i]?, x.text = Content.text inside e) → es'[i]? = some e

theorem editAll_writeFrom_kept (exceptions : List ExceptionDoc) (es : List Element) :
    KeepsSaid inside exceptions es (editAll (writeFrom inside) exceptions es).2.1 := by
  intro i e he hsame
  induction es generalizing exceptions i with
  | nil => simp at he
  | cons first es ih =>
    cases hrun : writeFrom inside exceptions first with
    | mk left edited =>
      obtain ⟨first', fault⟩ := edited
      cases i with
      | zero =>
        obtain rfl : first = e := by simpa using he
        -- The element is the one that is edited now, and its text is what is to be written.
        have hrest : writeFrom inside exceptions first = (exceptions.tail, first, none) := by
          cases exceptions with
          | nil => rfl
          | cons x rest =>
            have htext : x.text = Content.text inside first := hsame x rfl
            simp only [writeFrom, htext, writeText_said, List.tail_cons]
        simp only [editAll, hrest, List.getElem?_cons_zero]
      | succ i =>
        have hnext : es[i]? = some e := by simpa using he
        cases fault with
        | none =>
          have hleft : left = exceptions.tail := by
            cases exceptions <;> simp only [writeFrom, Prod.mk.injEq] at hrun <;> exact hrun.1.symm
          simp only [editAll, hrun, List.getElem?_cons_succ]
          refine ih left i hnext ?_
          rw [hleft, List.getElem?_tail]
          exact hsame
        | some fault => simpa only [editAll, hrun, List.getElem?_cons_succ] using hnext

theorem editAll_writeFrom_said (es : List Element) :
    editAll (writeFrom inside) (es.map fun e => ⟨e.value "cref", Content.text inside e⟩) es =
    ([], es, none) := by
  induction es with
  | nil => rfl
  | cons e es ih => simp only [List.map_cons, editAll, writeFrom, writeText_said, ih]

theorem exceptionElement_adopted (h : exceptionElement x = .ok e) :
    (e.toNode.adopt inside []).isNamed "exception" = true := by
  have htag : e.tag = exceptionTag x.cref := by
    unfold exceptionElement at h
    dsimp only at h
    split at h
    · cases h
    · have hkept := setInner_tag [] x.text { tag := exceptionTag x.cref, children := [] }
      simp only [exceptionTag] at hkept
      split at h
      · rename_i hset
        rw [hset] at hkept
        cases h
        exact hkept
      · cases h
  simp only [Element.toNode, Node.adopt, Node.isNamed, htag]
  rfl

theorem addExceptions_places (h : Marks anchor first rest) (added : List ExceptionDoc) :
    ∃ new, Node.withoutText (addExceptions inside anchor added (first ++ rest)).1 =
        Node.withoutText first ++ new ++ Node.withoutText rest ∧ ∀ n ∈ new,
        Node.isNamed "exception" n = true := by
  induction added generalizing anchor first rest with
  | nil => exact ⟨[], by simp [addExceptions], by simp⟩
  | cons x added ih =>
    cases hnew : exceptionElement x with
    | error fault => exact ⟨[], by simp [addExceptions, hnew], by simp⟩
    | ok e =>
      have hname := exceptionElement_adopted inside hnew
      obtain ⟨first', rest', hinsert, hfirst, hrest⟩ := insertAt_marks h (e.toNode.adopt inside [])
      obtain ⟨new, htext, hall⟩ := ih (.behind first' (e.toNode.adopt inside []) rest')
      refine ⟨e.toNode.adopt inside [] :: new, ?_, List.forall_mem_cons.mpr ⟨hname, hall⟩⟩
      have hone : Node.withoutText [e.toNode.adopt inside []] = [e.toNode.adopt inside []] :=
        Node.withoutText_cons (Node.isText_of_isNamed hname) []
      simp only [addExceptions, hnew, hinsert, htext, Node.withoutText_append, hfirst, hrest, hone]
      simp

theorem Touched.isText_eq (h : Touched names n n') : n'.isText = n.isText := by
  obtain rfl | ⟨e, children, rfl, rfl, -⟩ := h <;> rfl

theorem withoutText_touched {nodes nodes' : List Node}
    (h : List.Forall₂ (Touched names) nodes nodes') :
    List.Forall₂ (Touched names) (Node.withoutText nodes) (Node.withoutText nodes') :=
  List.rel_filter (fun _ _ htouched => by simp [htouched.isText_eq]) h

structure Extends (names : List String) (d d' : Element) : Prop where
  tag : d'.tag = d.tag
  others : ∀ name ∉ names, name ≠ "exception" → d'.named name = d.named name
  children : ∃ before new behind, Node.withoutText d'.children = before ++ new ++ behind ∧
    (∀ n ∈ new, Node.isNamed "exception" n = true) ∧
    List.Forall₂ (Touched names) (Node.withoutText d.children) (before ++ behind)

theorem Touches.extends (h : Touches names d d') : Extends names d d' where
  tag := h.tag
  others _ hother _ := h.named hother
  children := ⟨Node.withoutText d'.children, [],
    [], by simp, by simp, by simpa using withoutText_touched h.children⟩

theorem Touches.trans_extends (h : Touches names d d') (h' : Extends names d' d'') :
    Extends names d d'' where
  tag := h'.tag.trans h.tag
  others name hother hne := (h'.others name hother hne).trans (h.named hother)
  children := by
    obtain ⟨before, new, behind, hnodes, hnew, hkept⟩ := h'.children
    exact ⟨before, new, behind, hnodes, hnew,
      forall₂_trans (fun _ _ _ hfirst hsecond => hfirst.trans hsecond)
        (withoutText_touched h.children) hkept⟩

theorem addExceptions_extends (added : List ExceptionDoc) (d : Element) :
    Extends [] d { d with children :=
      (addExceptions inside (anchor? d.children) added d.children).1 } ∧
      d.named "exception" <+:
        Node.named "exception" (addExceptions inside (anchor? d.children) added d.children).1 := by
  obtain ⟨first, rest, hsplit, hmarks, hplace⟩ := anchor?_marks d.children
  obtain ⟨new, htext, hnew⟩ := addExceptions_places inside hmarks added
  rw [← hsplit] at htext
  have hnamed : ∀ name,
      Node.named name (addExceptions inside (anchor? d.children) added d.children).1 =
      Node.named name first ++ Node.named name new ++ Node.named name rest := by
    intro name
    rw [← Node.named_withoutText, htext, Node.named_append, Node.named_append,
      Node.named_withoutText, Node.named_withoutText]
  have hbefore : ∀ name, d.named name = Node.named name first ++ Node.named name rest := by
    intro name
    rw [Element.named_eq, hsplit, Node.named_append]
  refine ⟨⟨rfl, fun name _ hne => ?_, _, new, _, htext, hnew, ?_⟩, ?_⟩
  · have hnone : Node.named name new = [] := by
      refine Node.named_eq_nil fun n hn => ?_
      rcases Node.isNamed_cases name n with hnot | ⟨e, rfl, he⟩
      · exact hnot
      · exact absurd (Xml.Name.is_unique he (hnew _ hn)) hne
    rw [Element.named_eq, hnamed, hbefore, hnone, List.append_nil]
  · rw [← Node.withoutText_append, ← hsplit]
    exact List.forall₂_same.mpr fun _ _ => .inl rfl
  · have hnone := hplace.no_exception
    rw [Node.named_withoutText] at hnone
    rw [hnamed, hbefore, hnone, List.append_nil, List.append_nil]
    exact List.prefix_append _ _

theorem writeAllExceptions_extends (written : List ExceptionDoc) (d : Element) :
    Extends ["exception"] d (writeAllExceptions inside written d).1 ∧
      KeepsSaid inside written (d.named "exception")
        ((writeAllExceptions inside written d).1.named "exception") := by
  have htouches := editChildren_touches (writeFrom_keepsTags inside) "exception" written d
  have hkept : KeepsSaid inside written (d.named "exception")
      ((writeExceptions inside written d).2.1.named "exception") := by
    rw [writeExceptions_eq, named_editChildren (writeFrom_keepsTags inside)]
    exact editAll_writeFrom_kept inside written (d.named "exception")
  rw [← writeExceptions_eq] at htouches
  rw [writeAllExceptions]
  cases hrun : writeExceptions inside written d with
  | mk left edited =>
    obtain ⟨d', fault⟩ := edited
    rw [hrun] at htouches hkept
    cases fault with
    | some fault => exact ⟨htouches.extends, hkept⟩
    | none =>
      obtain ⟨hextends, hprefix⟩ := addExceptions_extends inside left d'
      refine ⟨htouches.trans_extends ⟨hextends.tag, fun name _ => hextends.others name (by simp),
        ?_⟩, fun i e he hsame => ?_⟩
      · obtain ⟨before, new, behind, hnodes, hnew, hchildren⟩ := hextends.children
        exact ⟨before, new, behind, hnodes, hnew, hchildren.imp fun _ _ htouched =>
          htouched.mono (by simp)⟩
      · obtain ⟨more, hmore⟩ := hprefix
        have hstays : (d'.named "exception" ++ more)[i]? = (d'.named "exception")[i]? :=
          List.getElem?_append_left (List.getElem?_eq_some_iff.mp (hkept i e he hsame)).1
        rw [hmore] at hstays
        exact hstays.trans (hkept i e he hsame)

end

-- ---------------------------------------------------------------------------
-- Documentation that is written as it was read
-- ---------------------------------------------------------------------------

/-- What edits leave, whether or not a fault has ended them: they touch the children with the names
of goals, for which these hold. -/
def Leaves (goals : List Goal) (d : Element) (edited : Edited) : Prop :=
  Touches (goals.map (·.name)) d edited.1 ∧ ∀ goal ∈ goals, goal.holds (edited.1.named goal.name)

theorem Leaves.nil (d : Element) : Leaves [] d (d, none) := ⟨.refl [] d, by simp⟩

/-- A pass for another name leaves what the passes before it have left. Its own goal has to hold of
the elements as they were, since a fault may have kept it from being made. -/
theorem Leaves.andThen (h : Leaves goals d edited) (goal : Goal)
    (hnew : goal.name ∉ goals.map (·.name))
    (hstart : goal.holds (d.named goal.name))
    (hnext : ∀ d', d'.named goal.name = d.named goal.name →
      Touches [goal.name] d' (next d').1 ∧ goal.holds ((next d').1.named goal.name)) :
    Leaves (goal :: goals) d (andThen edited next) := by
  obtain ⟨d', fault⟩ := edited
  obtain ⟨htouches, hholds⟩ := h
  have hsame : d'.named goal.name = d.named goal.name := htouches.named hnew
  cases fault with
  | some fault =>
    refine ⟨htouches.mono (by simp), List.forall_mem_cons.mpr ⟨?_, hholds⟩⟩
    exact hsame ▸ hstart
  | none =>
    obtain ⟨htouches', hgoal⟩ := hnext d' hsame
    refine ⟨(htouches.mono (by simp)).trans (htouches'.mono (by simp)),
      List.forall_mem_cons.mpr ⟨hgoal, fun other hother => ?_⟩⟩
    have hne : other.name ∉ [goal.name] := fun heq =>
      hnew (List.mem_singleton.mp heq ▸ List.mem_map_of_mem hother)
    have hstays : (next d').1.named other.name = d'.named other.name := htouches'.named hne
    exact hstays ▸ hholds other hother

section
variable (outer : Scope) (fields : DocFields) (d : Element)

def keptScalar (f : ScalarField) : Goal where
  name := f.toField.name
  holds es := fields.scalar f = (DocFields.ofDocs outer d).scalar f → es = d.named f.toField.name

def keptNamed (f : NamedField) : Goal where
  name := f.toField.name
  holds es := List.Forall₂ (fun e e' => (∀ text ∈ (fields.named f).lookup (e.value "name"),
    text = Content.text (d.scope outer) e) → e' = e) (d.named f.toField.name) es

def writeTextsOf : Edited :=
  let inside := d.scope outer
  let edited := writeOne inside fields .summary d
  let edited := andThen edited (writeOne inside fields .returns)
  let edited := andThen edited (writeOne inside fields .value)
  let edited := andThen edited (writeOne inside fields .remarks)
  let edited := andThen edited (writeNamed inside "param" fields.params)
  andThen edited (writeNamed inside "typeparam" fields.typeparams)

theorem writeDocs_of_texts : writeDocs outer fields d =
    andThen (writeTextsOf outer fields d) (writeAllExceptions (d.scope outer) fields.exceptions) :=
  rfl

theorem scalar_read (f : ScalarField) : (DocFields.ofDocs outer d).scalar f =
    (d.find? f.toField.name).map (readAs (d.scope outer) f) := by
  cases f <;> rfl

theorem writeOne_keeps (f : ScalarField) (d' : Element)
    (hsame : d'.named f.toField.name = d.named f.toField.name) :
    Touches [f.toField.name] d' (writeOne (d.scope outer) fields f d').1 ∧
      (keptScalar outer fields d f).holds
        ((writeOne (d.scope outer) fields f d').1.named f.toField.name) := by
  refine ⟨writeOne_touches (d.scope outer) d' fields f, fun hunedited => ?_⟩
  have hsaid : fields.scalar f = (d'.find? f.toField.name).map (readAs (d.scope outer) f) := by
    rw [hunedited, scalar_read, Element.find?, Element.find?, hsame]
  rw [writeOne_said (d.scope outer) d' hsaid, hsame]

theorem writeNamed_keeps (f : NamedField) (d' : Element)
    (hsame : d'.named f.toField.name = d.named f.toField.name) :
    Touches [f.toField.name] d' (writeNamed (d.scope outer) f.toField.name (fields.named f) d').1 ∧
      (keptNamed outer fields d f).holds
        ((writeNamed (d.scope outer) f.toField.name (fields.named f) d').1.named
          f.toField.name) := by
  refine ⟨writeNamed_touches (d.scope outer) d' f.toField.name (fields.named f), ?_⟩
  have hkept := writeNamed_kept (d.scope outer) d' f.toField.name (fields.named f)
  rwa [hsame] at hkept

theorem writeTextsOf_leaves :
    Leaves [keptNamed outer fields d .typeparam, keptNamed outer fields d .param,
      keptScalar outer fields d .remarks,
      keptScalar outer fields d .value, keptScalar outer fields d .returns,
      keptScalar outer fields d .summary] d
      (writeTextsOf outer fields d) := by
  have hscalar : ∀ f : ScalarField,
      (keptScalar outer fields d f).holds (d.named f.toField.name) := fun _ _ => rfl
  have hnamed : ∀ f : NamedField, (keptNamed outer fields d f).holds (d.named f.toField.name) :=
    fun f => List.forall₂_same.mpr fun _ _ _ => rfl
  have hsummary : Leaves [keptScalar outer fields d .summary] d
      (writeOne (d.scope outer) fields .summary d) :=
    (Leaves.nil d).andThen (keptScalar outer fields d .summary) (by simp) (hscalar .summary)
      (writeOne_keeps outer fields d .summary)
  have hreturns := hsummary.andThen (keptScalar outer fields d .returns)
    (show "returns" ∉ ["summary"] by decide)
    (hscalar .returns) (writeOne_keeps outer fields d .returns)
  have hvalue := hreturns.andThen (keptScalar outer fields d .value)
    (show "value" ∉ ["returns", "summary"] by decide)
    (hscalar .value) (writeOne_keeps outer fields d .value)
  have hremarks := hvalue.andThen (keptScalar outer fields d .remarks)
    (show "remarks" ∉ ["value", "returns", "summary"] by decide) (hscalar .remarks)
      (writeOne_keeps outer fields d .remarks)
  have hparams := hremarks.andThen (keptNamed outer fields d .param)
    (show "param" ∉ ["remarks", "value", "returns", "summary"] by decide) (hnamed .param)
      (writeNamed_keeps outer fields d .param)
  exact hparams.andThen (keptNamed outer fields d .typeparam)
    (show "typeparam" ∉ ["param", "remarks", "value", "returns", "summary"] by decide)
      (hnamed .typeparam)
    (writeNamed_keeps outer fields d .typeparam)

structure KeepsUnedited (d' : Element) : Prop where
  tag : d'.tag = d.tag
  scalar : ∀ f : ScalarField, fields.scalar f = (DocFields.ofDocs outer d).scalar f →
    d'.named f.toField.name = d.named f.toField.name
  named : ∀ f : NamedField,
    List.Forall₂ (fun e e' => (∀ text ∈ (fields.named f).lookup (e.value "name"),
    text = Content.text (d.scope outer) e) → e' = e) (d.named f.toField.name)
      (d'.named f.toField.name)
  exceptions : KeepsSaid (d.scope outer) fields.exceptions (d.named "exception")
    (d'.named "exception")
  /-- All other children are the same, in the same order, and what is new are exceptions in one
  place. -/
  children : ∃ before new behind, Node.withoutText d'.children = before ++ new ++ behind ∧
    (∀ n ∈ new, Node.isNamed "exception" n = true) ∧
    List.Forall₂ (Touched fieldNames) (Node.withoutText d.children) (before ++ behind)

theorem writeDocs_extends :
    ∃ d₁, Touches ["typeparam", "param", "remarks", "value", "returns", "summary"] d d₁ ∧
    (∀ f, (keptScalar outer fields d f).holds (d₁.named f.toField.name)) ∧
    (∀ f, (keptNamed outer fields d f).holds (d₁.named f.toField.name)) ∧
    Extends ["exception"] d₁ (writeDocs outer fields d).1 ∧
    KeepsSaid (d.scope outer) fields.exceptions (d₁.named "exception")
      ((writeDocs outer fields d).1.named "exception") := by
  obtain ⟨htouches, hholds⟩ := writeTextsOf_leaves outer fields d
  refine ⟨(writeTextsOf outer fields d).1, htouches, fun f =>
    hholds (keptScalar outer fields d f) (by cases f <;> simp),
    fun f => hholds (keptNamed outer fields d f) (by cases f <;> simp), ?_⟩
  rw [writeDocs_of_texts]
  cases hrun : writeTextsOf outer fields d with
  | mk d₁ fault =>
    cases fault with
    | some fault => exact ⟨(Touches.refl ["exception"] d₁).extends, fun _ _ he _ => he⟩
    | none => exact writeAllExceptions_extends (d.scope outer) fields.exceptions d₁

theorem writeDocs_keepsUnedited : KeepsUnedited outer fields d (writeDocs outer fields d).1 := by
  obtain ⟨d₁, htouches, hscalar, hnamed, hextends, hexceptions⟩ := writeDocs_extends outer fields d
  have hlast : ∀ name ≠ "exception", (writeDocs outer fields d).1.named name = d₁.named name :=
    fun name hne => hextends.others name (by simpa using hne) hne
  refine ⟨hextends.tag.trans htouches.tag, fun f hunedited => ?_, fun f => ?_, ?_, ?_⟩
  · rw [hlast _ (by cases f <;> decide)]
    exact hscalar f hunedited
  · rw [hlast _ (by cases f <;> decide)]
    exact hnamed f
  · rwa [htouches.named (by decide)] at hexceptions
  · have hboth : Extends fieldNames d (writeDocs outer fields d).1 := by
      refine (htouches.mono (by decide)).trans_extends
        ⟨hextends.tag, fun name hother hne => hlast name hne, ?_⟩
      obtain ⟨before, new, behind, hnodes, hnew, hkept⟩ := hextends.children
      exact ⟨before, new, behind, hnodes, hnew, hkept.imp fun _ _ htouched =>
        htouched.mono (by decide)⟩
    exact hboth.children

-- ---------------------------------------------------------------------------
-- Elements that share a name
-- ---------------------------------------------------------------------------

def lastNamesake? (es : List Element) (e : Element) : Option Element :=
  (es.filter (·.value "name" == e.value "name")).getLast?

/-- Whether each element says what the last of its namesakes says, or consists already of what
writing that text makes of it. -/
def NamesakesAgree : Prop :=
  ∀ f : NamedField, ∀ e ∈ d.named f.toField.name, ∀ last ∈ lastNamesake? (d.named f.toField.name) e,
    Content.text (d.scope outer) last = Content.text (d.scope outer) e ∨
      Content.setInner (d.scope outer) e (Content.text (d.scope outer) last) = (e, none)

theorem namesakesAgree_of_distinct
    (h : ∀ f : NamedField, ((d.named f.toField.name).map (·.value "name")).Nodup) :
    NamesakesAgree outer d := by
  intro f e he last hlast
  obtain ⟨hmem, hname⟩ := List.mem_filter.mp (List.mem_of_getLast? hlast)
  exact .inl (congrArg _ (List.inj_on_of_nodup_map (h f) hmem he (by simpa using hname)))

theorem lookup_namedTexts (inside : Scope) (kind name : String) :
    (NamedTexts.ofList (DocFields.namedTexts d kind inside)).lookup name =
      ((d.named kind).filter (·.value "name" == name)).getLast?.map (Content.text inside) := by
  rw [NamedTexts.lookup_ofList, DocFields.namedTexts, List.filter_map,
    List.getLast?_map, Option.map_map]
  rfl

theorem writeNamed_read_iff (f : NamedField) :
    writeNamed (d.scope outer) f.toField.name ((DocFields.ofDocs outer d).named f) d = (d, none) ↔
      ∀ e ∈ d.named f.toField.name, ∀ last ∈ lastNamesake? (d.named f.toField.name) e,
        Content.text (d.scope outer) last = Content.text (d.scope outer) e ∨
          Content.setInner (d.scope outer) e (Content.text (d.scope outer) last) = (e, none) := by
  have hnamed : (DocFields.ofDocs outer d).named f =
      NamedTexts.ofList (DocFields.namedTexts d f.toField.name (d.scope outer)) := by
    cases f <;> rfl
  have hwrite : ∀ (text : String) (e : Element), writeText (d.scope outer) text e = (e, none) ↔
      text = Content.text (d.scope outer) e ∨
      Content.setInner (d.scope outer) e text = (e, none) := by
    intro text e
    by_cases hsame : Content.text (d.scope outer) e = text
    · simp [writeText, hsame]
    · simp [writeText, hsame, Ne.symm hsame]
  rw [writeNamed_same_iff, hnamed]
  simp only [lookup_namedTexts, lastNamesake?, Option.mem_def, Option.map_eq_some_iff,
    forall_exists_index, and_imp,
    forall_apply_eq_imp_iff₂, hwrite]

theorem exceptions_read :
    writeAllExceptions (d.scope outer) (DocFields.ofDocs outer d).exceptions d = (d, none) := by
  have hrun : writeExceptions (d.scope outer) (DocFields.ofDocs outer d).exceptions d =
      ([], d, none) := by
    rw [writeExceptions_eq]
    exact editChildren_of_editAll "exception" _ d
      (editAll_writeFrom_said (d.scope outer) (d.named "exception"))
  simp only [writeAllExceptions, hrun, andThen, addExceptions]

/-- Of documentation that is written as it was read, only names are left to be written. -/
theorem writeDocs_read : writeDocs outer (DocFields.ofDocs outer d) d =
    andThen (andThen (writeNamed (d.scope outer) "param" (DocFields.ofDocs outer d).params d)
      (writeNamed (d.scope outer) "typeparam" (DocFields.ofDocs outer d).typeparams))
      (writeAllExceptions (d.scope outer) (DocFields.ofDocs outer d).exceptions) := by
  have hsaid : ∀ f, writeOne (d.scope outer) (DocFields.ofDocs outer d) f d = (d, none) :=
    fun f => writeOne_said (d.scope outer) d (scalar_read outer d f)
  simp only [writeDocs_of_texts, writeTextsOf, hsaid, andThen]

theorem andThen_eq_none (h : andThen edited next = (d, none)) :
    ∃ d', edited = (d', none) ∧ next d' = (d, none) := by
  obtain ⟨d', fault⟩ := edited
  cases fault with
  | none => exact ⟨d', rfl, h⟩
  | some fault => cases h

theorem writeNamed_same {d' : Element} (f : NamedField) {texts : NamedTexts}
    (hrun : writeNamed (d.scope outer) f.toField.name texts d = (d', none))
    (hsame : d'.named f.toField.name = d.named f.toField.name) : d' = d := by
  rw [writeNamed_eq] at hrun
  have hkept := editChildren_same (writeUnder_keepsTags (d.scope outer) texts) f.toField.name () d
  rw [hrun] at hkept
  exact hkept hsame

theorem writeDocs_read_iff : writeDocs outer (DocFields.ofDocs outer d) d = (d, none) ↔
    NamesakesAgree outer d := by
  have hparams := writeNamed_read_iff outer d .param
  have htypeparams := writeNamed_read_iff outer d .typeparam
  have hagree : NamesakesAgree outer d ↔
      writeNamed (d.scope outer) "param" (DocFields.ofDocs outer d).params d = (d, none) ∧
        writeNamed (d.scope outer) "typeparam"
          (DocFields.ofDocs outer d).typeparams d = (d, none) := by
    constructor
    · exact fun h => ⟨hparams.mpr (h .param), htypeparams.mpr (h .typeparam)⟩
    · rintro ⟨hparam, htypeparam⟩ f
      cases f with
      | param => exact hparams.mp hparam
      | typeparam => exact htypeparams.mp htypeparam
  rw [hagree, writeDocs_read]
  constructor
  · intro h
    obtain ⟨d₂, hboth, hlast⟩ := andThen_eq_none d h
    obtain ⟨d₁, hfirst, hsecond⟩ := andThen_eq_none d₂ hboth
    -- No later pass touches the elements of an earlier one, so each has left them as they were.
    have hextends := (writeAllExceptions_extends (d.scope outer)
      (DocFields.ofDocs outer d).exceptions d₂).1
    have htouches := writeNamed_touches (d.scope outer) d₁ "typeparam"
      (DocFields.ofDocs outer d).typeparams
    rw [hlast] at hextends
    rw [hsecond] at htouches
    have hparam : d₁.named "param" = d.named "param" := by
      rw [hextends.others "param" (by decide) (by decide), htouches.named (by decide)]
    obtain rfl := writeNamed_same outer d .param hfirst hparam
    have htypeparam : d₂.named "typeparam" = d₁.named "typeparam" :=
      (hextends.others "typeparam" (by decide) (by decide)).symm
    obtain rfl := writeNamed_same outer d₁ .typeparam hsecond htypeparam
    exact ⟨hfirst, hsecond⟩
  · rintro ⟨hparam, htypeparam⟩
    simp only [hparam, htypeparam, andThen, exceptions_read]

theorem writeDocs_tag : (writeDocs outer fields d).1.tag = d.tag :=
  (writeDocs_keepsUnedited outer fields d).tag

end

/-- An entry that counts as changed is left alone where its documentation is as it was read. -/
theorem writeEntry_read_iff (outer : Scope) (holder : Element) (node : ApiNode) :
    writeEntry outer
        { node, docs := { DocFields.ofDocs? (holder.scope outer)
          (holder.find? "Docs") with changed := true } } holder =
      (holder, none) ↔ ∀ d ∈ holder.find? "Docs", NamesakesAgree (holder.scope outer) d := by
  rw [writeEntry, if_pos rfl, editFirst_same_iff holder fun d =>
    writeDocs_tag (holder.scope outer) _ d]
  refine forall₂_congr fun d hd => ?_
  rw [← writeDocs_read_iff, show holder.find? "Docs" = some d from hd]
  rfl

/-- Documentation that is written as it was read stays as it is exactly if namesakes agree, which
those with names of their own do; so an entry that counts as changed although none of its texts are
is left alone. Whatever is written, all that fields say as the elements do keeps its markup. -/
theorem writeDocs_unedited (outer : Scope) (holder : Element) (node : ApiNode) :
    (writeEntry outer
        { node, docs := { DocFields.ofDocs? (holder.scope outer)
          (holder.find? "Docs") with changed := true } } holder =
          (holder, none) ↔ ∀ d ∈ holder.find? "Docs", NamesakesAgree (holder.scope outer) d) ∧
      ∀ d : Element, (writeDocs outer (DocFields.ofDocs outer d) d = (d, none) ↔
        NamesakesAgree outer d) ∧
        ((∀ f : NamedField, ((d.named f.toField.name).map (·.value "name")).Nodup) →
          NamesakesAgree outer d) ∧
        ∀ fields, KeepsUnedited outer fields d (writeDocs outer fields d).1 := by
  refine ⟨writeEntry_read_iff outer holder node, fun d =>
    ⟨writeDocs_read_iff outer d, ?_, fun fields => ?_⟩⟩
  · exact namesakesAgree_of_distinct outer d
  · exact writeDocs_keepsUnedited outer fields d

def namesakes : Element where
  tag := { name := Xml.Name.plain "Docs" }
  children := [elementOf "param" [.plain "name" "item"] "First.",
    elementOf "param" [.plain "name" "item"] "Second.",
    elementOf "summary" [] "Last in."]

/-- The text of the second parameter is written over that of the first, although neither has been
edited. -/
theorem namesakes_overwritten :
    (writeDocs [] (DocFields.ofDocs [] namesakes) namesakes).2 = none ∧
      (namesakes.named "param").map (Content.text []) = ["First.", "Second."] ∧
      ((writeDocs [] (DocFields.ofDocs [] namesakes) namesakes).1.named "param").map
        (Content.text []) =
        ["Second.", "Second."] ∧
      ¬ ∀ d, writeDocs [] (DocFields.ofDocs [] d) d = (d, none) := by
  have hbefore : (namesakes.named "param").map (Content.text []) =
      ["First.", "Second."] := by decide
  have hafter : ((writeDocs [] (DocFields.ofDocs [] namesakes) namesakes).1.named "param").map
      (Content.text []) =
      ["Second.", "Second."] := by decide
  refine ⟨by decide, hbefore, hafter, fun hall => ?_⟩
  rw [hall namesakes, hbefore] at hafter
  exact absurd hafter (by decide)

end DocMerge.Writing

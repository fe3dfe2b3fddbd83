import DocMerge.Proofs.Namespaces
import DocMerge.Proofs.Resting

/-!
# Files that are written twice

Writing a type into its file changes the tree that the next writing starts from. Every entry that
has changed is written in its place, and what one writing leaves there is what the other finds; so
the second one gives the same text as the first, as long as no new exception declares one of the
prefixes around it for something else.
-/

namespace DocMerge.Writing

open Content (Edited)
open Xml (Element Node Scope)

-- ---------------------------------------------------------------------------
-- Places
-- ---------------------------------------------------------------------------

/-- Where the documentation of an entry goes: the element for it, if there is one, and the
declarations in force around it. -/
structure Place where
  fields : DocFields
  around : Scope
  docs : Option Element

def Place.of (entry : Entry) (held : Scope × Element) : Place where
  fields := entry.docs
  around := held.2.scope held.1
  docs := held.2.find? "Docs"

def placesOf (entries : List Entry) (held : List (Scope × Element)) : List Place :=
  (entries.zip held).map fun p => .of p.1 p.2

def places (type : ApiType) (root : Element) : List Place :=
  placesOf (type.entry :: type.members) (([], root) :: ApiType.memberElements root)

structure Place.Becomes (p p' : Place) : Prop where
  fields : p'.fields = p.fields
  around : p'.around = p.around
  docs : p.fields.changed = true →
    Option.Rel (fun d d' => writeDocs p.around p.fields d = (d', none)) p.docs p'.docs

def Place.IsWritten (p : Place) : Prop :=
  p.fields.changed = true → ∀ d ∈ p.docs, writeDocs p.around p.fields d = (d, none)

theorem placesOf_append (entries : List Entry) (held more : List (Scope × Element)) :
    placesOf entries (held ++ more) = placesOf entries held ++
    placesOf (entries.drop held.length) more := by
  rw [placesOf, zip_append_right, List.map_append, placesOf, placesOf]

-- ---------------------------------------------------------------------------
-- Entries
-- ---------------------------------------------------------------------------

theorem editFirst_eq_none {edit : Element → Edited} (hedit : ∀ e, (edit e).1.tag = e.tag)
    (h : editFirst name edit e = (e', none)) :
    Touches [name] e e' ∧
    Option.Rel (fun d d' => edit d = (d', none)) (e.find? name) (e'.find? name) := by
  have htags := firstOnly_keepsTags hedit
  have htouches := editChildren_touches htags name false e
  have hsame : (editChildren name (firstOnly edit) false e).2.1 = e' := congrArg Prod.fst h
  rw [hsame] at htouches
  refine ⟨htouches, ?_⟩
  have hfirst := congrArg Prod.snd (editChildren_eq_none htags (Prod.ext rfl h))
  rw [editAll_firstOnly] at hfirst
  rw [Element.find?, Element.find?]
  cases hnamed : e.named name with
  | nil =>
    simp only [hnamed, Prod.mk.injEq, and_true] at hfirst
    rw [← hfirst]
    exact .none
  | cons d rest =>
    simp only [hnamed, Prod.mk.injEq] at hfirst
    rw [← hfirst.1]
    exact .some (Prod.ext rfl hfirst.2)

theorem writeEntry_eq_none (h : writeEntry outer entry e = (e', none)) :
    Touches ["Docs"] e e' ∧ (Place.of entry (outer, e)).Becomes (.of entry (outer, e')) := by
  unfold writeEntry at h
  split at h
  · obtain ⟨htouches, hdocs⟩ :=
      editFirst_eq_none (fun d => writeDocs_tag (e.scope outer) entry.docs d) h
    refine ⟨htouches, rfl, ?_, fun _ => hdocs⟩
    simp only [Place.of, Element.scope, htouches.tag]
  · rename_i hunchanged
    obtain rfl : e = e' := congrArg Prod.fst h
    exact ⟨.refl _ _, rfl, rfl, fun hchanged => absurd hchanged hunchanged⟩

theorem writeEntry_same (h : (Place.of entry (outer, e)).IsWritten) :
    writeEntry outer entry e = (e, none) := by
  unfold writeEntry
  split
  · rename_i hchanged
    exact (editFirst_same_iff e fun d =>
      writeDocs_tag (e.scope outer) entry.docs d).mpr (h hchanged)
  · rfl

theorem writeEntry_tag (outer : Scope) (entry : Entry) (e : Element) :
    (writeEntry outer entry e).1.tag = e.tag := by
  unfold writeEntry
  split
  · have htags := firstOnly_keepsTags fun d => writeDocs_tag (e.scope outer) entry.docs d
    exact (editChildren_touches htags "Docs" false e).tag
  · rfl

-- ---------------------------------------------------------------------------
-- Members
-- ---------------------------------------------------------------------------

theorem editNext_keepsTags {edit : α → Element → Edited} (h : ∀ x e, (edit x e).1.tag = e.tag) :
    KeepsTags (editNext edit) := by
  intro left e
  cases left with
  | nil => rfl
  | cons x left => exact h x e

theorem writeMembers_eq (outer : Scope) (members : List Entry) (holder : Element) :
    writeMembers outer members holder =
      editChildren "Member" (editNext (writeEntry (holder.scope outer))) members holder := by
  rw [writeMembers]
  congr 1
  funext left e
  cases left <;> rfl

theorem writeMembers_keepsTags (outer : Scope) : KeepsTags (writeMembers outer) := by
  intro members holder
  rw [writeMembers_eq]
  exact (editChildren_touches (editNext_keepsTags (writeEntry_tag _)) "Member" members holder).tag

def heldBy (outer : Scope) (holder : Element) : List (Scope × Element) :=
  (holder.named "Member").map fun e => (holder.scope outer, e)

theorem memberElements_eq (root : Element) :
    ApiType.memberElements root = (root.named "Members").flatMap (heldBy (root.scope [])) := rfl

theorem placesOf_heldBy (members : List Entry) (outer : Scope) (holder : Element) :
    placesOf members (heldBy outer holder) =
      (members.zip (holder.named "Member")).map fun p => .of p.1 (holder.scope outer, p.2) := by
  rw [placesOf, heldBy, List.zip_map_right, List.map_map]
  rfl

theorem writeMembers_eq_none (h : writeMembers outer members holder = (left, holder', none)) :
    left = members.drop (heldBy outer holder).length ∧
      (heldBy outer holder').length = (heldBy outer holder).length ∧
      List.Forall₂ Place.Becomes (placesOf members (heldBy outer holder))
        (placesOf members (heldBy outer holder')) := by
  have htag : holder'.tag = holder.tag := by
    have hkept := writeMembers_keepsTags outer members holder
    rwa [h] at hkept
  have hscope : holder'.scope outer = holder.scope outer := by
    rw [Element.scope, htag, Element.scope]
  rw [writeMembers_eq] at h
  obtain ⟨hleft, hlength, hall⟩ :=
    editAll_editNext (editChildren_eq_none (editNext_keepsTags (writeEntry_tag _)) h)
  rw [placesOf_heldBy, placesOf_heldBy, hscope, heldBy, heldBy, List.length_map, List.length_map]
  refine ⟨hleft, hlength, ?_⟩
  rw [List.forall₂_map_left_iff, List.forall₂_map_right_iff]
  refine hall.imp fun p p' h => ?_
  obtain ⟨hentry, hedit⟩ := h
  rw [hentry]
  exact (writeEntry_eq_none hedit).2

theorem editAll_writeMembers
    (h : editAll (writeMembers outer) members holders = (left, holders', none)) :
    List.Forall₂ Place.Becomes (placesOf members (holders.flatMap (heldBy outer)))
      (placesOf members (holders'.flatMap (heldBy outer))) := by
  induction holders generalizing members holders' with
  | nil =>
    obtain rfl : [] = holders' := congrArg (·.2.1) h
    rw [List.flatMap_nil, placesOf, List.zip_nil_right]
    exact .nil
  | cons holder holders ih =>
    obtain ⟨next, holder', made, hfirst, hrest, rfl⟩ := editAll_cons_eq_none.mp h
    obtain ⟨rfl, hlength, hall⟩ := writeMembers_eq_none hfirst
    rw [List.flatMap_cons, List.flatMap_cons, placesOf_append, placesOf_append, hlength]
    exact List.rel_append hall (ih hrest)

theorem editAll_writeMembers_same
    (h : ∀ p ∈ placesOf members (holders.flatMap (heldBy outer)), p.IsWritten) :
    ∃ left, editAll (writeMembers outer) members holders = (left, holders, none) := by
  induction holders generalizing members with
  | nil => exact ⟨members, rfl⟩
  | cons holder holders ih =>
    rw [List.flatMap_cons, placesOf_append, List.forall_mem_append] at h
    have hfirst : writeMembers outer members holder =
        (members.drop (heldBy outer holder).length, holder, none) := by
      rw [writeMembers_eq, heldBy, List.length_map]
      refine editChildren_of_editAll "Member" members holder
        (editAll_editNext_same fun p hp => writeEntry_same ?_)
      rw [placesOf_heldBy, List.forall_mem_map] at h
      exact h.1 p hp
    obtain ⟨left, hrest⟩ := ih h.2
    exact ⟨left, editAll_cons_eq_none.mpr ⟨_, holder, holders, hfirst, hrest, rfl⟩⟩

-- ---------------------------------------------------------------------------
-- Types
-- ---------------------------------------------------------------------------

theorem places_eq (type : ApiType) (root : Element) : places type root =
    .of type.entry ([], root) :: placesOf type.members
      ((root.named "Members").flatMap (heldBy (root.scope []))) := rfl

theorem writeType_eq_none (h : writeType type root = (root', none)) :
    root'.tag = root.tag ∧ List.Forall₂ Place.Becomes (places type root) (places type root') := by
  obtain ⟨first, hentry, hmembers⟩ := andThen_eq_none _ h
  obtain ⟨htouches, hfirst⟩ := writeEntry_eq_none hentry
  have htags := writeMembers_keepsTags (first.scope [])
  have hrun : editChildren "Members" (writeMembers (first.scope [])) type.members first =
      (_, root', none) :=
    Prod.ext rfl hmembers
  have htouches' := editChildren_touches htags "Members" type.members first
  rw [hrun] at htouches'
  have hscope : first.scope [] = root.scope [] := by rw [Element.scope, htouches.tag, Element.scope]
  have hscope' : root'.scope [] = first.scope [] := by
    rw [Element.scope, htouches'.tag, Element.scope]
  have hall := editAll_writeMembers (editChildren_eq_none htags hrun)
  rw [htouches.named (by decide)] at hall
  refine ⟨htouches'.tag.trans htouches.tag, ?_⟩
  rw [places_eq, places_eq, hscope', ← hscope]
  refine .cons ?_ hall
  -- The members are not where the documentation of the type is.
  have hsame : Place.of type.entry ([], root') = .of type.entry ([], first) := by
    simp only [Place.of, hscope', Element.find?,
      htouches'.named (show "Docs" ∉ ["Members"] by decide)]
  rwa [hsame]

/-- What there is for documentation that is written was made of what there was, in the same
scope. -/
theorem exists_of_writeType (h : writeType type root = (root', none)) : ∀ p' ∈ places type root',
    p'.fields.changed = true → ∀ d' ∈ p'.docs, ∃ p ∈ places type root, p'.fields = p.fields ∧
    p'.around = p.around ∧
      ∃ d ∈ p.docs, writeDocs p.around p.fields d = (d', none) := by
  intro p' hp' hchanged d' hd'
  obtain ⟨p, hp, hfields, haround, hdocs⟩ := exists_of_forall₂ (writeType_eq_none h).2 hp'
  refine ⟨p, hp, hfields, haround, ?_⟩
  have hrel := hdocs (hfields ▸ hchanged)
  rw [show p'.docs = some d' from hd'] at hrel
  cases hd : p.docs with
  | none =>
    rw [hd] at hrel
    cases hrel
  | some d =>
    rw [hd] at hrel
    cases hrel with
    | some hrun => exact ⟨d, rfl, hrun⟩

theorem writeType_same (h : ∀ p ∈ places type root, p.IsWritten) :
    writeType type root = (root, none) := by
  rw [places_eq, List.forall_mem_cons] at h
  obtain ⟨left, hmembers⟩ := editAll_writeMembers_same h.2
  rw [writeType, writeEntry_same h.1]
  simp only [andThen, editChildren_of_editAll "Members" type.members root hmembers]

-- ---------------------------------------------------------------------------
-- Files
-- ---------------------------------------------------------------------------

/-- Whether the texts of new exceptions give no prefix another namespace than it has around them. -/
def Place.keepsPrefixes (p : Place) : Bool :=
  p.docs.all fun d => (p.fields.exceptions.drop (d.named "exception").length).all fun x =>
    Content.keepsPrefixes (d.scope p.around) x.text

/-- Whether working copies of a type and its members have all the exceptions that were loaded. -/
def HoldsExceptions (loaded type : ApiType) : Prop :=
  List.Forall₂ (fun before after : Entry => before.docs.exceptions.length ≤
    after.docs.exceptions.length)
    (loaded.entry :: loaded.members) (type.entry :: type.members)

/-- Of the exceptions of a working copy, the first are those that there are elements for. -/
theorem exceptions_of_loaded (hload : ApiType.ofRoot? path root = some loaded)
    (hedited : HoldsExceptions loaded type) :
    ∀ p ∈ places type root, ∀ d ∈ p.docs, (d.named "exception").length ≤
    p.fields.exceptions.length := by
  have hheld : List.Forall₂ (fun (held : Scope × Element) (after : Entry) =>
      (DocFields.ofDocs? (held.2.scope held.1) (held.2.find? "Docs")).exceptions.length ≤
      after.docs.exceptions.length)
      (([], root) :: ApiType.memberElements root) (type.entry :: type.members) := by
    unfold ApiType.ofRoot? at hload
    split at hload
    · obtain rfl := Option.some.inj hload
      cases hedited with
      | cons hentry hmembers => exact .cons hentry (List.forall₂_map_left_iff.mp hmembers)
    · cases hload
  intro p hp d hd
  obtain ⟨⟨entry, held⟩, hmem, rfl⟩ := List.mem_map.mp hp
  have hcount := List.forall₂_zip hheld.flip hmem
  rw [show held.2.find? "Docs" = some d from hd] at hcount
  simpa [Place.of, DocFields.ofDocs?, DocFields.ofDocs, DocFields.exceptionsOf] using hcount

/-- Elements for documentation have no namespace, and so have the names without a prefix in them. -/
theorem places_default (hroot : root.IsResolved []) : ∀ p ∈ places type root, ∀ d ∈ p.docs,
    (d.scope p.around).resolve? "" = some "" := by
  intro p hp d hd
  obtain ⟨⟨entry, held⟩, hmem, rfl⟩ := List.mem_map.mp hp
  have hheld : held.2.IsResolved held.1 := by
    rcases List.mem_cons.mp (List.of_mem_zip hmem).2 with rfl | hmember
    · exact hroot
    · rw [memberElements_eq, List.mem_flatMap] at hmember
      obtain ⟨holder, hholder, hmember⟩ := hmember
      obtain ⟨e, he, rfl⟩ := List.mem_map.mp hmember
      exact (hroot.named hholder).named he
  have hdocs : d ∈ held.2.named "Docs" := List.mem_of_head? hd
  exact (hheld.named hdocs).default (Node.mem_named hdocs).2

/-- A type file that has been written holds one element for each exception of an entry that has
changed. Written once more, it is the same, tree and text, as long as no new exception declares a
prefix for another namespace than it has around it. -/
theorem render_again (hfile : Xml.File.ofBytes content = .ok file)
    (hload : ApiType.ofRoot? path file.root = some loaded) (hedited : HoldsExceptions loaded type)
    (hrender : render type file = (written, .ok text)) :
    (∀ p ∈ places type written.root, p.fields.changed = true → ∀ d ∈ p.docs,
      (d.named "exception").length = p.fields.exceptions.length) ∧
    ((∀ p ∈ places type file.root, p.fields.changed = true → p.keepsPrefixes = true) →
      render type written = (written, .ok text)) := by
  have hmore := exceptions_of_loaded hload hedited
  have hdefault : ∀ p ∈ places type file.root, ∀ d ∈ p.docs,
      (d.scope p.around).resolve? "" = some "" :=
    places_default (Element.isResolved_of_ofBytes hfile)
  unfold render at hrender
  split at hrender
  · rename_i root hwrite
    obtain ⟨rfl, rfl⟩ : { file with root } = written ∧
        Xml.File.toString { file with root } = text := by
      simpa using hrender
    have hwrote := exists_of_writeType hwrite
    refine ⟨fun p' hp' hchanged d' hd' => ?_, fun hkeeps => ?_⟩
    · obtain ⟨p, hp, hfields, -, d, hd, hrun⟩ := hwrote p' hp' hchanged d' hd'
      rw [hfields]
      exact writeDocs_count hrun (hmore p hp d hd)
    · have hsame : writeType type root = (root, none) := by
        refine writeType_same fun p' hp' hchanged d' hd' => ?_
        obtain ⟨p, hp, hfields, haround, d, hd, hrun⟩ := hwrote p' hp' hchanged d' hd'
        have hkept := hkeeps p hp (hfields ▸ hchanged)
        rw [Place.keepsPrefixes, show p.docs = some d from hd, Option.all_some,
          List.all_eq_true] at hkept
        rw [hfields, haround]
        exact writeDocs_again (hdefault p hp d hd) hkept hrun
      simp only [render, hsame]
  · cases hrender

def typeFile? (text : String) : Option (Xml.File × ApiType) :=
  match Xml.File.ofBytes text.toUTF8 with
  | .ok file => (ApiType.ofRoot? "T.xml" file.root).map fun loaded => (file, loaded)
  | .error _ => none

theorem typeFile?_eq_some (h : typeFile? text = some (file, loaded)) :
    Xml.File.ofBytes text.toUTF8 = .ok file ∧ ApiType.ofRoot? "T.xml" file.root = some loaded := by
  unfold typeFile? at h
  split at h
  · rename_i found hfile
    obtain ⟨_, hloaded, heq⟩ := Option.map_eq_some_iff.mp h
    obtain ⟨rfl, rfl⟩ := Prod.mk.inj heq
    exact ⟨hfile, hloaded⟩
  · cases h

def withException (x : ExceptionDoc) (t : ApiType) : ApiType :=
  { t with entry.docs.exceptions := t.entry.docs.exceptions ++ [x], entry.docs.changed := true }

theorem withException_holds (x : ExceptionDoc) (t : ApiType) :
    HoldsExceptions t (withException x t) :=
  .cons (by simp [withException]) (List.forall₂_same.mpr fun _ _ => Nat.le_refl _)

def prefixed : String := "<Type xmlns:a=\"urn:u\"><Docs/></Type>"

def excepting (inner : String) : String :=
  "<Type xmlns:a=\"urn:u\"><Docs><exception cref=\"T:X\">" ++ inner ++ "</exception></Docs></Type>"

def renamed : ExceptionDoc := ⟨"T:X", "<b:c xmlns:b=\"urn:u\"/>"⟩

theorem render_of_toOption (h : (render type file).2.toOption = some text) :
    render type file = ((render type file).1, .ok text) := by
  refine Prod.ext rfl ?_
  cases hrun : (render type file).2 with
  | error fault => simp [hrun, Except.toOption] at h
  | ok out =>
    simp only [hrun, Except.toOption, Option.some.injEq] at h
    rw [h]

theorem render_again_renamed : ∃ file loaded written, Xml.File.ofBytes prefixed.toUTF8 = .ok file ∧
    ApiType.ofRoot? "T.xml" file.root = some loaded ∧
    HoldsExceptions loaded (withException renamed loaded) ∧
    render (withException renamed loaded) file = (written, .ok (excepting "<a:c/>")) ∧
    (∀ p ∈ places (withException renamed loaded) file.root, p.fields.changed = true →
      p.keepsPrefixes = true) ∧
    (∀ p ∈ places (withException renamed loaded) written.root,
      p.fields.changed = true → ∀ d ∈ p.docs,
      (d.named "exception").length = p.fields.exceptions.length) ∧
    render (withException renamed loaded) written = (written, .ok (excepting "<a:c/>")) := by
  have hrun : (typeFile? prefixed).any (fun f =>
      decide ((render (withException renamed f.2) f.1).2.toOption = some (excepting "<a:c/>")) &&
        (places (withException renamed f.2) f.1.root).all (·.keepsPrefixes)) = true := by
    decide +kernel
  obtain ⟨⟨file, loaded⟩, hread, hrun⟩ := (Option.any_eq_true _ _).mp hrun
  rw [Bool.and_eq_true, decide_eq_true_iff, List.all_eq_true] at hrun
  obtain ⟨hfile, hload⟩ := typeFile?_eq_some hread
  have hrender := render_of_toOption hrun.1
  have hkeeps : ∀ p ∈ places (withException renamed loaded) file.root,
      p.fields.changed = true → p.keepsPrefixes = true :=
    fun p hp _ => hrun.2 p hp
  obtain ⟨hcounts, hagain⟩ := render_again hfile hload (withException_holds renamed loaded) hrender
  exact ⟨file, loaded, _, hfile, hload, withException_holds renamed loaded, hrender, hkeeps,
    hcounts, hagain hkeeps⟩

/-- An exception in which the prefix stands for something else, around an element that has the
namespace of the prefix outside. -/
def shadowing : ExceptionDoc :=
  ⟨"T:X", "<b:x xmlns:b=\"urn:u\"><h xmlns:a=\"urn:v\"><c:z xmlns:c=\"urn:u\"/></h></b:x>"⟩

/-- The exception is renamed twice on its way into the tree, where its innermost element gets the
prefix that stands for something else there; written again in its place, that element keeps its
own. -/
theorem shadowing_rendered_apart : ∃ file loaded written rewritten first second,
    Xml.File.ofBytes prefixed.toUTF8 = .ok file ∧ ApiType.ofRoot? "T.xml" file.root = some loaded ∧
    HoldsExceptions loaded (withException shadowing loaded) ∧
    render (withException shadowing loaded) file = (written, .ok first) ∧
    render (withException shadowing loaded) written = (rewritten, .ok second) ∧
    first = excepting "<a:x><h xmlns:a=\"urn:v\"><a:z/></h></a:x>" ∧
    second = excepting "<a:x><h xmlns:a=\"urn:v\"><c:z xmlns:c=\"urn:u\"/></h></a:x>" ∧
    first ≠ second := by
  have hrun : (typeFile? prefixed).any (fun f =>
      decide ((render (withException shadowing f.2) f.1).2.toOption =
        some (excepting "<a:x><h xmlns:a=\"urn:v\"><a:z/></h></a:x>")) &&
      decide ((render (withException shadowing f.2)
        (render (withException shadowing f.2) f.1).1).2.toOption =
        some (excepting "<a:x><h xmlns:a=\"urn:v\"><c:z xmlns:c=\"urn:u\"/></h></a:x>"))) =
          true := by
    decide +kernel
  obtain ⟨⟨file, loaded⟩, hread, hrun⟩ := (Option.any_eq_true _ _).mp hrun
  rw [Bool.and_eq_true, decide_eq_true_iff, decide_eq_true_iff] at hrun
  obtain ⟨hfile, hload⟩ := typeFile?_eq_some hread
  exact ⟨file, loaded, _, _, _, _, hfile, hload, withException_holds shadowing loaded,
    render_of_toOption hrun.1,
    render_of_toOption hrun.2, rfl, rfl, by decide⟩

end DocMerge.Writing

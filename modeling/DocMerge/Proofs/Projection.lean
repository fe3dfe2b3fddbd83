import DocMerge.Proofs.Rewriting

/-!
# Entries that are written and read back

The documentation of an entry is written into its element by one pass for each name, and new
exceptions are put behind the last of the elements that they follow. What is read from the element
afterwards is what was written, as long as each text was said by some element whose identifiers stay
apart. All other children are the same.
-/

namespace DocMerge.NamedTexts

theorem setPair_of_not_mem (h : name ∉ pairs.map (·.1)) (text : String) :
    setPair name text pairs = pairs ++ [(name, text)] := by
  induction pairs with
  | nil => rfl
  | cons pair pairs ih =>
    rw [List.map_cons, List.mem_cons, not_or] at h
    rw [setPair, if_neg (Ne.symm h.1), ih h.2, List.cons_append]

theorem toList_foldl_set {pairs : List (String × String)} {texts : NamedTexts}
    (h : (texts.toList.map (·.1) ++ pairs.map (·.1)).Nodup) :
    (pairs.foldl (fun texts (name, text) => texts.set name text) texts).toList =
    texts.toList ++ pairs := by
  induction pairs generalizing texts with
  | nil => simp
  | cons pair pairs ih =>
    have hset : (texts.set pair.1 pair.2).toList = texts.toList ++ [pair] :=
      setPair_of_not_mem (fun hmem => (List.nodup_append.mp h).2.2 _ hmem _ (by simp) rfl) pair.2
    rw [List.foldl_cons, ih (by simpa [hset] using h), hset, List.append_assoc,
      List.singleton_append]

theorem ext_toList {a b : NamedTexts} (h : a.toList = b.toList) : a = b := by
  cases a
  cases b
  simpa using h

theorem toList_ofList (h : (pairs.map (·.1)).Nodup) : (ofList pairs).toList = pairs :=
  toList_foldl_set (by rw [show (∅ : NamedTexts).toList = [] from rfl]; simpa using h)

end DocMerge.NamedTexts

namespace DocMerge.Xml

-- ---------------------------------------------------------------------------
-- Children that are not text
-- ---------------------------------------------------------------------------

def Node.withoutText (nodes : List Node) : List Node := nodes.filter (fun n => !n.isText)

@[simp] theorem Node.withoutText_append (first second : List Node) :
    withoutText (first ++ second) = withoutText first ++ withoutText second :=
  List.filter_append first second

theorem Node.withoutText_cons {n : Node} (h : n.isText = false) (nodes : List Node) :
    withoutText (n :: nodes) = n :: withoutText nodes :=
  List.filter_cons_of_pos (by simp [h])

theorem Node.withoutText_eq_nil {nodes : List Node} (h : ∀ n ∈ nodes, n.isText = true) :
    withoutText nodes = [] :=
  List.filter_eq_nil_iff.mpr fun n hn => by simp [h n hn]

theorem Node.isText_of_isNamed {n : Node} (h : n.isNamed name = true) : n.isText = false := by
  cases n <;> first | rfl | cases h

theorem Node.mem_withoutText {nodes : List Node} (h : n ∈ withoutText nodes) : n ∈ nodes :=
  List.mem_of_mem_filter h

theorem Node.named_withoutText (name : String) (nodes : List Node) :
    named name (withoutText nodes) = named name nodes := by
  have hboth : ∀ n : Node, (n.isNamed name && !n.isText) = n.isNamed name := by
    intro n
    cases hn : n.isNamed name with
    | false => rfl
    | true => simp [isText_of_isNamed hn]
  simp only [named, withoutText, List.filter_filter, hboth]

theorem Node.any_withoutText (name : String) (nodes : List Node) :
    (withoutText nodes).any (isNamed name) = nodes.any (isNamed name) := by
  rw [Bool.eq_iff_iff, List.any_eq_true, List.any_eq_true]
  constructor
  · rintro ⟨n, hmem, hn⟩
    exact ⟨n, mem_withoutText hmem, hn⟩
  · rintro ⟨n, hmem, hn⟩
    exact ⟨n, List.mem_filter.mpr ⟨hmem, by simp [isText_of_isNamed hn]⟩, hn⟩

theorem Node.named_eq_nil {nodes : List Node} (h : ∀ n ∈ nodes, n.isNamed name = false) :
    named name nodes = [] := by
  rw [named, List.filter_eq_nil_iff.mpr fun n hn => by simp [h n hn], List.filterMap_nil]

end DocMerge.Xml

namespace DocMerge.Writing

open Content (Edited IsText IsRemarks)
open Xml (Element Node Tag)

-- ---------------------------------------------------------------------------
-- Places for exceptions
-- ---------------------------------------------------------------------------

/-- Where new exceptions go among children that are not text: behind the last of the most wanted
elements that there are, else behind all children. -/
def IsPlace (before behind : List Node) : Prop :=
  match anchorNames.find? (fun name => (before ++ behind).any (Node.isNamed name)) with
  | some name =>
    (∃ anchor ∈ before.getLast?, anchor.isNamed name = true) ∧ ∀ n ∈ behind, n.isNamed name = false
  | none => behind = []

/-- An anchor as a place: it is the last of the nodes before that place, or there is none and the
place is behind all nodes. -/
inductive Marks : Option Nat → List Node → List Node → Prop
  | behind (first : List Node) (anchor : Node) (rest : List Node) :
    Marks (some first.length) (first ++ [anchor]) rest
  | last (nodes : List Node) : Marks none nodes []

theorem lastPlace?_concat (p : Node → Bool) (nodes : List Node) (n : Node) :
    lastPlace? p (nodes ++ [n]) = if p n then some nodes.length else lastPlace? p nodes := by
  cases hn : p n <;> simp [lastPlace?, List.zipIdx_append, hn]

theorem lastPlace?_cases (p : Node → Bool) (nodes : List Node) :
    (lastPlace? p nodes = none ∧ ∀ n ∈ nodes, p n = false) ∨ ∃ first anchor rest,
    nodes = first ++ anchor :: rest ∧
      lastPlace? p nodes = some first.length ∧ p anchor = true ∧ ∀ n ∈ rest, p n = false := by
  induction nodes using List.reverseRecOn with
  | nil => exact .inl ⟨rfl, by simp⟩
  | append_singleton nodes n ih =>
    rw [lastPlace?_concat]
    cases hn : p n with
    | true => exact .inr ⟨nodes, n, [], rfl, rfl, hn, by simp⟩
    | false =>
      rcases ih with ⟨hnone, hall⟩ | ⟨first, anchor, rest, rfl, hplace, hanchor, hrest⟩
      · exact .inl ⟨hnone, by simpa [or_imp, forall_and, hn] using hall⟩
      · exact .inr ⟨first, anchor, rest ++ [n], by simp, hplace, hanchor,
          by simpa [or_imp, forall_and, hn] using hrest⟩

theorem findSome?_lastPlace? (names : List String) (nodes : List Node) :
    (names.findSome? (fun name => lastPlace? (Node.isNamed name) nodes) = none ∧
      names.find? (fun name => nodes.any (Node.isNamed name)) = none) ∨
    ∃ name first anchor rest, names.find? (fun name => nodes.any (Node.isNamed name)) = some name ∧
      nodes = first ++ anchor :: rest ∧
      names.findSome? (fun name => lastPlace? (Node.isNamed name) nodes) = some first.length ∧
      anchor.isNamed name = true ∧ ∀ n ∈ rest, n.isNamed name = false := by
  induction names with
  | nil => exact .inl ⟨rfl, rfl⟩
  | cons name names ih =>
    rcases lastPlace?_cases (Node.isNamed name)
      nodes with ⟨hnone, hall⟩ | ⟨first, anchor, rest, heq, hplace, hanchor, hrest⟩
    · have habsent : nodes.any (Node.isNamed name) = false :=
        List.any_eq_false.mpr fun n hn => by simp [hall n hn]
      rw [List.findSome?_cons, hnone, List.find?_cons_of_neg (by simp [habsent])]
      exact ih
    · have hpresent : nodes.any (Node.isNamed name) = true :=
        List.any_eq_true.mpr ⟨anchor, by rw [heq]; simp, hanchor⟩
      rw [List.findSome?_cons, hplace, List.find?_cons_of_pos (by simp [hpresent])]
      exact .inr ⟨name, first, anchor, rest, rfl, heq, rfl, hanchor, hrest⟩

theorem anchor?_marks (nodes : List Node) :
    ∃ first rest, nodes = first ++ rest ∧ Marks (anchor? nodes) first rest ∧
      IsPlace (Node.withoutText first) (Node.withoutText rest) := by
  have hwanted : ∀ first rest : List Node, first ++ rest = nodes →
      anchorNames.find? (fun name =>
        (Node.withoutText first ++ Node.withoutText rest).any (Node.isNamed name)) =
        anchorNames.find? (fun name => nodes.any (Node.isNamed name)) := by
    rintro first rest rfl
    simp only [← Node.withoutText_append, Node.any_withoutText]
  rcases findSome?_lastPlace? anchorNames nodes with ⟨hnone, hfind⟩ | ⟨name, first, anchor, rest,
    hfind, heq, hplace, hname, hrest⟩
  · rcases lastPlace?_cases (fun n => !n.isText)
      nodes with ⟨hempty, hall⟩ | ⟨first, anchor, rest, heq, hplace, -, hrest⟩
    · refine ⟨nodes, [], (List.append_nil _).symm, ?_, ?_⟩
      · rw [anchor?, hnone, hempty]
        exact .last nodes
      · rw [IsPlace, hwanted nodes [] (List.append_nil _), hfind]
        rfl
    · have hsplit : nodes = (first ++ [anchor]) ++ rest := by rw [heq]; simp
      refine ⟨first ++ [anchor], rest, hsplit, ?_, ?_⟩
      · rw [anchor?, hnone, hplace]
        exact .behind first anchor rest
      · rw [IsPlace, hwanted _ _ hsplit.symm, hfind]
        exact Node.withoutText_eq_nil fun n hn => by simpa using hrest n hn
  · have hsplit : nodes = (first ++ [anchor]) ++ rest := by rw [heq]; simp
    refine ⟨first ++ [anchor], rest, hsplit, ?_, ?_⟩
    · rw [anchor?, hplace]
      exact .behind first anchor rest
    · rw [IsPlace, hwanted _ _ hsplit.symm, hfind]
      refine ⟨⟨anchor, ?_, hname⟩, fun n hn => hrest n (Node.mem_withoutText hn)⟩
      rw [Node.withoutText_append, Node.withoutText_cons (Node.isText_of_isNamed hname)]
      simp [Node.withoutText]

theorem IsPlace.no_exception (h : IsPlace before behind) : Node.named "exception" behind = [] := by
  refine Node.named_eq_nil fun n hn => ?_
  cases hany : (before ++ behind).any (Node.isNamed "exception") with
  | false => simpa using List.any_eq_false.mp hany n (List.mem_append_right _ hn)
  | true =>
    have hfind : anchorNames.find? (fun name => (before ++ behind).any (Node.isNamed name)) =
        some "exception" :=
      List.find?_cons_of_pos (by simp [hany])
    rw [IsPlace, hfind] at h
    exact h.2 n hn

-- ---------------------------------------------------------------------------
-- New exceptions
-- ---------------------------------------------------------------------------

theorem withoutText_indentOf (nodes : List Node) : Node.withoutText (indentOf nodes) = [] := by
  refine Node.withoutText_eq_nil fun n hn => ?_
  unfold indentOf at hn
  split at hn
  · split at hn
    · rw [List.mem_singleton.mp hn]
      rfl
    · cases hn
  · cases hn

theorem withoutText_leadingText? (nodes : List Node) :
    Node.withoutText ((Node.leadingText? nodes).map Node.text).toList = [] := by
  cases Node.leadingText? nodes <;> rfl

theorem withoutText_behindText (nodes : List Node) :
    Node.withoutText (Node.behindText nodes) = Node.withoutText nodes := by
  have htexts : Node.withoutText (nodes.takeWhile Node.isText) = [] :=
    Node.withoutText_eq_nil fun n hn => List.mem_takeWhile_imp hn
  have hboth := congrArg Node.withoutText
    (List.takeWhile_append_dropWhile (p := Node.isText) (l := nodes))
  rwa [Node.withoutText_append, htexts, List.nil_append] at hboth

/-- A node that is put in a place is the anchor of the next one. Only text moves. -/
theorem insertAt_marks (h : Marks anchor first rest) (new : Node) :
    ∃ first' rest', insertAt anchor new (first ++ rest) =
    ((first' ++ [new]) ++ rest', first'.length) ∧
      Node.withoutText first' = Node.withoutText first ∧
      Node.withoutText rest' = Node.withoutText rest := by
  cases h with
  | behind first anchor rest =>
    have htake : ((first ++ [anchor]) ++ rest).take (first.length + 1) = first ++ [anchor] :=
      List.take_left' (by simp)
    have hdrop : ((first ++ [anchor]) ++ rest).drop (first.length + 1) = rest :=
      List.drop_left' (by simp)
    refine ⟨first ++ [anchor] ++ indentOf (first ++ [anchor] ++ rest),
      ((Node.leadingText? rest).map Node.text).toList ++ Node.behindText rest, ?_, ?_, ?_⟩
    · simp only [insertAt, insertBehind, htake, hdrop, Prod.mk.injEq]
      exact ⟨by simp, by simp; omega⟩
    · rw [Node.withoutText_append, withoutText_indentOf, List.append_nil]
    · rw [Node.withoutText_append, withoutText_leadingText?,
        withoutText_behindText, List.nil_append]
  | last nodes =>
    exact ⟨first, ((Node.leadingText? first).map
      Node.text).toList, by simp [insertAt], rfl, withoutText_leadingText? first⟩

def exceptionTag (cref : String) :
    Tag := { name := Xml.Name.plain "exception", attributes := [.plain "cref" cref] }

theorem isPlain_exceptionTag (cref : String) : (exceptionTag cref).isPlain = true := by
  have hname : (Xml.Name.plain "exception").written.isSolid = true := by decide
  have hcref : (Xml.Name.plain "cref").written.isSolid = true := by decide
  simp [Tag.isPlain, exceptionTag, Xml.Attribute.plain, hname, hcref]

structure IsFor (e : Element) (x : ExceptionDoc) : Prop where
  tag : e.tag = exceptionTag x.cref
  text : said e = x.text

structure IsNew (x : ExceptionDoc) : Prop where
  cref : Content.isWritable x.cref = true
  text : IsText x.text

theorem exceptionElement_ok (h : IsNew x) :
    ∃ e, exceptionElement x = .ok e ∧ e.toNode.adopt [] [] = e.toNode ∧ IsFor e x := by
  have hbare : (⟨exceptionTag x.cref, []⟩ : Element).tag.declarations = [] := rfl
  obtain ⟨children, hset, hplain, hread⟩ := h.text.setInner hbare
  have hname : (exceptionTag x.cref).name.is "exception" = true := rfl
  refine ⟨⟨exceptionTag x.cref, children⟩, ?_, ?_, rfl, ?_⟩
  · rw [exceptionTag] at hset
    simp only [exceptionElement, h.cref, hset, Bool.not_true, Bool.false_eq_true,
      if_false, exceptionTag]
  · refine Node.adopt_plain _ [] ?_
    rw [Element.toNode, Node.isPlain, hplain, Bool.and_true, isPlain_exceptionTag]
  · exact (said_eq_text hname (by decide)).trans hread

theorem addExceptions_marks (h : Marks anchor first rest) (hnew : ∀ x ∈ added, IsNew x) :
    ∃ nodes new, addExceptions [] anchor added (first ++ rest) = (nodes, none) ∧
      Node.withoutText nodes = Node.withoutText first ++ new.map Element.toNode ++
      Node.withoutText rest ∧
      List.Forall₂ IsFor new added := by
  induction added generalizing anchor first rest with
  | nil => exact ⟨first ++ rest, [], rfl, by simp, .nil⟩
  | cons x added ih =>
    rw [List.forall_mem_cons] at hnew
    obtain ⟨e, hok, hadopt, hfor⟩ := exceptionElement_ok hnew.1
    obtain ⟨first', rest', hinsert, hfirst, hrest⟩ := insertAt_marks h e.toNode
    obtain ⟨nodes, new, hadd, htext, hall⟩ := ih (.behind first' e.toNode rest') hnew.2
    refine ⟨nodes, e :: new, ?_, ?_, .cons hfor hall⟩
    · simp only [addExceptions, hok, hadopt, hinsert, hadd]
    · have hone : Node.withoutText [e.toNode] = [e.toNode] := rfl
      rw [htext, Node.withoutText_append, hfirst, hrest, hone]
      simp

-- ---------------------------------------------------------------------------
-- What is read
-- ---------------------------------------------------------------------------

theorem scope_nil {d : Element} (h : d.tag.declarations = []) : d.scope [] = [] := by
  rw [Element.scope, h]
  rfl

theorem mem_of_find? {d : Element} (h : d.find? name = some e) : e.tag.name.is name = true :=
  (Node.mem_named (List.mem_of_head? h)).2

theorem scalar_ofDocs {d : Element} (h : d.tag.declarations = []) (f : ScalarField) :
    (DocFields.ofDocs [] d).scalar f = (d.find? f.toField.name).map said := by
  have htext : ∀ name, name ≠ "remarks" → (d.find? name).map (Content.text []) =
      (d.find? name).map said :=
    fun name hne => Option.map_congr fun e he => (said_eq_text (mem_of_find? he) hne).symm
  cases f with
  | remarks =>
    simp only [DocFields.scalar, DocFields.ofDocs, scope_nil h]
    exact Option.map_congr fun e he => (said_eq_remarks (mem_of_find? he)).symm
  | summary | returns | value =>
    simp only [DocFields.scalar, DocFields.ofDocs, scope_nil h]
    exact htext _ (by decide)

theorem toField_ne_remarks (f : NamedField) : f.toField.name ≠ "remarks" := by
  cases f <;> decide

theorem named_ofDocs {d : Element} (h : d.tag.declarations = []) (f : NamedField)
    (hdistinct : ((d.named f.toField.name).map (·.value "name")).Nodup) :
    ((DocFields.ofDocs [] d).named f).toList = (d.named f.toField.name).map fun e =>
      (e.value "name", said e) := by
  have hread : ∀ kind, kind ≠ "remarks" →
      DocFields.namedTexts d kind [] = (d.named kind).map fun e => (e.value "name", said e) :=
    fun kind hne => List.map_congr_left fun e he => by rw [said_eq_text (Node.mem_named he).2 hne]
  have hlist : (DocFields.ofDocs [] d).named f =
      NamedTexts.ofList (DocFields.namedTexts d f.toField.name []) := by
    cases f <;> simp only [DocFields.named, DocFields.ofDocs, scope_nil h] <;> rfl
  have hnames : ((d.named f.toField.name).map fun e => (e.value "name", said e)).map (·.1) =
      (d.named f.toField.name).map (·.value "name") := by
    rw [List.map_map]
    rfl
  rw [hlist, hread _ (toField_ne_remarks f), NamedTexts.toList_ofList (hnames ▸ hdistinct)]

theorem exceptions_ofDocs {d : Element} (h : d.tag.declarations = []) :
    (DocFields.ofDocs [] d).exceptions = (d.named "exception").map fun e =>
      ⟨e.value "cref", said e⟩ := by
  simp only [DocFields.ofDocs, DocFields.exceptionsOf, scope_nil h]
  exact List.map_congr_left fun e he => by rw [said_eq_text (Node.mem_named he).2 (by decide)]

-- ---------------------------------------------------------------------------
-- Entries
-- ---------------------------------------------------------------------------

def Fits : ScalarField → String → Prop
  | .remarks => IsRemarks
  | _ => IsText

/-- What a merge can make of documentation: texts are replaced, and exceptions are added. -/
structure IsMerged (old new : DocFields) : Prop where
  scalar : ∀ f, Option.Rel (Edit (Fits f)) (old.scalar f) (new.scalar f)
  named : ∀ f, List.Forall₂ (fun a b => b.1 = a.1 ∧ Edit IsText a.2 b.2) (old.named f).toList
    (new.named f).toList
  exceptions : ∃ kept added, new.exceptions = kept ++ added ∧ (∀ x ∈ added, IsNew x) ∧
    List.Forall₂ (fun a b => b.cref = a.cref ∧ Edit IsText a.text b.text) old.exceptions kept
  present : new.present = old.present

def fieldNames : List String := DocField.all.map (·.name) ++ ["exception"]

/-- What is left of an element after fields have been written into it. -/
structure Projects (fields : DocFields) (d d' : Element) : Prop where
  tag : d'.tag = d.tag
  reads : DocFields.ofDocs [] d' = { fields with changed := false }
  /-- Of the elements of a field only the first is written. -/
  seconds : ∀ f : ScalarField, (d'.named f.toField.name).tail = (d.named f.toField.name).tail
  children : ∃ before new behind, Node.withoutText d'.children = before ++
    new.map Element.toNode ++ behind ∧
    List.Forall₂ (Keeps fieldNames) (Node.withoutText d.children) (before ++ behind) ∧
    IsPlace before behind ∧
    List.Forall₂ IsFor new (fields.exceptions.drop (d.named "exception").length)

def scalarGoal (fields : DocFields) (d : Element) (f : ScalarField) : Goal where
  name := f.toField.name
  holds es := es.head?.map said = fields.scalar f ∧ es.tail = (d.named f.toField.name).tail

def namedGoal (fields : DocFields) (f : NamedField) : Goal where
  name := f.toField.name
  holds es := es.map (fun e => (e.value "name", said e)) = (fields.named f).toList

def writeAs (f : ScalarField) (s : String) : Element → Edited :=
  match f with
  | .remarks => writeRemarks [] s
  | _ => writeText [] s

def writeField (fields : DocFields) (f : ScalarField) (d : Element) : Edited :=
  match fields.scalar f with
  | some s => editFirst f.toField.name (writeAs f s) d
  | none => (d, none)

def writeTexts (fields : DocFields) (d : Element) : Edited :=
  let edited := writeField fields .summary d
  let edited := andThen edited (writeField fields .returns)
  let edited := andThen edited (writeField fields .value)
  let edited := andThen edited (writeField fields .remarks)
  let edited := andThen edited (writeNamed [] "param" fields.params)
  andThen edited (writeNamed [] "typeparam" fields.typeparams)

theorem writeDocs_eq {d : Element} (h : d.tag.declarations = []) (fields : DocFields) :
    writeDocs [] fields d = andThen (writeTexts fields d)
      (writeAllExceptions [] fields.exceptions) := by
  simp only [writeDocs, scope_nil h]
  rfl

section
variable {d : Element} {fields : DocFields}

theorem writeAs_achieves {e : Element} (f : ScalarField)
    (hname : e.tag.name.is f.toField.name = true)
    (hbare : e.tag.declarations = []) (h : Edit (Fits f) (said e) s) :
    Achieves (writeAs f s) e s := by
  cases f with
  | remarks => exact writeRemarks_achieves hname h
  | summary | returns | value => exact writeText_achieves hname (by decide) hbare h

theorem writeField_achieves
    (hbare : ∀ name, ∀ e ∈ d.named name, e.tag.declarations = []) (f : ScalarField)
    (h : Option.Rel (Edit (Fits f)) ((d.find? f.toField.name).map said)
      (fields.scalar f)) (d' : Element)
    (hsame : d'.named f.toField.name = d.named f.toField.name) :
    ∃ d'', writeField fields f d' = (d'', none) ∧ Rewrites [f.toField.name] d' d'' ∧
      (scalarGoal fields d f).holds (d''.named f.toField.name) := by
  have hfirst : Option.Rel (Edit (Fits f)) ((d'.find? f.toField.name).map said)
      (fields.scalar f) := by
    rw [Element.find?, hsame]
    exact h
  have hedits : ∀ e ∈ d'.named f.toField.name, ∀ s, Edit (Fits f) (said e) s →
      Achieves (writeAs f s) e s := by
    intro e he s hs
    exact writeAs_achieves f (Node.mem_named he).2 (hbare _ e (hsame ▸ he)) hs
  obtain ⟨d'', hrun, hrewrites, hread, htail⟩ := editFirst_achieves hfirst hedits
  exact ⟨d'', hrun, hrewrites, hread, htail.trans (congrArg List.tail hsame)⟩

theorem pairs_of_merged (hbare : d.tag.declarations = []) (f : NamedField)
    (hdistinct : ((d.named f.toField.name).map (·.value "name")).Nodup)
    (hmerged : IsMerged (DocFields.ofDocs [] d) fields) :
    List.Forall₂ (fun e pair => pair.1 = e.value "name" ∧ Edit IsText (said e) pair.2)
      (d.named f.toField.name)
      (fields.named f).toList := by
  have hpairs := hmerged.named f
  rwa [named_ofDocs hbare f hdistinct, List.forall₂_map_left_iff] at hpairs

/-- Before exceptions are written, the texts of all other fields are what they are to be. -/
theorem writeTexts_meets (hscope : d.tag.declarations = [])
    (hbare : ∀ name, ∀ e ∈ d.named name, e.tag.declarations = [])
    (hdistinct : ∀ f : NamedField, ((d.named f.toField.name).map (·.value "name")).Nodup)
    (hmerged : IsMerged (DocFields.ofDocs [] d) fields) :
    Meets [namedGoal fields .typeparam, namedGoal fields .param, scalarGoal fields d .remarks,
      scalarGoal fields d .value, scalarGoal fields d .returns, scalarGoal fields d .summary] d
        (writeTexts fields d) := by
  have hfield : ∀ f d', d'.named f.toField.name = d.named f.toField.name →
      ∃ d'', writeField fields f d' = (d'', none) ∧ Rewrites [f.toField.name] d' d'' ∧
        (scalarGoal fields d f).holds (d''.named f.toField.name) :=
    fun f => writeField_achieves hbare f (scalar_ofDocs hscope f ▸ hmerged.scalar f)
  have hnamed : ∀ (f : NamedField) (d' : Element),
      d'.named f.toField.name = d.named f.toField.name →
      ∃ d'', writeNamed [] f.toField.name (fields.named f) d' = (d'', none) ∧
      Rewrites [f.toField.name] d' d'' ∧
        (namedGoal fields f).holds (d''.named f.toField.name) := by
    intro f d' hsame
    refine writeNamed_achieves (toField_ne_remarks f) (fun e he => ?_)
      (hsame ▸ pairs_of_merged hscope f (hdistinct f) hmerged)
    exact ⟨(Node.mem_named he).2, hbare _ e (hsame ▸ he)⟩
  have hsummary : Meets [scalarGoal fields d .summary] d (writeField fields .summary d) :=
    (Meets.nil d).andThen (scalarGoal fields d .summary) (by simp) (hfield .summary)
  have hreturns := hsummary.andThen (scalarGoal fields d .returns)
    (show "returns" ∉ ["summary"] by decide) (hfield .returns)
  have hvalue := hreturns.andThen (scalarGoal fields d .value)
    (show "value" ∉ ["returns", "summary"] by decide) (hfield .value)
  have hremarks := hvalue.andThen (scalarGoal fields d .remarks)
    (show "remarks" ∉ ["value", "returns", "summary"] by decide) (hfield .remarks)
  have hparams := hremarks.andThen (namedGoal fields .param)
    (show "param" ∉ ["remarks", "value", "returns", "summary"] by decide) (hnamed .param)
  exact hparams.andThen (namedGoal fields .typeparam)
    (show "typeparam" ∉ ["param", "remarks", "value", "returns", "summary"] by decide)
      (hnamed .typeparam)

theorem Keeps.isText_eq (h : Keeps names n n') : n'.isText = n.isText := by
  obtain rfl | ⟨e, e', rfl, rfl, -, -⟩ := h <;> rfl

theorem Rewrites.withoutText {d' : Element} (h : Rewrites names d d') :
    List.Forall₂ (Keeps names) (Node.withoutText d.children) (Node.withoutText d'.children) :=
  List.rel_filter (fun _ _ hkeeps => by simp [hkeeps.isText_eq]) h.keeps

structure Adds (added : List ExceptionDoc) (d d' : Element) : Prop where
  tag : d'.tag = d.tag
  others : ∀ name ≠ "exception", d'.named name = d.named name
  exceptions : (d'.named "exception").map (fun e => (⟨e.value "cref", said e⟩ : ExceptionDoc)) =
    (d.named "exception").map (fun e => ⟨e.value "cref", said e⟩) ++ added
  children : ∃ before new behind, Node.withoutText d'.children = before ++
    new.map Element.toNode ++ behind ∧
    Node.withoutText d.children = before ++ behind ∧ IsPlace before behind ∧
    List.Forall₂ IsFor new added

theorem IsFor.read {e : Element} (h : IsFor e x) :
    (⟨e.value "cref", said e⟩ : ExceptionDoc) = x := by
  have hcref : e.value "cref" = x.cref := by
    rw [Element.value, Element.attribute?, h.tag]
    simp [Tag.attribute?, exceptionTag, Xml.Attribute.plain, Xml.Name.is, Xml.Name.plain]
  rw [hcref, h.text]

theorem named_new {new : List Element}
    (h : ∀ e ∈ new, e.tag.name.is "exception" = true) (name : String) :
    Node.named name (new.map Element.toNode) = if name = "exception" then new else [] := by
  induction new with
  | nil => simp [Node.named]
  | cons e new ih =>
    rw [List.forall_mem_cons] at h
    rw [List.map_cons]
    split
    · rename_i heq
      rw [if_pos heq] at ih
      rw [heq, Node.named_cons_of_is h.1, ← heq, ih h.2]
    · rename_i hne
      rw [if_neg hne] at ih
      have hnot : e.toNode.isNamed name = false :=
        Bool.eq_false_iff.mpr fun hname => hne (Xml.Name.is_unique hname h.1)
      rw [Node.named_cons_of_not hnot, ih h.2]

theorem read_new (h : List.Forall₂ IsFor new added) :
    (∀ e ∈ new, e.tag.name.is "exception" = true) ∧
    new.map (fun e => (⟨e.value "cref", said e⟩ : ExceptionDoc)) = added := by
  induction h with
  | nil => simp
  | cons hfor _ ih =>
    refine ⟨List.forall_mem_cons.mpr ⟨?_, ih.1⟩, ?_⟩
    · rw [hfor.tag]
      rfl
    · rw [List.map_cons, hfor.read, ih.2]

theorem addExceptions_adds (d : Element) (hnew : ∀ x ∈ added, IsNew x) :
    ∃ children, addExceptions [] (anchor? d.children) added d.children = (children, none) ∧
      Adds added d { d with children } := by
  obtain ⟨first, rest, hsplit, hmarks, hplace⟩ := anchor?_marks d.children
  obtain ⟨children, new, hadd, htext, hfor⟩ := addExceptions_marks hmarks hnew
  rw [← hsplit] at hadd
  obtain ⟨htags, hread⟩ := read_new hfor
  have hnamed : ∀ name, Element.named { d with children } name =
      Node.named name first ++ (if name = "exception" then new else []) ++
      Node.named name rest := by
    intro name
    rw [Element.named_eq, ← Node.named_withoutText, htext, Node.named_append,
      Node.named_append, named_new htags,
      Node.named_withoutText, Node.named_withoutText]
  have hbefore : ∀ name, d.named name = Node.named name first ++ Node.named name rest := by
    intro name
    rw [Element.named_eq, hsplit, Node.named_append]
  refine ⟨children, hadd, rfl, fun name hne => ?_, ?_, _, new, _, htext, ?_, hplace, hfor⟩
  · rw [hnamed, hbefore, if_neg hne, List.append_nil]
  · have hnone := hplace.no_exception
    rw [Node.named_withoutText] at hnone
    rw [hnamed, hbefore, if_pos rfl, hnone, List.append_nil, List.append_nil,
      List.map_append, hread]
  · rw [hsplit, Node.withoutText_append]

theorem bare_of_plain (h : d.toNode.isPlain = true) :
    d.tag.declarations = [] ∧ ∀ name, ∀ e ∈ d.named name, e.tag.declarations = [] := by
  have hbare : ∀ e : Element, e.toNode.isPlain = true → e.tag.declarations = [] := by
    intro e he
    rw [Element.toNode, Node.isPlain, Bool.and_eq_true] at he
    exact (Tag.isPlain_iff.mp he.1).1
  rw [Element.toNode, Node.isPlain, Bool.and_eq_true, Node.areAllPlain_iff] at h
  exact ⟨(Tag.isPlain_iff.mp h.1).1, fun _ e he => hbare e (h.2 _ (Node.mem_named he).1)⟩

theorem writeAllExceptions_adds (hbare : ∀ e ∈ d.named "exception", e.tag.declarations = [])
    (hkept : List.Forall₂ (fun e x => x.cref = e.value "cref" ∧ Edit IsText (said e) x.text)
      (d.named "exception") kept)
    (hnew : ∀ x ∈ added, IsNew x) : ∃ d' d'',
    writeAllExceptions [] (kept ++ added) d = (d'', none) ∧
      Rewrites ["exception"] d d' ∧ Adds added d' d'' ∧
      (d''.named "exception").map (fun e => ⟨e.value "cref", said e⟩) = kept ++ added := by
  obtain ⟨d', hwrite, hrewrites, hread⟩ :=
    writeExceptions_achieves (fun e he => ⟨(Node.mem_named he).2, hbare e he⟩) hkept added
  obtain ⟨children, hadd, hadds⟩ := addExceptions_adds d' hnew
  refine ⟨d', { d' with children }, ?_, hrewrites, hadds, by rw [hadds.exceptions, hread]⟩
  simp only [writeAllExceptions, hwrite, andThen, hadd]

/-- What is read from an element is what was written into it. -/
theorem writeDocs_projects (hplain : d.toNode.isPlain = true)
    (hdistinct : ∀ f : NamedField, ((d.named f.toField.name).map (·.value "name")).Nodup)
    (hmerged : IsMerged (DocFields.ofDocs [] d) fields) :
    ∃ d', writeDocs [] fields d = (d', none) ∧ Projects fields d d' := by
  obtain ⟨hscope, hbare⟩ := bare_of_plain hplain
  obtain ⟨d₁, hrun, hrewrites, hmet⟩ := writeTexts_meets hscope hbare hdistinct hmerged
  have hfirst : Rewrites ["typeparam", "param", "remarks", "value", "returns", "summary"] d d₁ :=
    hrewrites
  obtain ⟨kept, added, hall, hnew, hkept⟩ := hmerged.exceptions
  rw [exceptions_ofDocs hscope, List.forall₂_map_left_iff] at hkept
  have hsame : d₁.named "exception" = d.named "exception" := hfirst.others "exception" (by decide)
  obtain ⟨d₂, d₃, hexceptions, hsecond, hadds, hread⟩ :=
    writeAllExceptions_adds (hsame ▸ hbare "exception") (hsame ▸ hkept) hnew
  -- The last pass does not touch what the passes before it have written.
  have hlast : ∀ name ≠ "exception", d₃.named name = d₁.named name := by
    intro name hne
    rw [hadds.others name hne, hsecond.others name (by simpa using hne)]
  have htag : d₃.tag = d.tag := by rw [hadds.tag, hsecond.tag, hfirst.tag]
  have hscope₃ : d₃.tag.declarations = [] := by rw [htag, hscope]
  have hscalar : ∀ f : ScalarField, (d₃.named f.toField.name).head?.map said = fields.scalar f ∧
      (d₃.named f.toField.name).tail = (d.named f.toField.name).tail := by
    intro f
    rw [hlast _ (by cases f <;> decide)]
    exact hmet (scalarGoal fields d f) (by cases f <;> simp)
  have hnamed : ∀ f : NamedField,
      (d₃.named f.toField.name).map (fun e => (e.value "name", said e)) =
      (fields.named f).toList := by
    intro f
    rw [hlast _ (by cases f <;> decide)]
    exact hmet (namedGoal fields f) (by cases f <;> simp)
  refine ⟨d₃, ?_, htag, ?_, fun f => (hscalar f).2, ?_⟩
  · rw [writeDocs_eq hscope, hrun, hall]
    exact hexceptions
  · refine DocFields.ext_fields (fun f => ?_) (fun f => ?_) ?_ hmerged.present.symm rfl
    · rw [scalar_ofDocs hscope₃, Element.find?, (hscalar f).1]
      cases f <;> rfl
    · have hnames : ((d₃.named f.toField.name).map (·.value "name")).Nodup := by
        have hdistinct' := (fields.named f).distinct
        rwa [← hnamed, List.map_map] at hdistinct'
      exact NamedTexts.ext_toList
        ((named_ofDocs hscope₃ f hnames).trans ((hnamed f).trans (by cases f <;> rfl)))
    · rw [exceptions_ofDocs hscope₃, hread, hall]
  · obtain ⟨before, new, behind, hnodes, hkeptNodes, hplace, hfor⟩ := hadds.children
    have hlength : kept.length = (d.named "exception").length := hkept.length_eq.symm
    refine ⟨before, new, behind, hnodes, ?_, hplace, ?_⟩
    · have hboth : List.Forall₂
          (Keeps ["exception", "typeparam", "param", "remarks", "value", "returns", "summary"])
          (Node.withoutText d.children) (Node.withoutText d₂.children) :=
        forall₂_trans (fun _ _ _ hold hnext => hold.trans hnext (by decide)) hfirst.withoutText
          hsecond.withoutText
      rw [← hkeptNodes]
      exact hboth.imp fun _ _ hkeeps => hkeeps.mono (by decide)
    · rw [hall, ← hlength, List.drop_left]
      exact hfor

end

def elementOf (name : String) (attributes : List Xml.Attribute) (text : String) : Node :=
  .element { name := Xml.Name.plain name, attributes } [.text text]

def stub : Element where
  tag := { name := Xml.Name.plain "Docs" }
  children := [elementOf "param" [.plain "name" "count"] "To be added.",
    elementOf "summary" [] "To be added.",
    elementOf "remarks" [] "To be added."]

def filled : DocFields where
  summary := some "Takes <c>1</c>."
  remarks := some "See **below**."
  params := NamedTexts.ofList [("count", "To be added.")]
  exceptions := [⟨"T:E", "Takes <c>1</c>."⟩]

theorem isText_markup : IsText "Takes <c>1</c>." := by
  have hroot : Xml.root? {} "<e>Takes <c>1</c>.</e>".toList =
      some ⟨{ name := Xml.Name.plain "e" }, [.text "Takes ", elementOf "c" [] "1", .text "."]⟩ := by
    rw [String.toList_ofList]
    rfl
  have hnone : Node.allIdentifiers [.text "Takes ", elementOf "c" [] "1", .text "."] = [] := by rfl
  exact ⟨_, ⟨⟨0, (Xml.root?_sound (by decide) hroot).sound⟩, by decide⟩,
    ⟨by simp [hnone], by simp [hnone]⟩, by rfl⟩

theorem stub_distinct :
    ∀ f : NamedField, ((stub.named f.toField.name).map (·.value "name")).Nodup := by
  intro f
  cases f <;> decide

theorem filled_merged : IsMerged (DocFields.ofDocs [] stub) filled := by
  have hremarks : IsRemarks "See **below**." := ⟨by decide, by rfl, by decide⟩
  have hread : DocFields.ofDocs [] stub = {
      summary := some "To be added."
      remarks := some "To be added."
      params := NamedTexts.ofList [("count", "To be added.")] } := by rfl
  rw [hread]
  refine ⟨fun f => ?_, fun f => ?_, ⟨[], _, rfl, ?_, .nil⟩, rfl⟩
  · cases f with
    | summary => exact .some (.inr isText_markup)
    | remarks => exact .some (.inr hremarks)
    | returns | value => exact .none
  · cases f with
    | param => exact .cons ⟨rfl, .inl rfl⟩ .nil
    | typeparam => exact .nil
  · intro x hx
    obtain rfl := List.mem_singleton.mp hx
    exact ⟨by decide, isText_markup⟩

theorem writeDocs_projects_stub : stub.toNode.isPlain = true ∧
    (∀ f : NamedField, ((stub.named f.toField.name).map (·.value "name")).Nodup) ∧
    IsMerged (DocFields.ofDocs [] stub) filled ∧
    ∃ d', writeDocs [] filled stub = (d', none) ∧ Projects filled stub d' := by
  have hplain : stub.toNode.isPlain = true := by decide
  exact ⟨hplain, stub_distinct, filled_merged,
    writeDocs_projects hplain stub_distinct filled_merged⟩

-- ---------------------------------------------------------------------------
-- Identifiers that fall together
-- ---------------------------------------------------------------------------

def identified (id : String) : Node :=
  .element { name := Xml.Name.plain "b", attributes := [⟨⟨Xml.xmlUri, "xml", "id"⟩, .plain id⟩] } []

def twins : Element where
  tag := { name := Xml.Name.plain "summary" }
  children := [identified " a", identified "  a"]

/-- On one line both identifiers are the same, so what the element says is no markup any more. It is
written as text and read as something else. -/
theorem twins_not_projected :
    Xml.parse? "<summary><b xml:id=\" a\"/><b xml:id=\"  a\"/></summary>" =
    some twins ∧ twins.IsPlain ∧
      stub.toNode.isPlain = true ∧
      (∀ f : NamedField, ((stub.named f.toField.name).map (·.value "name")).Nodup) ∧
      (DocFields.ofDocs [] stub).summary.isSome = true ∧ Content.text [] twins ≠ "" ∧
      ∃ d', writeDocs [] { DocFields.ofDocs [] stub with summary := some (Content.text [] twins) }
        stub = (d', none) ∧
        (DocFields.ofDocs [] d').summary ≠ some (Content.text [] twins) := by
  have hroot : Xml.root? {} "<summary><b xml:id=\" a\"/><b xml:id=\"  a\"/></summary>".toList =
      some twins := by
    rw [String.toList_ofList]
    rfl
  have hparse : Xml.parse? "<summary><b xml:id=\" a\"/><b xml:id=\"  a\"/></summary>" =
      some twins := by
    rw [Xml.parse?, String.toList_ofList]
    rfl
  have hplain : twins.IsPlain := ⟨⟨0, (Xml.root?_sound (by decide) hroot).sound⟩, by decide⟩
  exact ⟨hparse, hplain, by decide, stub_distinct, by decide, by decide +kernel, _, rfl,
    by decide +kernel⟩

end DocMerge.Writing

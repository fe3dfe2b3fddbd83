import DocMerge.Docs.Writing
import DocMerge.Proofs.Markup

/-!
# Edits of the children with a name

The writing of an entry goes over the children of its element once for each name. A pass makes the
children with its name say what they are to say, and all other children are the same as before.
Passes for different names do not disturb one another, so what one has achieved holds after all of
them.
-/

namespace DocMerge.Xml

-- ---------------------------------------------------------------------------
-- Children with a name
-- ---------------------------------------------------------------------------

def Node.named (name : String) (nodes : List Node) : List Element :=
  (nodes.filter (Node.isNamed name)).filterMap Node.element?

theorem Element.named_eq (e : Element) (name : String) :
    e.named name = Node.named name e.children := rfl

theorem Node.named_cons_of_is {e : Element} (h : e.tag.name.is name = true) (nodes : List Node) :
    named name (e.toNode :: nodes) = e :: named name nodes := by
  have helement : e.toNode.element? = some e := rfl
  rw [named, List.filter_cons_of_pos (by exact h), List.filterMap_cons_some helement, named]

theorem Node.named_cons_of_not {n : Node} (h : n.isNamed name = false) (nodes : List Node) :
    named name (n :: nodes) = named name nodes := by
  rw [named, List.filter_cons_of_neg (by simp [h]), named]

theorem Node.named_append (name : String) (first second : List Node) :
    named name (first ++ second) = named name first ++ named name second := by
  simp [named]

theorem Node.isNamed_cases (name : String) (n : Node) :
    n.isNamed name = false ∨ ∃ e : Element, n = e.toNode ∧ e.tag.name.is name = true := by
  cases n with
  | element tag children =>
    cases h : tag.name.is name with
    | false => exact .inl h
    | true => exact .inr ⟨⟨tag, children⟩, rfl, h⟩
  | _ => exact .inl rfl

theorem Node.mem_named {nodes : List Node} (h : e ∈ named name nodes) :
    e.toNode ∈ nodes ∧ e.tag.name.is name = true := by
  obtain ⟨n, hn, he⟩ := List.mem_filterMap.mp h
  obtain ⟨hmem, hname⟩ := List.mem_filter.mp hn
  cases n with
  | element tag children =>
    obtain rfl : ⟨tag, children⟩ = e := Option.some.inj he
    exact ⟨hmem, hname⟩
  | _ => cases he

theorem Name.is_unique {n : Name} (h : n.is first = true) (h' : n.is second = true) :
    first = second := by
  simp only [Name.is, Bool.and_eq_true, beq_iff_eq] at h h'
  exact h.2.symm.trans h'.2

end DocMerge.Xml

namespace DocMerge.Content

open Text (isBlank)
open Xml (Element Node)

-- ---------------------------------------------------------------------------
-- Blocks of remarks
-- ---------------------------------------------------------------------------

structure IsRemarks (s : String) : Prop where
  ne_empty : s ≠ ""
  trimmed : trimmed s = s
  writable : isWritable s = true

def heading : List Char := ['#', '#', ' ', 'R', 'e', 'm', 'a', 'r', 'k', 's', '\n', '\n']

theorem behindHeading?_heading (hbefore : ∀ c ∈ before, isBlank c = true)
    (h : isBlank first = false) (rest : List Char) :
    behindHeading? (heading ++ (before ++ first :: rest)) = some (first :: rest) := by
  have hspace : ∀ more, Text.trimStart (' ' :: 'R' :: more) = 'R' :: more := fun more => rfl
  have hword : ∀ more, dropWord? ['r', 'e', 'm', 'a', 'r', 'k', 's']
      ('R' :: 'e' :: 'm' :: 'a' :: 'r' :: 'k' :: 's' :: more) = some more := fun more => rfl
  have hkept : Text.trimStart (before ++ first :: rest) = first :: rest := by
    rw [Text.trimStart, List.dropWhile_append_of_pos hbefore,
      List.dropWhile_cons_of_neg (by simp [h])]
  have hlines : Text.trimStart ('\n' :: '\n' :: (before ++ first :: rest)) = first :: rest := by
    simp [Text.trimStart_cons, hkept, show isBlank '\n' = true from rfl]
  simp [behindHeading?, heading, hspace, hword, hlines, show isBlank '\n' = true from rfl]

theorem trimmed_eq_empty_iff : trimmed s = "" ↔ Text.trim s.toList = [] := by
  rw [trimmed, ← String.toList_inj, String.toList_ofList, String.toList_empty]

theorem withoutHeading_remarksBlock (h : trimmed s ≠ "") :
    withoutHeading (remarksBlock s) = trimmed s := by
  obtain ⟨before, after, hbefore, hafter, hs⟩ := Text.trim_between s.toList
  have hends := Text.hasEnds_trim fun hnil => h (trimmed_eq_empty_iff.mpr hnil)
  obtain ⟨first, rest, hfirst, hstart⟩ := hends.first
  obtain ⟨rest', last, hlast, hend⟩ := hends.last
  have hblock : (remarksBlock s).toList =
      '\n' :: '\n' :: (heading ++ before ++ rest' ++ last :: (after ++ ['\n', '\n'])) := by
    rw [hlast] at hs
    simp [remarksBlock, heading, hs]
  have hkept : Text.trim (remarksBlock s).toList = heading ++ (before ++ Text.trim s.toList) := by
    have hblanks : Text.trimEnd (after ++ ['\n', '\n']) = [] := by
      rw [Text.trimEnd_eq_rdropWhile, List.rdropWhile_eq_nil_iff]
      simpa [or_imp, forall_and, show isBlank '\n' = true from rfl] using hafter
    have hstartblock : Text.trimStart (remarksBlock s).toList =
        heading ++ before ++ rest' ++ last :: (after ++ ['\n', '\n']) := by
      rw [hblock]
      simp [Text.trimStart_cons, heading, show isBlank '\n' = true from rfl,
        show isBlank '#' = false from rfl]
    rw [Text.trim, hstartblock, Text.trimEnd_mark _ hend, hblanks, hlast]
    simp
  rw [withoutHeading, hkept, trimmed, hfirst]
  simp only [behindHeading?_heading hbefore hstart, Option.getD_some]

theorem setBlock_cons_of_not {n : Node} (h : n.isNamed "format" = false) (s : String)
    (nodes : List Node) :
    setBlock s (n :: nodes) = n :: setBlock s nodes := by
  cases n with
  | element tag children =>
    simp only [Node.isNamed] at h
    simp [setBlock, Node.element?, h]
  | _ => rfl

theorem setBlock_cons_of_is {format : Element} (h : format.tag.name.is "format" = true) (s : String)
    (nodes : List Node) :
    setBlock s (format.toNode :: nodes) =
      Element.toNode ⟨format.tag, .cdata (remarksBlock s) ::
        Node.behindText format.children⟩ :: nodes := by
  simp [setBlock, Element.toNode, Node.element?, h]

theorem named_setBlock (s : String) (nodes : List Node) :
    Node.named "format" (setBlock s nodes) =
      match Node.named "format" nodes with
      | [] => []
      | format :: rest =>
        ⟨format.tag, .cdata (remarksBlock s) :: Node.behindText format.children⟩ :: rest := by
  induction nodes with
  | nil => rfl
  | cons n nodes ih =>
    rcases Node.isNamed_cases "format" n with hn | ⟨format, rfl, hformat⟩
    · rw [setBlock_cons_of_not hn, Node.named_cons_of_not hn, Node.named_cons_of_not hn, ih]
    · rw [setBlock_cons_of_is hformat, Node.named_cons_of_is hformat,
        Node.named_cons_of_is (by exact hformat)]

theorem leadingText?_cdata (s : String) (nodes : List Node) :
    Node.leadingText? (.cdata s :: Node.behindText nodes) = some s := by
  have hnone : (Node.behindText nodes).takeWhile Node.isText = [] := by
    have hhead := Xml.head?_behindText nodes
    cases hbehind : Node.behindText nodes with
    | nil => rfl
    | cons n rest =>
      rw [hbehind] at hhead
      exact List.takeWhile_cons_of_neg (by simp [hhead n rfl])
  rw [Node.leadingText?, List.takeWhile_cons_of_pos rfl, hnone]
  simp [Node.characters, String.join]

/-- What is read of remarks that have been written is what their block says. -/
theorem setRemarks_block (h : isWritable s = true) (outer : Xml.Scope) (e : Element) :
    ∃ children, setRemarks e s = ({ e with children }, none) ∧
      remarks outer { e with children } = withoutHeading (remarksBlock s) := by
  obtain ⟨kept, hkept, format, rest, hformat⟩ : ∃ kept, (if (e.find? "format").isSome then e
      else { e with children := [emptyFormat] }) = { e with children := kept } ∧
        ∃ format rest, Node.named "format" kept = format :: rest := by
    cases hfind : Node.named "format" e.children with
    | nil =>
      have hnone : (e.find? "format").isSome = false := by
        rw [Element.find?, Element.named_eq, hfind]; rfl
      exact ⟨[emptyFormat], by rw [if_neg (by simp [hnone])], _, [], rfl⟩
    | cons format rest =>
      have hsome : (e.find? "format").isSome = true := by
        rw [Element.find?, Element.named_eq, hfind]; rfl
      exact ⟨e.children, if_pos hsome, format, rest, hfind⟩
  refine ⟨setBlock s kept, ?_, ?_⟩
  · simp only [Content.setRemarks, hkept, h, if_true]
  · have hfind : Element.find? { e with children := setBlock s kept } "format" =
        some ⟨format.tag, .cdata (remarksBlock s) :: Node.behindText format.children⟩ := by
      rw [Element.find?, Element.named_eq, named_setBlock, hformat]
      rfl
    simp only [remarks, hfind, Element.text?, leadingText?_cdata, Option.getD_some]

/-- Remarks that are written into an element are read from it again. -/
theorem IsRemarks.setRemarks (h : IsRemarks s) (outer : Xml.Scope) (e : Element) :
    ∃ children, setRemarks e s = ({ e with children }, none) ∧
    remarks outer { e with children } = s := by
  obtain ⟨children, hset, hread⟩ := setRemarks_block h.writable outer e
  have hne : DocMerge.trimmed s ≠ "" := by
    rw [h.trimmed]
    exact h.ne_empty
  exact ⟨children, hset, by rw [hread, withoutHeading_remarksBlock hne, h.trimmed]⟩

end DocMerge.Content

namespace DocMerge.Writing

open Content (Edited IsText IsRemarks)
open Xml (Element Node)

-- ---------------------------------------------------------------------------
-- Elements
-- ---------------------------------------------------------------------------

def said (e : Element) : String :=
  if e.tag.name.is "remarks" then Content.remarks [] e else Content.text [] e

/-- An element as it was, or with other children and another text. -/
def Rewritten (e e' : Element) :
    Prop := e' = e ∨ ∃ children, e' = { e with children } ∧ said e' ≠ said e

def Edit (fits : String → Prop) (old new : String) : Prop := new = old ∨ fits new

def Achieves (edit : Element → Edited) (e : Element) (s : String) : Prop :=
  ∃ e', edit e = (e', none) ∧ Rewritten e e' ∧ said e' = s

theorem Rewritten.tag (h : Rewritten e e') : e'.tag = e.tag := by
  obtain rfl | ⟨children, rfl, -⟩ := h <;> rfl

theorem Rewritten.value (h : Rewritten e e') (name : String) : e'.value name = e.value name := by
  rw [Element.value, Element.attribute?, h.tag]
  rfl

theorem said_eq_text {e : Element} (hname : e.tag.name.is name = true) (hne : name ≠ "remarks") :
    said e = Content.text [] e := by
  rw [said, if_neg fun hremarks => hne (Xml.Name.is_unique hname hremarks)]

theorem said_eq_remarks {e : Element} (hname : e.tag.name.is "remarks" = true) :
    said e = Content.remarks [] e :=
  if_pos hname

theorem writeText_achieves {e : Element} (hname : e.tag.name.is name = true)
    (hne : name ≠ "remarks")
    (hbare : e.tag.declarations = []) (h : Edit IsText (said e) s) :
    Achieves (writeText [] s) e s := by
  by_cases hsame : Content.text [] e = s
  · exact ⟨e, if_pos (by simp [hsame]), .inl rfl, (said_eq_text hname hne).trans hsame⟩
  · have hsaid := said_eq_text hname hne
    have hfits : IsText s := h.resolve_left fun hold => hsame (hsaid.symm.trans hold.symm)
    obtain ⟨children, hset, -, hread⟩ := hfits.setInner hbare
    have hsaid' : said { e with children } = s := (said_eq_text (by exact hname) hne).trans hread
    refine ⟨{ e with children }, ?_, .inr ⟨children, rfl, ?_⟩, hsaid'⟩
    · rw [writeText, if_neg (by simp [hsame]), hset]
    · rw [hsaid', hsaid]
      exact Ne.symm hsame

theorem writeRemarks_achieves {e : Element} (hname : e.tag.name.is "remarks" = true)
    (h : Edit IsRemarks (said e) s) :
    Achieves (writeRemarks [] s) e s := by
  by_cases hsame : Content.remarks [] e = s
  · exact ⟨e, if_pos (by simp [hsame]), .inl rfl, (said_eq_remarks hname).trans hsame⟩
  · have hsaid := said_eq_remarks hname
    have hfits : IsRemarks s := h.resolve_left fun hold => hsame (hsaid.symm.trans hold.symm)
    obtain ⟨children, hset, hread⟩ := hfits.setRemarks [] e
    have hsaid' : said { e with children } = s := (said_eq_remarks (by exact hname)).trans hread
    refine ⟨{ e with children }, ?_, .inr ⟨children, rfl, ?_⟩, hsaid'⟩
    · rw [writeRemarks, if_neg (by simp [hsame]), hset]
    · rw [hsaid', hsaid]
      exact Ne.symm hsame

-- ---------------------------------------------------------------------------
-- Children
-- ---------------------------------------------------------------------------

def Keeps (names : List String) (n n' : Node) : Prop :=
  n' = n ∨ ∃ e e', n = Element.toNode e ∧ n' = e'.toNode ∧
  (∃ name ∈ names, e.tag.name.is name = true) ∧ Rewritten e e'

structure Rewrites (names : List String) (d d' : Element) : Prop where
  tag : d'.tag = d.tag
  others : ∀ name ∉ names, d'.named name = d.named name
  keeps : List.Forall₂ (Keeps names) d.children d'.children

theorem Keeps.mono (h : Keeps names n n') (hsub : names ⊆ more) : Keeps more n n' := by
  obtain rfl | ⟨e, e', rfl, rfl, ⟨name, hmem, hname⟩, he⟩ := h
  · exact .inl rfl
  · exact .inr ⟨e, e', rfl, rfl, ⟨name, hsub hmem, hname⟩, he⟩

/-- A child is rewritten at most once, since it has only one of the names. -/
theorem Keeps.trans (h : Keeps names n n') (h' : Keeps [name] n' n'') (hnew : name ∉ names) :
    Keeps (name :: names) n n'' := by
  obtain rfl | ⟨e, e', rfl, rfl, ⟨first, hfirst, hfirstname⟩, he⟩ := h
  · exact h'.mono (by simp)
  · obtain rfl | ⟨e₁, e₂, heq, rfl, ⟨second, hsecond, hsecondname⟩, -⟩ := h'
    · exact .inr ⟨e, e', rfl, rfl, ⟨first, List.mem_cons_of_mem _ hfirst, hfirstname⟩, he⟩
    · obtain rfl : e' = e₁ := by
        cases e'
        cases e₁
        simpa [Element.toNode] using heq
      obtain rfl := List.mem_singleton.mp hsecond
      rw [he.tag] at hsecondname
      exact absurd (Xml.Name.is_unique hsecondname hfirstname ▸ hfirst) hnew

theorem forall₂_trans (htrans : ∀ a b c, R a b → S b c → T a c) {first second third : List Node}
    (h : List.Forall₂ R first second) (h' : List.Forall₂ S second third) :
    List.Forall₂ T first third := by
  induction h generalizing third with
  | nil =>
    cases h'
    exact .nil
  | cons hab _ ih =>
    cases h' with
    | cons hbc hrest => exact .cons (htrans _ _ _ hab hbc) (ih hrest)

theorem Rewrites.refl (d : Element) : Rewrites [] d d :=
  ⟨rfl, fun _ _ => rfl, List.forall₂_same.mpr fun _ _ => .inl rfl⟩

theorem Rewrites.trans (h : Rewrites names d d') (h' : Rewrites [name] d' d'')
    (hnew : name ∉ names) :
    Rewrites (name :: names) d d'' where
  tag := h'.tag.trans h.tag
  others other hother := by
    rw [List.mem_cons, not_or] at hother
    rw [h'.others other (by simpa using hother.1), h.others other hother.2]
  keeps := forall₂_trans (fun _ _ _ hfirst hsecond => hfirst.trans hsecond hnew) h.keeps h'.keeps

-- ---------------------------------------------------------------------------
-- Passes
-- ---------------------------------------------------------------------------

inductive Edits (edit : σ → Element → σ × Edited) : σ → List Element → σ → List Element → Prop
  | nil : Edits edit state [] state []
  | cons : edit state e = (next, e', none) → Rewritten e e' → Edits edit next es last es' →
      Edits edit state (e :: es) last (e' :: es')

theorem editNamed_cons_of_not {n : Node} (h : n.isNamed name = false)
    (edit : σ → Element → σ × Edited) (state : σ)
    (nodes : List Node) : editNamed name edit state (n :: nodes) =
      ((editNamed name edit state nodes).1, n :: (editNamed name edit state nodes).2.1,
        (editNamed name edit state nodes).2.2) := by
  have hnone : n.element?.filter (·.tag.name.is name) = none := by
    cases n with
    | element tag children => exact Option.filter_some_neg (by simpa [Node.isNamed] using h)
    | _ => rfl
  rw [editNamed, hnone]

theorem editNamed_cons_of_is {e : Element} (h : e.tag.name.is name = true)
    {edit : σ → Element → σ × Edited}
    (hedit : edit state e = (next, e', none)) (nodes : List Node) :
    editNamed name edit state (e.toNode :: nodes) =
      ((editNamed name edit next nodes).1, e'.toNode :: (editNamed name edit next nodes).2.1,
        (editNamed name edit next nodes).2.2) := by
  have hsome : e.toNode.element?.filter (·.tag.name.is name) = some e := Option.filter_some_pos h
  rw [editNamed, hsome]
  simp only [hedit]

theorem editNamed_of_edits {nodes : List Node}
    (h : Edits edit state (Node.named name nodes) last es) :
    ∃ nodes', editNamed name edit state nodes = (last, nodes', none) ∧ Node.named name nodes' = es ∧
      (∀ other ≠ name, Node.named other nodes' = Node.named other nodes) ∧
      List.Forall₂ (Keeps [name]) nodes nodes' := by
  induction nodes generalizing state es with
  | nil =>
    cases h
    exact ⟨[], rfl, rfl, fun _ _ => rfl, .nil⟩
  | cons n nodes ih =>
    rcases Node.isNamed_cases name n with hn | ⟨e, rfl, he⟩
    · rw [Node.named_cons_of_not hn] at h
      obtain ⟨nodes', hedit, hnamed, hothers, hkeeps⟩ := ih h
      refine ⟨n :: nodes', ?_, ?_, fun other hne => ?_, .cons (.inl rfl) hkeeps⟩
      · rw [editNamed_cons_of_not hn, hedit]
      · rw [Node.named_cons_of_not hn, hnamed]
      · rw [← List.singleton_append, Node.named_append, hothers other hne, ← Node.named_append,
          List.singleton_append]
    · rw [Node.named_cons_of_is he] at h
      cases h with
      | @cons _ _ next e' _ _ es' hfirst hrewritten hrest =>
        obtain ⟨nodes', hedit, hnamed, hothers, hkeeps⟩ := ih hrest
        have he' : e'.tag.name.is name = true := by rw [hrewritten.tag, he]
        have hchild : Keeps [name] e.toNode e'.toNode :=
          .inr ⟨e, e', rfl, rfl, ⟨name, List.mem_singleton_self name, he⟩, hrewritten⟩
        refine ⟨e'.toNode :: nodes', ?_, ?_, fun other hne => ?_, .cons hchild hkeeps⟩
        · rw [editNamed_cons_of_is he hfirst, hedit]
        · rw [Node.named_cons_of_is he', hnamed]
        · have hnot : ∀ {x : Element}, x.tag.name.is name = true →
              x.toNode.isNamed other = false := fun hx =>
            Bool.eq_false_iff.mpr fun hother => hne (Xml.Name.is_unique hother hx)
          rw [Node.named_cons_of_not (hnot he'), Node.named_cons_of_not (hnot he),
            hothers other hne]

theorem editChildren_of_edits {d : Element} (h : Edits edit state (d.named name) last es) :
    ∃ d', editChildren name edit state d = (last, d', none) ∧ Rewrites [name] d d' ∧
    d'.named name = es := by
  obtain ⟨children, hedit, hnamed, hothers, hkeeps⟩ := editNamed_of_edits h
  refine ⟨{ d with children }, ?_,
    ⟨rfl, fun other hother => hothers other (by simpa using hother), hkeeps⟩, hnamed⟩
  rw [editChildren, hedit]

def firstOnly (edit : Element → Edited) (done : Bool) (e : Element) : Bool × Edited :=
  if done then (true, e, none) else (true, edit e)

theorem firstOnly_edits (edit : Element → Edited) (es : List Element) :
    Edits (firstOnly edit) true es true es := by
  induction es with
  | nil => exact .nil
  | cons e es ih => exact .cons rfl (.inl rfl) ih

theorem editFirst_of_achieves {d e : Element} {edit : Element → Edited}
    (hnamed : d.named name = e :: rest)
    (h : Achieves edit e s) : ∃ d' e', editFirst name edit d = (d', none) ∧ Rewrites [name] d d' ∧
      d'.named name = e' :: rest ∧ said e' = s := by
  obtain ⟨e', hedit, hrewritten, hsaid⟩ := h
  have hedits : Edits (firstOnly edit) false (d.named name) true (e' :: rest) := by
    rw [hnamed]
    exact .cons (by simp [firstOnly, hedit]) hrewritten (firstOnly_edits edit rest)
  obtain ⟨d', hchildren, hrewrites, hread⟩ := editChildren_of_edits hedits
  exact ⟨d', e', congrArg Prod.snd hchildren, hrewrites, hread, hsaid⟩

theorem editFirst_achieves {d : Element} {edit : String → Element → Edited}
    (hfirst : Option.Rel R ((d.find? name).map said) text)
    (hachieves : ∀ e ∈ d.named name, ∀ s, R (said e) s → Achieves (edit s) e s) :
    ∃ d', (match text with
        | some s => editFirst name (edit s) d
        | none => (d, none)) = (d', none) ∧ Rewrites [name] d d' ∧
      (d'.find? name).map said = text ∧ (d'.named name).tail = (d.named name).tail := by
  cases hnamed : d.named name with
  | nil =>
    rw [Element.find?, hnamed] at hfirst
    cases hfirst
    refine ⟨d, rfl, ⟨rfl, fun _ _ => rfl, List.forall₂_same.mpr fun _ _ => .inl rfl⟩,
      ?_, by rw [hnamed]⟩
    rw [Element.find?, hnamed]
    rfl
  | cons e rest =>
    rw [Element.find?, hnamed] at hfirst
    cases hfirst with
    | some hedit =>
      obtain ⟨d', e', hrun, hrewrites, hread, hsaid⟩ :=
        editFirst_of_achieves hnamed (hachieves e (hnamed ▸ List.mem_cons_self) _ hedit)
      refine ⟨d', hrun, hrewrites, ?_, by rw [hread]; rfl⟩
      rw [Element.find?, hread]
      simp [hsaid]

def writeLookedUp (texts : NamedTexts) (_ : Unit) (e : Element) : Unit × Edited :=
  match texts.lookup (e.value "name") with
  | some text => ((), writeText [] text e)
  | none => ((), e, none)

theorem writeLookedUp_edits {texts : NamedTexts} (hne : kind ≠ "remarks")
    (hes : ∀ e ∈ es, e.tag.name.is kind = true ∧ e.tag.declarations = [])
    (hpairs : ∀ pair ∈ pairs, pair ∈ texts.toList)
    (h : List.Forall₂ (fun e pair => pair.1 = e.value "name" ∧
      Edit IsText (said e) pair.2) es pairs) :
    ∃ es', Edits (writeLookedUp texts) () es () es' ∧
    es'.map (fun e => (e.value "name", said e)) = pairs := by
  induction h with
  | nil => exact ⟨[], .nil, rfl⟩
  | @cons e pair es pairs hfirst _ ih =>
    rw [List.forall_mem_cons] at hes hpairs
    obtain ⟨es', hrest, hread⟩ := ih hes.2 hpairs.2
    obtain ⟨e', hwrite, hrewritten, hsaid⟩ := writeText_achieves hes.1.1 hne hes.1.2 hfirst.2
    have hlookup : texts.lookup (e.value "name") = some pair.2 := by
      rw [← hfirst.1]
      exact NamedTexts.mem_toList_iff.mp hpairs.1
    refine ⟨e' :: es', .cons ?_ hrewritten hrest, ?_⟩
    · simp only [writeLookedUp, hlookup, hwrite]
    · rw [List.map_cons, hread, hrewritten.value, hsaid, ← hfirst.1]

theorem writeNamed_achieves {d : Element} {texts : NamedTexts} (hne : kind ≠ "remarks")
    (hes : ∀ e ∈ d.named kind, e.tag.name.is kind = true ∧ e.tag.declarations = [])
    (h : List.Forall₂ (fun e pair => pair.1 = e.value "name" ∧ Edit IsText (said e) pair.2)
      (d.named kind) texts.toList) :
    ∃ d', writeNamed [] kind texts d = (d', none) ∧ Rewrites [kind] d d' ∧
      (d'.named kind).map (fun e => (e.value "name", said e)) = texts.toList := by
  obtain ⟨es', hedits, hread⟩ := writeLookedUp_edits hne hes (fun _ hpair => hpair) h
  obtain ⟨d', hrun, hrewrites, hnamed⟩ := editChildren_of_edits hedits
  exact ⟨d', congrArg Prod.snd hrun, hrewrites, by rw [hnamed, hread]⟩

def writeNext (left : List ExceptionDoc) (e : Element) : List ExceptionDoc × Edited :=
  match left with
  | x :: left => (left, writeText [] x.text e)
  | [] => ([], e, none)

theorem writeNext_edits (hes : ∀ e ∈ es, e.tag.name.is "exception" = true ∧ e.tag.declarations = [])
    (h : List.Forall₂ (fun e x => x.cref = e.value "cref" ∧ Edit IsText (said e) x.text) es kept)
    (added : List ExceptionDoc) : ∃ es', Edits writeNext (kept ++ added) es added es' ∧
      es'.map (fun e => (⟨e.value "cref", said e⟩ : ExceptionDoc)) = kept := by
  induction h with
  | nil => exact ⟨[], .nil, rfl⟩
  | @cons e x es kept hfirst _ ih =>
    rw [List.forall_mem_cons] at hes
    obtain ⟨es', hrest, hread⟩ := ih hes.2
    obtain ⟨e', hwrite, hrewritten, hsaid⟩ :=
      writeText_achieves hes.1.1 (by decide) hes.1.2 hfirst.2
    refine ⟨e' :: es', .cons ?_ hrewritten hrest, ?_⟩
    · simp only [writeNext, List.cons_append, hwrite]
    · rw [List.map_cons, hread, hrewritten.value, hsaid, ← hfirst.1]

/-- The exceptions that there are come to say the first texts; the others are left. -/
theorem writeExceptions_achieves {d : Element}
    (hes : ∀ e ∈ d.named "exception", e.tag.name.is "exception" = true ∧ e.tag.declarations = [])
    (h : List.Forall₂ (fun e x => x.cref = e.value "cref" ∧ Edit IsText (said e) x.text)
      (d.named "exception") kept)
    (added : List ExceptionDoc) :
    ∃ d', writeExceptions [] (kept ++ added) d = (added, d', none) ∧ Rewrites ["exception"] d d' ∧
      (d'.named "exception").map (fun e => ⟨e.value "cref", said e⟩) = kept := by
  obtain ⟨es', hedits, hread⟩ := writeNext_edits hes h added
  obtain ⟨d', hrun, hrewrites, hnamed⟩ := editChildren_of_edits hedits
  exact ⟨d', hrun, hrewrites, by rw [hnamed, hread]⟩

-- ---------------------------------------------------------------------------
-- Passes one after another
-- ---------------------------------------------------------------------------

structure Goal where
  name : String
  holds : List Element → Prop

/-- What edits of an element achieve: they rewrite the children with the names of goals, which are
met. -/
def Meets (goals : List Goal) (d : Element) (edited : Edited) : Prop :=
  ∃ d', edited = (d', none) ∧ Rewrites (goals.map (·.name)) d d' ∧ ∀ goal ∈ goals,
  goal.holds (d'.named goal.name)

theorem Meets.nil (d : Element) : Meets [] d (d, none) := ⟨d, rfl, .refl d, by simp⟩

/-- A pass for another name adds its own goal to those that are met. -/
theorem Meets.andThen (h : Meets goals d edited) (goal : Goal)
    (hnew : goal.name ∉ goals.map (·.name))
    (hnext : ∀ d', d'.named goal.name = d.named goal.name →
      ∃ d'', next d' = (d'', none) ∧ Rewrites [goal.name] d' d'' ∧
      goal.holds (d''.named goal.name)) :
    Meets (goal :: goals) d (andThen edited next) := by
  obtain ⟨d', rfl, hrewrites, hmet⟩ := h
  obtain ⟨d'', hrun, hrewrites', hgoal⟩ := hnext d' (hrewrites.others _ hnew)
  refine ⟨d'', hrun, hrewrites.trans hrewrites' hnew, ?_⟩
  rw [List.forall_mem_cons]
  refine ⟨hgoal, fun other hother => ?_⟩
  have hne : other.name ≠ goal.name := fun heq => hnew (heq ▸ List.mem_map_of_mem hother)
  rw [hrewrites'.others other.name (by simpa using hne)]
  exact hmet other hother

end DocMerge.Writing

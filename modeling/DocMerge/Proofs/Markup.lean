import DocMerge.Proofs.RoundTrips
import DocMerge.Proofs.Squeezing

/-!
# Texts that are written into elements

What an element says on one line is the markup of a tidy list of nodes: squeezed, and without blanks
at the ends. Written into another element it becomes those nodes, so it is read from there as it
was.
-/

namespace DocMerge.Text

theorem dropWhile_append_of_head (p : Char → Bool) (first : List Char)
    (h : ∀ c ∈ second.head?, p c = false) :
    (first ++ second).dropWhile p = first.dropWhile p ++ second := by
  induction first with
  | nil =>
    cases second with
    | nil => rfl
    | cons c second => exact List.dropWhile_cons_of_neg (by simp [h c rfl])
  | cons c first ih =>
    cases hc : p c with
    | true =>
      rw [List.cons_append, List.dropWhile_cons_of_pos hc, List.dropWhile_cons_of_pos hc, ih]
    | false =>
      rw [List.cons_append, List.dropWhile_cons_of_neg (by simp [hc]),
        List.dropWhile_cons_of_neg (by simp [hc]),
        List.cons_append]

theorem trimEnd_mark (first : List Char) (h : isBlank c = false) (second : List Char) :
    trimEnd (first ++ c :: second) = first ++ c :: trimEnd second := by
  induction first with
  | nil => exact trimEnd_cons_of_not_blank h
  | cons d first ih =>
    rw [List.cons_append, trimEnd, ih]
    cases first <;> rfl

end DocMerge.Text

namespace DocMerge.Xml

open Text (isBlank squeeze_append_of_head)

-- ---------------------------------------------------------------------------
-- Tidy nodes
-- ---------------------------------------------------------------------------

def textNodes (cs : List Char) : List Node := if cs = [] then [] else [.text (String.ofList cs)]

@[simp] theorem printAll_textNodes (cs : List Char) :
    Node.printAll (textNodes cs) = cs.flatMap escapeText := by
  unfold textNodes
  split
  · rename_i hnil
    rw [hnil]
    rfl
  · simp [Node.printAll, Node.print]

theorem Node.printAll_append (first second : List Node) :
    printAll (first ++ second) = printAll first ++ printAll second := by
  induction first with
  | nil => rfl
  | cons n first ih => rw [List.cons_append, printAll, printAll, ih, List.append_assoc]

def Node.trimEnd : List Node → List Node
  | [] => []
  | n :: rest =>
    match n, rest with
    | .text s, [] => textNodes (s.toList.rdropWhile (isLoose escapeText))
    | n, rest => n :: Node.trimEnd rest

/-- Nodes that may stand in an element of a document without namespaces, and of which a text alone
may come first. -/
structure AreTidy (nodes : List Node) : Prop where
  sound : ∀ n ∈ nodes, n.IsSound [] 1
  plain : ∀ n ∈ nodes, n.isPlain = true
  apart : Apart nodes
  leads : ∃ cs rest, nodes = textNodes cs ++ rest ∧ '\r' ∉ cs ∧ ∀ n ∈ rest.head?, n.isText = false

theorem Node.trimEnd_append (first : List Node) (h : second ≠ []) :
    trimEnd (first ++ second) = first ++ trimEnd second := by
  induction first with
  | nil => rfl
  | cons n first ih =>
    obtain ⟨m, more, hmore⟩ :=
      List.exists_cons_of_ne_nil (List.append_ne_nil_of_right_ne_nil first h)
    rw [List.cons_append, List.cons_append, ← ih, hmore]
    cases n <;> rfl

theorem Node.trimEnd_textNodes (cs : List Char) :
    trimEnd (textNodes cs) = textNodes (cs.rdropWhile (isLoose escapeText)) := by
  by_cases hnil : cs = []
  · rw [hnil]
    rfl
  · rw [textNodes, if_neg hnil, trimEnd, String.toList_ofList]

theorem Node.trimEnd_cons (h : n.isPlainText = false) (nodes : List Node) :
    trimEnd (n :: nodes) = n :: trimEnd nodes := by
  cases n with
  | text => cases h
  | _ => rfl

theorem Node.isPlainText_of_isText {n : Node} (h : n.isText = false) : n.isPlainText = false := by
  cases n with
  | text => cases h
  | _ => rfl

theorem Node.printAll_trimEnd {nodes : List Node} (hapart : Apart nodes)
    (hsound : ∀ n ∈ nodes, n.IsSound scope depth) :
    printAll (trimEnd nodes) = Text.trimEnd (printAll nodes) := by
  induction nodes with
  | nil => rfl
  | cons n nodes ih =>
    rw [List.forall_mem_cons] at hsound
    obtain ⟨hnext, hrest⟩ := List.isChain_cons.mp hapart
    have htail := ih hrest hsound.2
    cases hn : n.isPlainText with
    | false =>
      obtain ⟨-, cs, hcs⟩ := hsound.1.print_visible hn
      rw [trimEnd_cons hn, printAll, printAll, htail, hcs, List.append_assoc, List.append_assoc]
      exact (Text.trimEnd_mark cs (by decide) _).symm
    | true =>
      cases n with
      | text s =>
        cases nodes with
        | nil =>
          rw [trimEnd, printAll_textNodes, printAll, print, printAll, List.append_nil,
            isEscape_text.trimEnd_flatMap]
        | cons m nodes =>
          have hm := isPlainText_of_follows hn (hnext m rfl)
          obtain ⟨⟨cs, hcs⟩, -⟩ := (hsound.2 m List.mem_cons_self).print_visible hm
          have hcons : ∀ more, printAll (.text s :: more) = print (.text s) ++
              printAll more := fun _ => rfl
          have hkeep : trimEnd (.text s :: m :: nodes) = .text s :: trimEnd (m :: nodes) := rfl
          have hprint : printAll (m :: nodes) = '<' :: (cs ++ printAll nodes) := by
            rw [printAll, hcs, List.cons_append]
          rw [hkeep, hcons, htail, hcons, hprint, Text.trimEnd_mark _ (by decide),
            Text.trimEnd_cons_of_not_blank (by decide)]
      | _ => cases hn

theorem textNodes_sound (hallowed : AllAllowed cs) : ∀ n ∈ textNodes cs, n.IsSound scope depth := by
  unfold textNodes
  split
  · simp
  · rename_i hne
    rintro n hn
    obtain rfl := List.mem_singleton.mp hn
    exact .text (by simpa using hne) (by simpa using hallowed)

theorem textNodes_plain (cs : List Char) : ∀ n ∈ textNodes cs, n.isPlain = true := by
  unfold textNodes
  split <;> simp [Node.isPlain]

theorem Apart.textNodes_append {rest : List Node} (h : Apart rest)
    (hhead : ∀ n ∈ rest.head?, n.isText = false)
    (cs : List Char) : Apart (textNodes cs ++ rest) := by
  unfold textNodes
  split
  · exact h
  · refine List.isChain_cons.mpr ⟨fun n hn => ?_, h⟩
    have htext := hhead n hn
    cases n <;> first | rfl | cases htext

theorem Node.trimEnd_cases (nodes : List Node) :
    trimEnd nodes = nodes ∨ ∃ first s, nodes = first ++ [.text s] ∧
      trimEnd nodes = first ++ textNodes (s.toList.rdropWhile (isLoose escapeText)) := by
  induction nodes using List.reverseRecOn with
  | nil => exact .inl rfl
  | append_singleton first n ih =>
    rw [trimEnd_append first (List.cons_ne_nil n [])]
    cases n with
    | text s => exact .inr ⟨first, s, rfl, rfl⟩
    | _ => exact .inl rfl

theorem allAllowed_rdropWhile (h : AllAllowed cs) (p : Char → Bool) :
    AllAllowed (cs.rdropWhile p) :=
  fun c hc => h c ((List.rdropWhile_prefix p cs).subset hc)

theorem Node.mem_trimEnd {nodes : List Node} (hn : n ∈ trimEnd nodes) :
    n ∈ nodes ∨ ∃ s, .text s ∈ nodes ∧
    n ∈ textNodes (s.toList.rdropWhile (isLoose escapeText)) := by
  rcases trimEnd_cases nodes with hsame | ⟨first, s, rfl, htrim⟩
  · exact .inl (hsame ▸ hn)
  · rw [htrim, List.mem_append] at hn
    exact hn.imp (List.mem_append_left _) fun hn =>
      ⟨s, List.mem_append_right _ (List.mem_singleton_self _), hn⟩

theorem Apart.trimEnd {nodes : List Node} (h : Apart nodes) : Apart (Node.trimEnd nodes) := by
  rcases Node.trimEnd_cases nodes with hsame | ⟨first, s, rfl, htrim⟩
  · rwa [hsame]
  · obtain ⟨hfirst, -, hlast⟩ := List.isChain_append.mp h
    rw [htrim, textNodes]
    split
    · rwa [List.append_nil]
    · refine List.isChain_append.mpr ⟨hfirst, List.isChain_singleton _, fun n hn m hm => ?_⟩
      obtain rfl : Node.text _ = m := by simpa using hm
      rw [Node.joins_text, ← hlast n hn (.text s) rfl, Node.joins_text]

theorem AreTidy.trimEnd {nodes : List Node} (h : AreTidy nodes) : AreTidy (Node.trimEnd nodes) where
  sound n hn := by
    rcases Node.mem_trimEnd hn with hn | ⟨s, hs, hn⟩
    · exact h.sound n hn
    · cases h.sound _ hs with
      | text _ hallowed => exact textNodes_sound (allAllowed_rdropWhile hallowed _) n hn
  plain n hn := by
    rcases Node.mem_trimEnd hn with hn | ⟨s, -, hn⟩
    · exact h.plain n hn
    · exact textNodes_plain _ n hn
  apart := h.apart.trimEnd
  leads := by
    obtain ⟨cs, rest, rfl, hreturn, hhead⟩ := h.leads
    cases rest with
    | nil =>
      refine ⟨cs.rdropWhile (isLoose escapeText),
        [], by rw [List.append_nil, Node.trimEnd_textNodes, List.append_nil],
        fun hmem => hreturn ((List.rdropWhile_prefix _ cs).subset hmem), by simp⟩
    | cons n rest =>
      have hn : n.isText = false := hhead n rfl
      refine ⟨cs, n :: Node.trimEnd rest, ?_, hreturn, by simpa using hn⟩
      rw [Node.trimEnd_append _ (List.cons_ne_nil n rest),
        Node.trimEnd_cons (Node.isPlainText_of_isText hn)]

-- ---------------------------------------------------------------------------
-- What elements say
-- ---------------------------------------------------------------------------

theorem printAlone_nil (n : Node) : n.printAlone [] = n.print := by
  cases n <;> rfl

theorem flatMap_printAlone (nodes : List Node) :
    nodes.flatMap (Node.printAlone []) = Node.printAll nodes := by
  induction nodes with
  | nil => rfl
  | cons n nodes ih => rw [List.flatMap_cons, ih, printAlone_nil, Node.printAll]

theorem leadingText?_textNodes {rest : List Node} (hhead : ∀ n ∈ rest.head?, n.isText = false)
    (cs : List Char) :
    Node.leadingText? (textNodes cs ++ rest) = (if cs = [] then none else some (String.ofList cs)) ∧
      Node.behindText (textNodes cs ++ rest) = rest := by
  have hnone : rest.takeWhile Node.isText = [] ∧ rest.dropWhile Node.isText = rest := by
    cases rest with
    | nil => exact ⟨rfl, rfl⟩
    | cons n rest =>
      have hn : ¬n.isText = true := by simp [hhead n rfl]
      exact ⟨List.takeWhile_cons_of_neg hn, List.dropWhile_cons_of_neg hn⟩
  unfold textNodes
  split
  · rw [List.nil_append, Node.leadingText?, hnone.1]
    exact ⟨rfl, hnone.2⟩
  · have htext : Node.isText (.text (String.ofList cs)) = true := rfl
    rw [List.singleton_append, Node.leadingText?, Node.behindText, List.takeWhile_cons_of_pos htext,
      List.dropWhile_cons_of_pos htext, hnone.1, hnone.2]
    refine ⟨congrArg some ?_, rfl⟩
    simp [String.join, Node.characters]

theorem flatMap_escapeText {cs : List Char} (h : '\r' ∉ cs) :
    cs.flatMap Content.escapeText = cs.flatMap escapeText := by
  refine List.flatMap_congr fun c hc => content_escapeText_eq ?_
  rintro rfl
  exact h hc

theorem AreTidy.inner {nodes : List Node} (h : AreTidy nodes) {tag : Tag}
    (htag : tag.declarations = []) :
    Content.inner [] ⟨tag, nodes⟩ = String.ofList (Node.printAll nodes) := by
  obtain ⟨cs, rest, rfl, hreturn, hhead⟩ := h.leads
  obtain ⟨hleading, hbehind⟩ := leadingText?_textNodes hhead cs
  have htext : ((Element.text? ⟨tag, textNodes cs ++ rest⟩).getD "").toList = cs := by
    rw [Element.text?, hleading]
    split
    · rename_i hnil
      rw [hnil]
      rfl
    · exact String.toList_ofList
  have hscope : Element.scope [] ⟨tag, textNodes cs ++ rest⟩ = [] := by
    rw [Element.scope, htag]
    rfl
  rw [Content.inner, htext, hscope, hbehind, flatMap_escapeText hreturn, flatMap_printAlone,
    Node.printAll_append,
    printAll_textNodes]

structure Element.IsPlain (e : Element) : Prop where
  sound : ∃ depth, e.toNode.IsSound [] depth
  plain : e.toNode.isPlain = true

theorem isLoose_inner (c : Char) : isLoose Content.escapeText c = isBlank c := by
  cases hc : isBlank c with
  | false => rw [isLoose, hc, Bool.false_and]
  | true =>
    have hsame : Content.escapeText c = [c] := by
      by_cases hreturn : c = '\r'
      · rw [hreturn]
        rfl
      · rw [content_escapeText_eq hreturn]
        unfold escapeText
        split <;> first | rfl | exact absurd hc (by decide) | exact absurd rfl hreturn
    rw [isLoose, hc, hsame]
    simp

theorem squeezeLoose_inner (cs : List Char) :
    squeezeLoose Content.escapeText cs = Text.squeeze cs := by
  have hloose : isLoose Content.escapeText = isBlank := funext isLoose_inner
  induction cs with
  | nil => rfl
  | cons c cs ih =>
    rw [squeezeLoose, hloose, ih]
    cases hc : isBlank c with
    | true => rw [if_pos rfl, Text.squeeze_cons_of_blank hc]
    | false => rw [if_neg Bool.false_ne_true, Markdown.squeeze_cons_of_not_blank hc]

theorem leadingText?_toList (nodes : List Node) :
    ((Node.leadingText? nodes).getD "").toList =
    (nodes.takeWhile Node.isText).flatMap (·.characters.toList) := by
  unfold Node.leadingText?
  split
  · rename_i hnil
    rw [hnil]
    rfl
  · rename_i texts hne
    simp [String.toList_join, List.flatMap_def, Function.comp_def]

theorem allAllowed_leadingText {nodes : List Node} (h : ∀ n ∈ nodes, n.IsSound scope depth) :
    AllAllowed ((Node.leadingText? nodes).getD "").toList := by
  rw [leadingText?_toList]
  intro c hc
  obtain ⟨n, hn, hc⟩ := List.mem_flatMap.mp hc
  cases h n ((List.takeWhile_prefix _).subset hn) with
  | text _ hallowed => exact hallowed c hc
  | cdata hallowed => exact hallowed c hc
  | _ => cases hc

theorem Node.IsSound.of_le {n : Node} {less : Nat} (h : n.IsSound scope depth)
    (hle : less ≤ depth) :
    n.IsSound scope less := by
  induction h generalizing less with
  | text hne hallowed => exact .text hne hallowed
  | cdata hallowed hreturn => exact .cdata hallowed hreturn
  | comment hsound hreturn => exact .comment hsound hreturn
  | instruction hsound hreturn => exact .instruction hsound hreturn
  | element hlevel htag hapart _ ih =>
    exact .element (Nat.lt_of_le_of_lt hle hlevel) htag hapart fun n hn =>
      ih n hn (Nat.succ_le_succ hle)

theorem head?_behindText (nodes : List Node) :
    ∀ n ∈ (Node.behindText nodes).head?, n.isText = false := by
  intro n hn
  have h := List.head?_dropWhile_not Node.isText nodes
  rw [Node.behindText] at hn
  rw [hn] at h
  simpa using h

theorem Element.IsPlain.children {e : Element} (h : e.IsPlain) :
    (∀ n ∈ e.children, n.IsSound [] 1 ∧ n.isPlain = true) ∧ Apart e.children ∧
    e.tag.declarations = [] := by
  obtain ⟨⟨depth, hsound⟩, hplain⟩ := h
  simp only [toNode, Node.isPlain, Bool.and_eq_true, Node.areAllPlain_iff] at hplain
  have hnone := (Tag.isPlain_iff.mp hplain.1).1
  cases hsound with
  | element _ _ hapart hinside =>
    rw [hnone] at hinside
    exact ⟨fun n hn =>
      ⟨(hinside n hn).of_le (Nat.succ_le_succ (Nat.zero_le depth)), hplain.2 n hn⟩, hapart, hnone⟩

def Element.squeezed (e : Element) : List Node :=
  textNodes ((Text.squeeze (e.text?.getD "").toList).dropWhile (isLoose escapeText)) ++
    (Node.behindText e.children).map Node.squeeze

def Element.tidied (e : Element) : List Node := Node.trimEnd e.squeezed

theorem Element.IsPlain.behindText {e : Element} (h : e.IsPlain) :
    (∀ n ∈ Node.behindText e.children, n.IsSound [] 1 ∧ n.isPlain = true) ∧
    Apart (Node.behindText e.children) := by
  obtain ⟨hchildren, hapart, -⟩ := h.children
  have hsuffix : Node.behindText e.children <:+ e.children := List.dropWhile_suffix _
  exact ⟨fun n hn => hchildren n (hsuffix.subset hn), hapart.suffix hsuffix⟩

theorem Element.IsPlain.squeezed_behindText {e : Element} (h : e.IsPlain) :
    (∀ n ∈ (Node.behindText e.children).map Node.squeeze, n.IsSound [] 1 ∧ n.isPlain = true) ∧
      ∀ n ∈ ((Node.behindText e.children).map Node.squeeze).head?, n.isText = false := by
  constructor
  · intro n hn
    obtain ⟨m, hm, rfl⟩ := List.mem_map.mp hn
    obtain ⟨hsound, hplain⟩ := h.behindText.1 m hm
    exact hsound.squeeze hplain
  · intro n hn
    rw [List.head?_map, Option.mem_def, Option.map_eq_some_iff] at hn
    obtain ⟨m, hm, rfl⟩ := hn
    rw [Node.isText_squeeze]
    exact head?_behindText _ m hm

theorem Element.IsPlain.squeezed {e : Element} (h : e.IsPlain) : AreTidy e.squeezed := by
  obtain ⟨hrest, hhead⟩ := h.squeezed_behindText
  have hallowed : AllAllowed
      ((Text.squeeze (e.text?.getD "").toList).dropWhile (isLoose escapeText)) :=
    fun c hc => allAllowed_squeeze (allAllowed_leadingText fun n hn => (h.children.1 n hn).1) c
      ((List.dropWhile_suffix _).subset hc)
  refine ⟨fun n hn => ?_, fun n hn => ?_, ?_, _, _, rfl, ?_, hhead⟩
  · rcases List.mem_append.mp hn with hn | hn
    · exact textNodes_sound hallowed n hn
    · exact (hrest n hn).1
  · rcases List.mem_append.mp hn with hn | hn
    · exact textNodes_plain _ n hn
    · exact (hrest n hn).2
  · exact (Apart.squeeze h.behindText.2).textNodes_append hhead _
  · intro hmem
    have hspace := Text.blank_of_mem_squeeze ((List.dropWhile_suffix _).subset hmem) (by decide)
    exact absurd hspace (by decide)

theorem head?_printAll {nodes : List Node} (hsound : ∀ n ∈ nodes, n.IsSound scope depth)
    (hhead : ∀ n ∈ nodes.head?, n.isText = false) :
    ∀ c ∈ (Node.printAll nodes).head?, isBlank c = false := by
  cases nodes with
  | nil => simp [Node.printAll]
  | cons n nodes =>
    obtain ⟨⟨cs, hcs⟩, -⟩ :=
      (hsound n List.mem_cons_self).print_visible (Node.isPlainText_of_isText (hhead n rfl))
    rw [Node.printAll, hcs]
    rintro _ ⟨rfl⟩
    decide

/-- What an element says on one line is the markup of its tidied nodes. -/
theorem Element.IsPlain.text_eq {e : Element} (h : e.IsPlain) :
    Content.text [] e = String.ofList (Node.printAll e.tidied) := by
  obtain ⟨hrest, hapart⟩ := h.behindText
  obtain ⟨hsqueezed, hhead⟩ := h.squeezed_behindText
  have hscope : e.scope [] = [] := by
    rw [Element.scope, h.children.2.2]
    rfl
  have hreturn : '\r' ∉ Text.squeeze (e.text?.getD "").toList := fun hmem =>
    absurd (Text.blank_of_mem_squeeze hmem (by decide)) (by decide)
  have hclear := head?_printAll (fun n hn => (hrest n hn).1) (head?_behindText e.children)
  have hclear' := head?_printAll (fun n hn => (hsqueezed n hn).1) hhead
  have hsqueeze : Text.squeeze (Content.inner [] e).toList =
      (Text.squeeze (e.text?.getD "").toList).flatMap escapeText ++
        Node.printAll ((Node.behindText e.children).map Node.squeeze) := by
    rw [Content.inner, String.toList_ofList, hscope, flatMap_printAlone,
      squeeze_append_of_head _ hclear,
      isEscape_inner.squeeze_flatMap, squeezeLoose_inner, flatMap_escapeText hreturn,
      squeeze_printAll hapart (fun n hn => (hrest n hn).1) fun n hn =>
        (hrest n hn).1.squeeze_print (hrest n hn).2]
  rw [Content.text, collapsed, Text.collapse, Text.trim, Text.trimStart, hsqueeze,
    Text.dropWhile_append_of_head _ _ hclear', isEscape_text.dropWhile_flatMap, tidied,
    Node.printAll_trimEnd h.squeezed.apart h.squeezed.sound, Element.squeezed, Node.printAll_append,
    printAll_textNodes]

-- ---------------------------------------------------------------------------
-- Identifiers in texts
-- ---------------------------------------------------------------------------

theorem allIdentifiers_textNodes (cs : List Char) : Node.allIdentifiers (textNodes cs) = [] := by
  unfold textNodes
  split <;> rfl

theorem Element.IsPlain.identifiers_tidied {e : Element} (h : e.IsPlain) :
    Node.allIdentifiers e.tidied = (Node.allIdentifiers e.children).map
      (squeezeLoose escapeValue) := by
  have htrim : Node.allIdentifiers e.tidied = Node.allIdentifiers e.squeezed := by
    rw [tidied]
    rcases Node.trimEnd_cases e.squeezed with hsame | ⟨first, s, hlast, htrim⟩
    · rw [hsame]
    · rw [htrim, hlast, Node.allIdentifiers_append, Node.allIdentifiers_append,
        allIdentifiers_textNodes]
      rfl
  have hleading : Node.allIdentifiers (e.children.takeWhile Node.isText) = [] := by
    rw [Node.allIdentifiers_eq_flatMap, List.flatMap_eq_nil_iff]
    intro n hn
    have htext := List.mem_takeWhile_imp hn
    cases n <;> first | rfl | cases htext
  have hchildren : Node.allIdentifiers e.children =
      Node.allIdentifiers (Node.behindText e.children) := by
    rw [← List.takeWhile_append_dropWhile (p := Node.isText) (l := e.children),
      Node.allIdentifiers_append, hleading]
    simp [Node.behindText]
  rw [htrim, Element.squeezed, Node.allIdentifiers_append, allIdentifiers_textNodes,
    List.nil_append, hchildren,
    Node.allIdentifiers_eq_flatMap, Node.allIdentifiers_eq_flatMap,
    List.flatMap_map, List.map_flatMap]
  exact List.flatMap_congr fun n hn =>
    (h.behindText.1 n hn).1.identifiers_squeeze (h.behindText.1 n hn).2

-- ---------------------------------------------------------------------------
-- Writing texts
-- ---------------------------------------------------------------------------

def wrapperTag : Tag := { name := Name.plain "wrapper" }

theorem isSound_wrapperTag : wrapperTag.IsSound [] where
  name := ⟨by decide, .inl rfl⟩
  attributes := by simp [wrapperTag, Tag.raw]
  read := by decide

theorem isHead_nil : IsHead {} [] where
  leading := .nil
  read hrest := ⟨_, readDeclaration?_of_not (IsMiscellany.nil.not_startsDeclaration hrest),
    IsMiscellany.nil.skip hrest (Nat.lt_succ_self _)⟩

/-- A sound element is read from what it is printed as exactly if it may be a root. -/
theorem Element.parse?_print_iff {e e' : Element} (h : e.toNode.IsSound [] 0) :
    Xml.parse? (String.ofList e.toNode.print) = some e' ↔ e' = e ∧ e.IsRoot := by
  have hstop : AreTagEnds fun _ => ['/', '>'] := fun _ => .compact
  have hheld := Node.isHeld_false.mpr h
  obtain ⟨hstart, cs, hend⟩ := Element.draw_of_held hheld hstop
  have hplain := hheld.not_mem_draw hstop
  have hread : root? {} (e.toNode.draw _ ++ []) = some e' ↔ e' = e ∧ e.IsRoot :=
    Element.root?_draw_iff h hstop (by simp) (by simp)
  rw [Node.draw_compact] at hstart hend hplain hread
  have hframe : IsFrame {} [] e.toNode.print [] :=
    ⟨⟨hstart, ⟨cs, '>', hend, by decide⟩, by simp [AllSpaces]⟩, isHead_nil⟩
  have hdocument := hframe.readDocument?
  rw [Files.plainLines_eq_self hplain, Files.plainLines_nil, List.nil_append,
    List.append_nil] at hdocument
  rw [List.append_nil, ← hdocument] at hread
  obtain ⟨c, rest, hprint, -⟩ := hstart
  rw [hprint] at hread ⊢
  rw [Xml.parse?, String.toList_ofList]
  exact hread

/-- Tidy nodes in a wrapper are read exactly if what identifies elements among them are distinct
names. -/
theorem parse?_wrapper_iff {nodes : List Node} (h : AreTidy nodes) :
    parse? ("<wrapper>" ++ String.ofList (Node.printAll nodes) ++ "</wrapper>") = some w ↔
    w = ⟨wrapperTag, nodes⟩ ∧
      (∀ id ∈ Node.allIdentifiers nodes, IsNamed id) ∧
      (Node.allIdentifiers nodes).Pairwise (· ≠ ·) := by
  have hsound : (Element.toNode ⟨wrapperTag, nodes⟩).IsSound [] 0 :=
    .element (by decide) isSound_wrapperTag h.apart h.sound
  cases nodes with
  | nil =>
    have hread : parse? ("<wrapper>" ++ String.ofList (Node.printAll []) ++ "</wrapper>") =
      some ⟨wrapperTag, []⟩ := by rfl
    rw [hread]
    simp [Node.allIdentifiers, eq_comm]
  | cons n nodes =>
    have hprint : "<wrapper>" ++ String.ofList (Node.printAll (n :: nodes)) ++ "</wrapper>" =
        String.ofList (Element.toNode ⟨wrapperTag, n :: nodes⟩).print := by
      rw [← String.toList_inj]
      simp [Element.toNode, Node.print, Node.printAll, wrapperTag, Tag.print,
        QName.print, Name.plain]
    rw [hprint, Element.parse?_print_iff hsound]
    exact and_congr_right fun _ =>
      ⟨fun hroot => ⟨hroot.named, hroot.differ⟩, fun hids => ⟨hsound, hids.1, hids.2⟩⟩

theorem Tag.adopt_plain {t : Tag} (h : t.declarations = []) (scope : Scope) :
    t.adopt scope [] = t := by
  obtain ⟨name, declarations, attributes⟩ := t
  obtain rfl : declarations = [] := h
  have hname : ∀ n, Renaming.apply [] n = n := fun _ => rfl
  simp [Tag.adopt, hname]

mutual
theorem Node.adopt_plain : ∀ (n : Node) (scope : Scope), n.isPlain = true → n.adopt scope [] = n
  | .element tag children, scope, h => by
    simp only [isPlain, Bool.and_eq_true] at h
    have hnone := (Tag.isPlain_iff.mp h.1).1
    have hrenaming : renamingOf scope tag.declarations ++ [] = [] := by
      rw [hnone]
      rfl
    rw [adopt, hrenaming, tag.adopt_plain hnone, adoptAll_plain children _ h.2]
  | .text _, _, _ | .cdata _, _, _ | .comment _, _, _ | .instruction .., _,
    _ | .reference _, _, _ => rfl

theorem Node.adoptAll_plain : ∀ (nodes : List Node) (scope : Scope), areAllPlain nodes = true →
    adoptAll scope [] nodes = nodes
  | [], _, _ => rfl
  | n :: rest, scope, h => by
    simp only [areAllPlain, Bool.and_eq_true] at h
    rw [adoptAll, adopt_plain n scope h.1, adoptAll_plain rest scope h.2]
end

/-- Whether the identifiers inside an element are still distinct names once they are squeezed with
the markup around them. -/
def Element.KeepsIdentifiers (e : Element) : Prop :=
  let ids := (Node.allIdentifiers e.children).map (squeezeLoose escapeValue)
  (∀ id ∈ ids, IsNamed id) ∧ ids.Pairwise (· ≠ ·)

end DocMerge.Xml

namespace DocMerge.Content

open Xml (Element Node)

/-- What an element can say: the text of an element without namespaces, instructions, references and
blanks in its names. -/
def IsText (s : String) : Prop := ∃ e : Element, e.IsPlain ∧ e.KeepsIdentifiers ∧ s = text [] e

theorem setInner_tidy {nodes : List Node} (h : Xml.AreTidy nodes)
    (hnamed : ∀ id ∈ Node.allIdentifiers nodes, Xml.IsNamed id)
    (hdiffer : (Node.allIdentifiers nodes).Pairwise (· ≠ ·)) (outer : Xml.Scope) (e : Element) :
    setInner outer e (String.ofList (Node.printAll nodes)) =
    ({ e with children := nodes }, none) := by
  have hparse := (Xml.parse?_wrapper_iff h).mpr ⟨rfl, hnamed, hdiffer⟩
  obtain ⟨cs, rest, rfl, -, hhead⟩ := h.leads
  obtain ⟨hleading, hbehind⟩ := Xml.leadingText?_textNodes hhead cs
  have htext : ((Element.text? ⟨Xml.wrapperTag, Xml.textNodes cs ++ rest⟩).map Node.text).toList =
      Xml.textNodes cs := by
    rw [Element.text?, hleading, Xml.textNodes]
    split <;> rfl
  have hplain : Node.areAllPlain rest = true :=
    (Node.areAllPlain_iff rest).mpr fun n hn => h.plain n (List.mem_append_right _ hn)
  rw [setInner, hparse]
  simp only [htext, hbehind, Node.adoptAll_plain rest _ hplain]

theorem collapsed_collapsed (s : String) : collapsed (collapsed s) = collapsed s := by
  simp [collapsed, Text.collapse_collapse]

/-- A text that is written into an element is read from it again. -/
theorem IsText.setInner (h : IsText s) {e : Element} (he : e.tag.declarations = []) :
    ∃ children, setInner [] e s = ({ e with children }, none) ∧ Node.areAllPlain children = true ∧
      text [] { e with children } = s := by
  obtain ⟨source, hplain, ⟨hnamed, hdiffer⟩, rfl⟩ := h
  have htidy : Xml.AreTidy source.tidied := hplain.squeezed.trimEnd
  rw [← hplain.identifiers_tidied] at hnamed hdiffer
  have hread : text [] { e with children := source.tidied } = collapsed (text [] source) := by
    rw [text, htidy.inner he, hplain.text_eq]
  refine ⟨source.tidied, ?_, (Node.areAllPlain_iff _).mpr htidy.plain, ?_⟩
  · rw [hplain.text_eq]
    exact setInner_tidy htidy hnamed hdiffer [] e
  · rw [hread, text, collapsed_collapsed]

end DocMerge.Content

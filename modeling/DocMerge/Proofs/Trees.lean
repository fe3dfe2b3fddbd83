import DocMerge.Proofs.Tags
import DocMerge.Xml.Document
import Mathlib.Data.List.Chain

/-!
# Trees that are printed and read again

A sound tree is one that a document can hold: its texts are not empty and no two of them stand next
to each other, and what its nodes say can be written. `IsSound.reads` puts the tokens of a printed
node together to the same node; `assemble?_held` says that what is read is sound.
-/

namespace DocMerge.Xml

-- ---------------------------------------------------------------------------
-- Sound trees
-- ---------------------------------------------------------------------------

def Node.joins : Node → Node → Bool
  | .text _, .text _ | .cdata _, .cdata _ => true
  | _, _ => false

def Apart (nodes : List Node) : Prop := nodes.IsChain fun a b => a.joins b = false

/-- A node that can be written inside as many elements, where declarations are in force. -/
inductive Node.IsSound : Scope → Nat → Node → Prop
  | text (nonempty : s ≠ "") (allowed : AllAllowed s.toList) : IsSound scope depth (.text s)
  | cdata (allowed : AllAllowed s.toList) (plain : '\r' ∉ s.toList) : IsSound scope depth (.cdata s)
  | comment (sound : IsComment s) (plain : '\r' ∉ s.toList) : IsSound scope depth (.comment s)
  | instruction (sound : IsInstruction target data) (plain : ∀ d, data = some d → '\r' ∉ d.toList) :
      IsSound scope depth (.instruction target data)
  | element (level : depth < depthLimit) (sound : tag.IsSound scope) (apart : Apart children)
      (inside : ∀ n ∈ children, IsSound (tag.declarations ++ scope) (depth + 1) n) :
      IsSound scope depth (.element tag children)

/-- The same where nothing is declared, with references to what may be declared elsewhere. -/
inductive Node.IsHeld (isOpen : Bool) : Scope → Nat → Node → Prop
  | text (nonempty : s ≠ "") (allowed : AllAllowed s.toList) : IsHeld isOpen scope depth (.text s)
  | cdata (allowed : AllAllowed s.toList) (plain : '\r' ∉ s.toList) :
    IsHeld isOpen scope depth (.cdata s)
  | comment (sound : IsComment s) (plain : '\r' ∉ s.toList) : IsHeld isOpen scope depth (.comment s)
  | instruction (sound : IsInstruction target data) (plain : ∀ d, data = some d → '\r' ∉ d.toList) :
      IsHeld isOpen scope depth (.instruction target data)
  | reference (foreign : IsForeign isOpen name) : IsHeld isOpen scope depth (.reference name)
  | element (level : depth < depthLimit) (held : tag.IsHeld isOpen scope) (apart : Apart children)
      (inside : ∀ n ∈ children, IsHeld isOpen (tag.declarations ++ scope) (depth + 1) n) :
      IsHeld isOpen scope depth (.element tag children)

/-- Where all entities are declared and none is, there are no references. -/
theorem Node.isHeld_false {n : Node} : n.IsHeld false scope depth ↔ n.IsSound scope depth := by
  constructor <;> intro h
  · induction h with
    | text hne hallowed => exact .text hne hallowed
    | cdata hallowed hplain => exact .cdata hallowed hplain
    | comment hcomment hplain => exact .comment hcomment hplain
    | instruction hinstruction hplain => exact .instruction hinstruction hplain
    | reference hforeign => exact absurd hforeign.elsewhere (by decide)
    | element hlevel htag hapart _ ih => exact .element hlevel (Tag.isHeld_false.mp htag) hapart ih
  · induction h with
    | text hne hallowed => exact .text hne hallowed
    | cdata hallowed hplain => exact .cdata hallowed hplain
    | comment hcomment hplain => exact .comment hcomment hplain
    | instruction hinstruction hplain => exact .instruction hinstruction hplain
    | element hlevel htag hapart _ ih => exact .element hlevel (Tag.isHeld_false.mpr htag) hapart ih

-- ---------------------------------------------------------------------------
-- Printing with other ends of empty elements
-- ---------------------------------------------------------------------------

mutual
def Node.draw (stop : Tag → List Char) : Node → List Char
  | .element tag [] => '<' :: (tag.print ++ stop tag)
  | .element tag (child :: rest) =>
    '<' :: (tag.print ++ ['>']) ++ (child.draw stop ++ Node.drawAll stop rest) ++
      '<' :: '/' :: (tag.name.written.print ++ ['>'])
  | n => n.print

def Node.drawAll (stop : Tag → List Char) : List Node → List Char
  | [] => []
  | n :: rest => n.draw stop ++ Node.drawAll stop rest
end

mutual
theorem Node.draw_compact : ∀ n : Node, n.draw (fun _ => ['/', '>']) = n.print
  | .element tag [] => by simp [draw, print]
  | .element tag (child :: rest) => by
    simp [draw, print, draw_compact child, drawAll_compact rest]
  | .text _ | .cdata _ | .comment _ | .instruction .. | .reference _ => rfl

theorem Node.drawAll_compact :
    ∀ nodes : List Node, drawAll (fun _ => ['/', '>']) nodes = printAll nodes
  | [] => rfl
  | n :: rest => by rw [drawAll, printAll, draw_compact n, drawAll_compact rest]
end

theorem Node.drawAll_eq_flatMap (stop : Tag → List Char) (nodes : List Node) :
    drawAll stop nodes = nodes.flatMap (draw stop) := by
  induction nodes with
  | nil => rfl
  | cons n rest ih => rw [drawAll, ih, List.flatMap_cons]

-- ---------------------------------------------------------------------------
-- Identifiers
-- ---------------------------------------------------------------------------

def Tag.identifiers (t : Tag) : List (List Char) := t.raw.filterMap (identifier? [] t.name.written)

mutual
def Node.identifiers : Node → List (List Char)
  | .element tag children => tag.identifiers ++ Node.allIdentifiers children
  | _ => []

def Node.allIdentifiers : List Node → List (List Char)
  | [] => []
  | n :: rest => n.identifiers ++ Node.allIdentifiers rest
end

theorem Node.allIdentifiers_eq_flatMap (nodes : List Node) :
    allIdentifiers nodes = nodes.flatMap identifiers := by
  induction nodes with
  | nil => rfl
  | cons n rest ih => rw [allIdentifiers, ih, List.flatMap_cons]

theorem identifier?_eq (element : QName) (a : RawAttribute) :
    identifier? [] element a = if a.1 == identifierName then a.2.plain? else none := by
  simp [identifier?, ruleFor?]

theorem identifier?_of_isDeclaration (element : QName) {a : RawAttribute}
    (h : a.1.isDeclaration = true) : identifier? [] element a = none := by
  have hne : (a.1 == identifierName) = false := by
    rw [beq_eq_false_iff_ne]
    intro heq
    rw [heq] at h
    exact absurd h (by decide)
  simp [identifier?_eq, hne]

theorem filterMap_identifier? (element : QName) (attributes : List RawAttribute) :
    attributes.filterMap (identifier? [] element) =
      (attributes.filter fun a => !a.1.isDeclaration).filterMap (identifier? [] element) := by
  induction attributes with
  | nil => rfl
  | cons a attributes ih =>
    rw [List.filterMap_cons, List.filter_cons]
    cases h : a.1.isDeclaration with
    | true => simp [identifier?_of_isDeclaration element h, ih]
    | false => simp [List.filterMap_cons, ih]

theorem Tag.identifiers_of_ofRaw? {outer : Scope} {t : Tag} {given : List RawAttribute}
    (h : Tag.ofRaw? outer written given = some t) :
    given.filterMap (identifier? [] written) = t.identifiers := by
  obtain ⟨-, -, hname, hnamed, -⟩ := Tag.ofRaw?_eq_some_iff.mp h
  have hothers := attributes_raw hnamed
  obtain ⟨-, hsecond⟩ := t.filter_raw fun a ha => by
    have hmem : (a.name.written, a.value) ∈ given.filter (fun a => !a.1.isDeclaration) :=
      hothers ▸ List.mem_map_of_mem ha
    simpa using (List.mem_filter.mp hmem).2
  rw [Tag.identifiers, elementName?_written hname, filterMap_identifier?, ← hothers, ← hsecond,
    ← filterMap_identifier?]

-- ---------------------------------------------------------------------------
-- Putting tokens together
-- ---------------------------------------------------------------------------

def scopeOf : List Unclosed → Scope
  | [] => []
  | u :: _ => u.scope

def resume : List Unclosed → Node → List Token → Option (Node × List Token)
  | [], n, rest => some (n, rest)
  | u :: outer, n, rest => assemble? (u.push n :: outer) rest

theorem openElement?_eq (stack : List Unclosed) (name : QName) (attributes : List RawAttribute) :
    openElement? stack name attributes =
      if stack.length < depthLimit then
        (Tag.ofRaw? (scopeOf stack) name attributes).map fun tag =>
          { written := name, tag, scope := tag.declarations ++ scopeOf stack }
      else none := by
  cases stack <;> rfl

theorem assemble?_opening (stack : List Unclosed) (name : QName) (attributes : List RawAttribute)
    (rest : List Token) :
    assemble? stack (.opening name attributes :: rest) =
      (openElement? stack name attributes).bind fun inner => assemble? (inner :: stack) rest := by
  cases stack with
  | nil => rfl
  | cons u outer =>
    rw [assemble?]
    cases openElement? (u :: outer) name attributes <;> rfl

theorem assemble?_closing (u : Unclosed) (outer : List Unclosed) (name : QName)
    (rest : List Token) :
    assemble? (u :: outer) (.closing name :: rest) =
      if name != u.written then none else resume outer u.close rest := by
  show (if name != u.written then none else
    match outer with
    | [] => some (u.close, rest)
    | parent :: outer => assemble? (parent.push u.close :: outer) rest) = _
  cases outer <;> rfl

def Token.node? : Token → Option Node
  | .comment s => some (.comment s)
  | .instruction target data => some (.instruction target data)
  | .reference name => some (.reference name)
  | _ => none

inductive TakesToken : List Unclosed → Token → List Unclosed → Prop
  | opening (h : openElement? stack name attributes = some u) :
      TakesToken stack (.opening name attributes) (u :: stack)
  | char : TakesToken (u :: outer) (.char c) (u.pushChar c :: outer)
  | escaped : TakesToken (u :: outer) (.escaped c) (u.pushChar c :: outer)
  | cdata : TakesToken (u :: outer) (.cdata s) (u.pushSection s :: outer)
  | node (h : token.node? = some n) : TakesToken (u :: outer) token (u.push n :: outer)
  | closing : TakesToken (u :: parent :: outer) (.closing u.written) (parent.push u.close :: outer)

inductive TakesTokens : List Unclosed → List Token → List Unclosed → Prop
  | nil : TakesTokens stack [] stack
  | cons (first : TakesToken stack token next) (rest : TakesTokens next tokens last) :
      TakesTokens stack (token :: tokens) last

/-- Whatever each token keeps is kept by all of them. -/
theorem TakesTokens.invariant {P : List Unclosed → Prop} (h : TakesTokens stack tokens last)
    (hstep : ∀ token ∈ tokens, ∀ stack next, TakesToken stack token next → P stack → P next)
    (hstart : P stack) :
    P last := by
  induction h with
  | nil => exact hstart
  | cons first _ ih =>
    obtain ⟨hfirst, hrest⟩ := List.forall_mem_cons.mp hstep
    exact ih hrest (hfirst _ _ first hstart)

/-- A token is taken, or it closes the outermost element. -/
theorem assemble?_cons {stack : List Unclosed}
    (h : assemble? stack (token :: tokens) = some (root, behind)) :
    (∃ next, TakesToken stack token next ∧ assemble? next tokens = some (root, behind)) ∨
      ∃ u, stack = [u] ∧ token = .closing u.written ∧ root = u.close ∧ behind = tokens := by
  cases stack with
  | nil =>
    cases token with
    | opening name attributes =>
      rw [assemble?_opening, Option.bind_eq_some_iff] at h
      obtain ⟨u, hu, h⟩ := h
      exact .inl ⟨[u], .opening hu, h⟩
    | _ => simp [assemble?] at h
  | cons u outer =>
    cases token with
    | char c => exact .inl ⟨_, .char, h⟩
    | escaped c => exact .inl ⟨_, .escaped, h⟩
    | cdata s => exact .inl ⟨_, .cdata, h⟩
    | comment | instruction | reference => exact .inl ⟨_, .node rfl, h⟩
    | opening name attributes =>
      rw [assemble?_opening, Option.bind_eq_some_iff] at h
      obtain ⟨inner, hinner, h⟩ := h
      exact .inl ⟨_, .opening hinner, h⟩
    | closing name =>
      rw [assemble?_closing, Option.ite_none_left_eq_some] at h
      obtain ⟨hname, h⟩ := h
      obtain rfl : name = u.written := by simpa using hname
      cases outer with
      | nil =>
        obtain ⟨rfl, rfl⟩ : u.close = root ∧ tokens = behind := by simpa [resume] using h
        exact .inr ⟨u, rfl, rfl, rfl, rfl⟩
      | cons parent outer => exact .inl ⟨_, .closing, h⟩

/-- A root is put together from the tokens up to the one that closes it. -/
theorem assemble?_takesTokens {stack : List Unclosed}
    (h : assemble? stack tokens = some (root, behind)) :
    ∃ inside u, tokens = inside ++ .closing u.written :: behind ∧ TakesTokens stack inside [u] ∧
    root = u.close := by
  induction tokens generalizing stack with
  | nil => simp [assemble?] at h
  | cons token tokens ih =>
    rcases assemble?_cons h with ⟨next, hnext, h⟩ | ⟨u, rfl, rfl, rfl, rfl⟩
    · obtain ⟨inside, u, rfl, hinside, hroot⟩ := ih h
      exact ⟨token :: inside, u, rfl, .cons hnext hinside, hroot⟩
    · exact ⟨[], u, rfl, .nil, rfl⟩

theorem assemble?_joinText (u : Unclosed) (outer : List Unclosed) (s : String) (done : List Node)
    (cs : List Char) (rest : List Token) :
    assemble? ({ u with done := .text s :: done } :: outer) (cs.map textToken ++ rest) =
      assemble? ({ u with done := .text (s ++ String.ofList cs) :: done } :: outer) rest := by
  induction cs generalizing s with
  | nil => simp
  | cons c cs ih =>
    have hjoined : s.push c ++ String.ofList cs = s ++ String.ofList (c :: cs) := by
      rw [← String.toList_inj]
      simp
    have hpush := ih (s.push c)
    rw [hjoined] at hpush
    rw [List.map_cons, List.cons_append, ← hpush]
    unfold textToken
    split <;> rfl

theorem Unclosed.pushChar_eq_push (u : Unclosed)
    (hdone : ∀ m ∈ u.done.head?, ∀ s, m ≠ .text s) (c : Char) :
    u.pushChar c = u.push (.text (String.singleton c)) := by
  obtain ⟨written, tag, scope, done⟩ := u
  unfold Unclosed.pushChar
  split
  · rename_i heq
    obtain ⟨rfl, rfl, rfl, rfl⟩ := Unclosed.mk.inj heq
    exact absurd rfl (hdone _ rfl _)
  · rename_i heq
    obtain ⟨rfl, rfl, rfl, rfl⟩ := Unclosed.mk.inj heq
    rfl

theorem Unclosed.pushSection_eq_push (u : Unclosed) (hdone : ∀ m ∈ u.done.head?, ∀ s, m ≠ .cdata s)
    (s : String) : u.pushSection s = u.push (.cdata s) := by
  obtain ⟨written, tag, scope, done⟩ := u
  unfold Unclosed.pushSection
  split
  · rename_i heq
    obtain ⟨rfl, rfl, rfl, rfl⟩ := Unclosed.mk.inj heq
    exact absurd rfl (hdone _ rfl _)
  · rename_i heq
    obtain ⟨rfl, rfl, rfl, rfl⟩ := Unclosed.mk.inj heq
    rfl

theorem assemble?_text (u : Unclosed) (outer : List Unclosed) (hne : cs ≠ [])
    (hdone : ∀ m ∈ u.done.head?, ∀ s, m ≠ .text s) (rest : List Token) :
    assemble? (u :: outer) (cs.map textToken ++ rest) =
      assemble? (u.push (.text (String.ofList cs)) :: outer) rest := by
  cases cs with
  | nil => exact absurd rfl hne
  | cons c cs =>
    have hstep : assemble? (u :: outer) ((c :: cs).map textToken ++ rest) =
        assemble? (u.pushChar c :: outer) (cs.map textToken ++ rest) := by
      rw [List.map_cons, List.cons_append]
      unfold textToken
      split <;> rfl
    have hjoined : String.singleton c ++ String.ofList cs = String.ofList (c :: cs) := by
      rw [← String.toList_inj]
      simp
    rw [hstep, u.pushChar_eq_push hdone, Unclosed.push, assemble?_joinText, hjoined]
    rfl

theorem assemble?_joinSection (u : Unclosed) (outer : List Unclosed) (s : String) (done : List Node)
    (parts : List (List Char)) (rest : List Token) :
    assemble? ({ u with done := .cdata s :: done } :: outer)
        (parts.map (.cdata ∘ String.ofList) ++ rest) =
      assemble? ({ u with done := .cdata (s ++ String.ofList parts.flatten) :: done } :: outer)
        rest := by
  induction parts generalizing s with
  | nil => simp
  | cons part parts ih =>
    have hjoined : s ++ String.ofList part ++ String.ofList parts.flatten =
        s ++ String.ofList (part :: parts).flatten := by
      rw [← String.toList_inj]
      simp
    have hpush := ih (s ++ String.ofList part)
    rw [hjoined] at hpush
    rw [List.map_cons, List.cons_append, ← hpush]
    rfl

theorem assemble?_section (u : Unclosed) (outer : List Unclosed) (first : List Char)
    (parts : List (List Char)) (hdone : ∀ m ∈ u.done.head?, ∀ s, m ≠ .cdata s) (rest : List Token) :
    assemble? (u :: outer) ((first :: parts).map (.cdata ∘ String.ofList) ++ rest) =
      assemble? (u.push (.cdata (String.ofList (first ++ parts.flatten))) :: outer) rest := by
  have hjoined : String.ofList first ++ String.ofList parts.flatten =
      String.ofList (first ++ parts.flatten) := by
    rw [← String.toList_inj]
    simp
  have hstep : assemble? (u :: outer) ((first :: parts).map (.cdata ∘ String.ofList) ++ rest) =
      assemble? (u.pushSection (String.ofList first) :: outer)
        (parts.map (.cdata ∘ String.ofList) ++ rest) := rfl
  rw [hstep, u.pushSection_eq_push hdone, Unclosed.push, assemble?_joinSection, hjoined]
  rfl

-- ---------------------------------------------------------------------------
-- Printed nodes
-- ---------------------------------------------------------------------------

def Node.isPlainText : Node → Bool
  | .text _ => true
  | _ => false

theorem Node.joins_comm (a b : Node) : a.joins b = b.joins a := by
  cases a <;> cases b <;> rfl

theorem Node.joins_text (n : Node) (s : String) : n.joins (.text s) = n.isPlainText := by
  cases n <;> rfl

/-- Text is followed by markup. -/
theorem Node.isPlainText_of_follows {n m : Node} (hn : n.isPlainText = true)
    (h : n.joins m = false) : m.isPlainText = false := by
  cases n with
  | text s => rwa [joins_comm, joins_text] at h
  | _ => cases hn

/-- Tokens that a node is printed as and put together from, inside an element. -/
structure Node.Reads (isOpen : Bool) (stop : Tag → List Char) (scope : Scope)
    (depth : Nat) (n : Node)
    (tokens : List Token) : Prop where
  lexes : ∀ {rest more}, (n.isPlainText = true → IsClear rest) → Lexes isOpen rest more →
    Lexes isOpen (n.draw stop ++ rest) (tokens ++ more)
  assembles : ∀ {u outer} rest, u.scope = scope → outer.length + 1 = depth →
    (∀ m ∈ u.done.head?, m.joins n = false) →
    assemble? (u :: outer) (tokens ++ rest) = assemble? (u.push n :: outer) rest
  identifiers : tokens.flatMap (Token.identifiers []) = n.identifiers

structure Node.AllRead (isOpen : Bool) (stop : Tag → List Char) (scope : Scope) (depth : Nat)
    (nodes : List Node)
    (tokens : List Token) : Prop where
  lexes : ∀ {rest more}, IsClear rest → Lexes isOpen rest more →
    Lexes isOpen (Node.drawAll stop nodes ++ rest) (tokens ++ more)
  assembles : ∀ {u outer} rest, u.scope = scope → outer.length + 1 = depth →
    (∀ m ∈ u.done.head?, ∀ n ∈ nodes.head?, m.joins n = false) →
    assemble? (u :: outer) (tokens ++ rest) =
      assemble? ({ u with done := nodes.reverse ++ u.done } :: outer) rest
  identifiers : tokens.flatMap (Token.identifiers []) = Node.allIdentifiers nodes

def AreTagEnds (stop : Tag → List Char) : Prop := ∀ tag, IsTagEnd (stop tag) true

theorem isClear_cons_of_ne (h : c ≠ ']' ∧ c ≠ '>') (rest : List Char) : IsClear (c :: rest) := by
  rintro _ ⟨rfl⟩
  exact h

theorem Node.IsSound.draw_eq_cons (stop : Tag → List Char) {n : Node} (h : n.IsSound scope depth)
    (hn : n.isPlainText = false) : ∃ cs, n.draw stop = '<' :: cs := by
  cases n with
  | text => simp [isPlainText] at hn
  | reference => cases h
  | element tag children => cases children <;> exact ⟨_, rfl⟩
  | cdata | comment | instruction => exact ⟨_, rfl⟩

theorem Node.isClear_draw (stop : Tag → List Char) {n : Node} (hn : n.isPlainText = false)
    (rest : List Char) :
    IsClear (n.draw stop ++ rest) := by
  obtain ⟨c, cs, hdraw, hc⟩ : ∃ c cs, n.draw stop = c :: cs ∧ (c = '<' ∨ c = '&') := by
    cases n with
    | text => simp [isPlainText] at hn
    | reference => exact ⟨_, _, rfl, .inr rfl⟩
    | element tag children => cases children <;> exact ⟨_, _, rfl, .inl rfl⟩
    | cdata | comment | instruction => exact ⟨_, _, rfl, .inl rfl⟩
  rw [hdraw]
  rcases hc with rfl | rfl <;> exact isClear_cons_of_ne (by decide) _

theorem Node.allRead_of_reads {stop : Tag → List Char} {nodes : List Node} (hapart : Apart nodes)
    (hreads : ∀ n ∈ nodes, ∃ tokens, n.Reads isOpen stop scope depth tokens) :
    ∃ tokens, Node.AllRead isOpen stop scope depth nodes tokens := by
  induction nodes with
  | nil => exact ⟨[], fun _ h => h, fun rest _ _ _ => rfl, rfl⟩
  | cons n nodes ih =>
    rw [List.forall_mem_cons] at hreads
    obtain ⟨hnext, hrest⟩ := List.isChain_cons.mp hapart
    obtain ⟨tokens, htokens⟩ := hreads.1
    obtain ⟨more, hmore⟩ := ih hrest hreads.2
    refine ⟨tokens ++ more, fun hclear hlexes => ?_,
      @fun u outer rest hscope hdepth hdone => ?_, ?_⟩
    · rw [drawAll, List.append_assoc, List.append_assoc]
      refine htokens.lexes (fun htext => ?_) (hmore.lexes hclear hlexes)
      cases nodes with
      | nil => exact hclear
      | cons m nodes =>
        rw [drawAll, List.append_assoc]
        exact m.isClear_draw stop (isPlainText_of_follows htext (hnext m rfl)) _
    · have hdone' : ∀ m ∈ (u.push n).done.head?, ∀ n ∈ nodes.head?, m.joins n = false := by
        rintro _ ⟨rfl⟩ m hm
        exact hnext m hm
      rw [List.append_assoc, htokens.assembles _ hscope hdepth fun m hm => hdone m hm n rfl,
        hmore.assembles (u := u.push n) rest hscope hdepth hdone']
      simp [Unclosed.push]
    · rw [List.flatMap_append, htokens.identifiers, hmore.identifiers, allIdentifiers]

structure Node.IsRead (isOpen : Bool) (stop : Tag → List Char) (scope : Scope)
    (depth : Nat) (n : Node)
    (tokens : List Token) : Prop where
  lexes : ∀ {rest more}, Lexes isOpen rest more →
    Lexes isOpen (n.draw stop ++ rest) (tokens ++ more)
  assembles : ∀ {stack} rest, scopeOf stack = scope → stack.length = depth →
    assemble? stack (tokens ++ rest) = resume stack n rest
  identifiers : tokens.flatMap (Token.identifiers []) = n.identifiers

theorem Node.element_isRead {stop : Tag → List Char} (hstop : AreTagEnds stop) {tag : Tag}
    (htag : tag.IsHeld isOpen scope) (hdepth : depth < depthLimit)
    (hinside : Node.AllRead isOpen stop (tag.declarations ++ scope) (depth + 1) children inside) :
    ∃ tokens, Node.IsRead isOpen stop scope depth (.element tag children) tokens := by
  have hopen : ∀ {stack : List Unclosed}, scopeOf stack = scope → stack.length = depth →
      openElement? stack tag.name.written tag.raw =
        some { written := tag.name.written, tag, scope := tag.declarations ++ scope } := by
    rintro stack rfl rfl
    rw [openElement?_eq, if_pos hdepth, htag.read]
    rfl
  cases children with
  | nil =>
    refine ⟨[.opening tag.name.written tag.raw, .closing tag.name.written], fun h => ?_,
      fun rest hscope hlength => ?_, ?_⟩
    · rw [draw, tag.print_append]
      exact h.opening htag.name htag.attributes (hstop tag)
    · simp only [List.cons_append, List.nil_append]
      rw [assemble?_opening, hopen hscope hlength, Option.bind_some, assemble?_closing]
      simp [Unclosed.close]
    · simp [Token.identifiers, identifiers, allIdentifiers, Tag.identifiers]
  | cons child children =>
    refine ⟨.opening tag.name.written tag.raw :: inside ++ [.closing tag.name.written],
      @fun rest more h => ?_,
      fun rest hscope hlength => ?_, ?_⟩
    · have hclosing := h.closing htag.name
      have hall := hinside.lexes (isClear_cons_of_ne (by decide) _) hclosing
      have hopening := hall.opening htag.name htag.attributes .plain
      rw [← tag.print_append] at hopening
      simpa [draw, drawAll] using hopening
    · simp only [List.cons_append, List.append_assoc, List.nil_append]
      rw [assemble?_opening, hopen hscope hlength, Option.bind_some,
        hinside.assembles _ rfl (by rw [hlength]) (by simp), assemble?_closing]
      simp [Unclosed.close]
    · have hinner := hinside.identifiers
      simp only [List.cons_append, List.flatMap_cons, List.flatMap_append, hinner]
      simp [Token.identifiers, identifiers, Tag.identifiers]

/-- A section is printed as one or more, none of which holds the mark of its end. -/
theorem printSection_sections (s : String) :
    ∃ first parts, first ++ parts.flatten = s.toList ∧
      (∀ part ∈ first :: parts, Text.EndsAt sectionEnd part) ∧
      printSection s = printSections (first :: parts) := by
  obtain ⟨first, parts, hjoined, hends, hprint⟩ := printSection_body s.toList
  have hstart : "<![CDATA[".toList = sectionStart := by simp [sectionStart]
  have hend : "]]>".toList = sectionEnd := by simp [sectionEnd]
  have hsection : printSection s = sectionStart ++ (printSection.body s.toList ++ sectionEnd) := by
    unfold printSection
    rw [hstart, hend, List.append_assoc]
  refine ⟨first, parts, hjoined, hends, ?_⟩
  rw [hsection, hprint]
  simp [printSections]

theorem Node.IsRead.reads {stop : Tag → List Char} {n : Node}
    (h : n.IsRead isOpen stop scope depth tokens) :
    n.Reads isOpen stop scope depth tokens where
  lexes _ hrest := h.lexes hrest
  assembles rest hscope hdepth _ := h.assembles rest hscope hdepth
  identifiers := h.identifiers

/-- A sound node is put together from what it is printed as, whatever ends its empty tags. -/
theorem Node.IsHeld.reads {stop : Tag → List Char} (hstop : AreTagEnds stop) {n : Node}
    (h : n.IsHeld isOpen scope depth) : ∃ tokens, n.Reads isOpen stop scope depth tokens := by
  induction h with
  | @text s scope depth hne hallowed =>
    refine ⟨s.toList.map textToken, fun hclear hrest => hrest.text hallowed (hclear rfl), ?_, ?_⟩
    · intro u outer rest _ _ hdone
      rw [assemble?_text u outer (by simpa using hne) ?_ rest, String.ofList_toList]
      rintro m hm t rfl
      exact absurd (hdone _ hm) (by simp [joins])
    · refine List.flatMap_eq_nil_iff.mpr fun t ht => ?_
      obtain ⟨c, -, rfl⟩ := List.mem_map.mp ht
      unfold textToken
      split <;> rfl
  | @cdata _ _ s hallowed _ =>
    obtain ⟨first, parts, hjoined, hends, hprint⟩ := printSection_sections s
    have hdraw : draw stop (.cdata s) = printSections (first :: parts) := hprint
    refine ⟨(first :: parts).map (.cdata ∘ String.ofList), fun _ hrest => ?_, ?_, ?_⟩
    · rw [hdraw]
      refine hrest.sections hends fun part hpart c hc => hallowed c ?_
      rw [← hjoined]
      exact List.mem_flatten.mpr ⟨part, hpart, hc⟩
    · intro u outer rest _ _ hdone
      rw [assemble?_section u outer first parts ?_ rest, hjoined, String.ofList_toList]
      rintro m hm t rfl
      exact absurd (hdone _ hm) (by simp [joins])
    · simp [identifiers, Token.identifiers]
  | comment hcomment =>
    exact ⟨[.comment _], fun _ hrest => hrest.comment hcomment, fun _ _ _ _ => rfl, rfl⟩
  | instruction hinstruction =>
    exact ⟨[.instruction _ _], fun _ hrest => hrest.instruction hinstruction,
      fun _ _ _ _ => rfl, rfl⟩
  | reference hforeign =>
    exact ⟨[.reference _], fun _ hrest => hrest.reference hforeign, fun _ _ _ _ => rfl, rfl⟩
  | element hlevel htag hapart hinside ih =>
    obtain ⟨inside, hread⟩ := Node.allRead_of_reads hapart ih
    obtain ⟨tokens, htokens⟩ := Node.element_isRead hstop htag hlevel hread
    exact ⟨tokens, htokens.reads⟩

theorem Node.IsHeld.isRead {stop : Tag → List Char} (hstop : AreTagEnds stop)
    (h : Node.IsHeld isOpen scope depth (.element tag children)) :
    ∃ tokens, Node.IsRead isOpen stop scope depth (.element tag children) tokens := by
  cases h with
  | element hlevel htag hapart hinside =>
    obtain ⟨inside, hread⟩ := Node.allRead_of_reads hapart fun n hn => (hinside n hn).reads hstop
    exact Node.element_isRead hstop htag hlevel hread

-- ---------------------------------------------------------------------------
-- Open elements
-- ---------------------------------------------------------------------------

theorem Apart.reverse {nodes : List Node} (h : Apart nodes) : Apart nodes.reverse := by
  rw [Apart, List.isChain_reverse]
  refine h.imp fun a b hab => ?_
  rwa [Node.joins_comm]

structure Unclosed.IsHeld (isOpen : Bool) (outer : List Unclosed) (u : Unclosed) : Prop where
  tag : u.tag.IsHeld isOpen (scopeOf outer)
  scope : u.scope = u.tag.declarations ++ scopeOf outer
  level : outer.length < depthLimit
  apart : Apart u.done
  inside : ∀ n ∈ u.done, n.IsHeld isOpen u.scope (outer.length + 1)

def AreHeld (isOpen : Bool) : List Unclosed → Prop
  | [] => True
  | u :: outer => u.IsHeld isOpen outer ∧ AreHeld isOpen outer

theorem areHeld_nil (isOpen : Bool) : AreHeld isOpen [] := trivial

def openIdentifiers : List Unclosed → List (List Char)
  | [] => []
  | u :: outer => openIdentifiers outer ++ u.close.identifiers

theorem Node.allIdentifiers_append (first second : List Node) :
    allIdentifiers (first ++ second) = allIdentifiers first ++ allIdentifiers second := by
  simp only [allIdentifiers_eq_flatMap, List.flatMap_append]

theorem Unclosed.identifiers_push (u : Unclosed) (n : Node) :
    (u.push n).close.identifiers = u.close.identifiers ++ n.identifiers := by
  simp [push, close, Node.identifiers, Node.allIdentifiers_append, Node.allIdentifiers]

theorem Unclosed.IsHeld.push {u : Unclosed} (h : u.IsHeld isOpen outer)
    (hn : n.IsHeld isOpen u.scope (outer.length + 1))
    (hapart : ∀ m ∈ u.done.head?, m.joins n = false) :
    (u.push n).IsHeld isOpen outer where
  tag := h.tag
  scope := h.scope
  level := h.level
  apart := by
    refine List.isChain_cons.mpr ⟨fun m hm => ?_, h.apart⟩
    rw [Node.joins_comm]
    exact hapart m hm
  inside := List.forall_mem_cons.mpr ⟨hn, h.inside⟩

theorem Unclosed.IsHeld.grow {u : Unclosed} (h : u.IsHeld isOpen outer)
    (hdone : u.done = old :: before)
    (hnew : new.IsHeld isOpen u.scope (outer.length + 1))
    (hjoins : ∀ m, new.joins m = old.joins m) :
    ({ u with done := new :: before } : Unclosed).IsHeld isOpen outer := by
  have happart := h.apart
  have hinside := h.inside
  rw [hdone] at happart hinside
  obtain ⟨hnext, hrest⟩ := List.isChain_cons.mp happart
  refine ⟨h.tag, h.scope, h.level, List.isChain_cons.mpr ⟨fun m hm => ?_, hrest⟩,
    List.forall_mem_cons.mpr ⟨hnew, (List.forall_mem_cons.mp hinside).2⟩⟩
  rw [hjoins]
  exact hnext m hm

theorem Unclosed.identifiers_pushChar (u : Unclosed) (c : Char) :
    (u.pushChar c).close.identifiers = u.close.identifiers := by
  obtain ⟨written, tag, scope, done⟩ := u
  rcases done with _ | ⟨⟨⟩, done⟩ <;>
    simp [pushChar, close, Node.identifiers, Node.allIdentifiers_append, Node.allIdentifiers]

theorem Unclosed.identifiers_pushSection (u : Unclosed) (s : String) :
    (u.pushSection s).close.identifiers = u.close.identifiers := by
  obtain ⟨written, tag, scope, done⟩ := u
  rcases done with _ | ⟨⟨⟩, done⟩ <;>
    simp [pushSection, close, Node.identifiers, Node.allIdentifiers_append, Node.allIdentifiers]

theorem Unclosed.IsHeld.pushChar {u : Unclosed} (h : u.IsHeld isOpen outer)
    (hc : isAllowed c = true) :
    (u.pushChar c).IsHeld isOpen outer := by
  by_cases hdone : ∀ m ∈ u.done.head?, ∀ s, m ≠ .text s
  · rw [u.pushChar_eq_push hdone]
    refine h.push (.text (by simp [← String.toList_inj]) (by simpa [AllAllowed] using hc)) ?_
    intro m hm
    cases m with
    | text s => exact absurd rfl (hdone _ hm s)
    | _ => rfl
  · push Not at hdone
    obtain ⟨_, hm, s, rfl⟩ := hdone
    obtain ⟨before, hbefore⟩ := List.head?_eq_some_iff.mp hm
    have hpush : u.pushChar c = { u with done := .text (s.push c) :: before } := by
      obtain ⟨written, tag, scope, done⟩ := u
      obtain rfl : done = _ := hbefore
      rfl
    have hne : s.push c ≠ "" := fun heq => by
      have htoList := congrArg String.toList heq
      rw [String.toList_push] at htoList
      exact List.append_ne_nil_of_right_ne_nil _ (List.cons_ne_nil _ _) htoList
    rw [hpush]
    refine h.grow hbefore (.text hne ?_) fun m => by cases m <;> rfl
    intro d hd
    rw [String.toList_push, List.mem_append, List.mem_singleton] at hd
    rcases hd with hd | rfl
    · cases h.inside _ (hbefore ▸ List.mem_cons_self) with
      | text _ hallowed => exact hallowed d hd
    · exact hc

theorem Unclosed.IsHeld.pushSection {u : Unclosed} (h : u.IsHeld isOpen outer)
    (hallowed : AllAllowed t.toList)
    (hplain : '\r' ∉ t.toList) :
    (u.pushSection t).IsHeld isOpen outer := by
  by_cases hdone : ∀ m ∈ u.done.head?, ∀ s, m ≠ .cdata s
  · rw [u.pushSection_eq_push hdone]
    refine h.push (.cdata hallowed hplain) ?_
    intro m hm
    cases m with
    | cdata s => exact absurd rfl (hdone _ hm s)
    | _ => rfl
  · push Not at hdone
    obtain ⟨_, hm, s, rfl⟩ := hdone
    obtain ⟨before, hbefore⟩ := List.head?_eq_some_iff.mp hm
    have hpush : u.pushSection t = { u with done := .cdata (s ++ t) :: before } := by
      obtain ⟨written, tag, scope, done⟩ := u
      obtain rfl : done = _ := hbefore
      rfl
    obtain ⟨hs, hsplain⟩ : AllAllowed s.toList ∧ '\r' ∉ s.toList := by
      cases h.inside _ (hbefore ▸ List.mem_cons_self) with | cdata hs hsplain => exact ⟨hs, hsplain⟩
    rw [hpush]
    refine h.grow hbefore (.cdata ?_ ?_) fun m => by cases m <;> rfl
    · intro d hd
      rw [String.toList_append, List.mem_append] at hd
      exact hd.elim (hs d) (hallowed d)
    · rw [String.toList_append, List.mem_append]
      exact not_or.mpr ⟨hsplain, hplain⟩

theorem Unclosed.IsHeld.close {u : Unclosed} (h : u.IsHeld isOpen outer) :
    u.close.IsHeld isOpen (scopeOf outer) outer.length :=
  .element h.level h.tag h.apart.reverse fun n hn =>
    h.scope ▸ h.inside n (List.mem_reverse.mp hn)

theorem openElement?_held {stack : List Unclosed} (h : openElement? stack name attributes = some u)
    (hname : QName.IsWritten name) (hattributes : ∀ a ∈ attributes, RawAttribute.IsHeld isOpen a) :
    u.IsHeld isOpen stack := by
  simp only [openElement?_eq, Option.ite_none_right_eq_some, Option.map_eq_some_iff] at h
  obtain ⟨hlevel, tag, htag, rfl⟩ := h
  exact ⟨(Tag.isHeld_of_ofRaw? htag hname hattributes).1, rfl, hlevel, List.isChain_nil, by simp⟩

theorem openElement?_identifiers {stack : List Unclosed}
    (h : openElement? stack name attributes = some u) :
    u.close.identifiers = attributes.filterMap (identifier? [] name) := by
  simp only [openElement?_eq, Option.ite_none_right_eq_some, Option.map_eq_some_iff] at h
  obtain ⟨-, tag, htag, rfl⟩ := h
  rw [Tag.identifiers_of_ofRaw? htag]
  exact List.append_nil _

/-- A token that is a node by itself joins no other and has no identifiers. -/
theorem Token.IsHeld.node {token : Token} (h : token.IsHeld isOpen) (hn : token.node? = some n) :
    n.IsHeld isOpen scope depth ∧ ∀ m : Node, m.joins n = false := by
  cases token with
  | comment s =>
    obtain rfl := Option.some.inj hn
    exact ⟨.comment h.1 h.2, fun m => by cases m <;> rfl⟩
  | instruction target data =>
    obtain rfl := Option.some.inj hn
    exact ⟨.instruction h.1 h.2, fun m => by cases m <;> rfl⟩
  | reference name =>
    obtain rfl := Option.some.inj hn
    exact ⟨.reference h, fun m => by cases m <;> rfl⟩
  | _ => cases hn

theorem Token.identifiers_node {token : Token} (hn : token.node? = some n) :
    n.identifiers = token.identifiers [] := by
  cases token with
  | comment | instruction | reference =>
    obtain rfl := Option.some.inj hn
    simp [Node.identifiers, identifiers]
  | _ => cases hn

theorem TakesToken.held (h : TakesToken stack token next) (htoken : token.IsHeld isOpen)
    (hstack : AreHeld isOpen stack) : AreHeld isOpen next := by
  cases h with
  | opening hopen => exact ⟨openElement?_held hopen htoken.1 htoken.2, hstack⟩
  | char | escaped => exact ⟨hstack.1.pushChar htoken, hstack.2⟩
  | cdata => exact ⟨hstack.1.pushSection htoken.1 htoken.2, hstack.2⟩
  | node hn =>
    obtain ⟨hheld, hjoins⟩ := htoken.node hn
    exact ⟨hstack.1.push hheld fun m _ => hjoins m, hstack.2⟩
  | @closing u parent outer =>
    obtain ⟨hu, hparent, houter⟩ := hstack
    have hclose : u.close.IsHeld isOpen parent.scope (outer.length + 1) := hu.close
    exact ⟨hparent.push hclose fun m _ => by cases m <;> rfl, houter⟩

theorem TakesToken.identifiers (h : TakesToken stack token next) :
    openIdentifiers next = openIdentifiers stack ++ token.identifiers [] := by
  cases h with
  | opening hopen => rw [openIdentifiers, openElement?_identifiers hopen]; rfl
  | @char u | @escaped u => simp [openIdentifiers, u.identifiers_pushChar, Token.identifiers]
  | @cdata u => simp [openIdentifiers, u.identifiers_pushSection, Token.identifiers]
  | node hn => simp [openIdentifiers, Unclosed.identifiers_push, Token.identifiers_node hn]
  | @closing _ parent => simp [openIdentifiers, parent.identifiers_push, Token.identifiers]

theorem TakesTokens.identifiers (h : TakesTokens stack tokens last) :
    openIdentifiers last = openIdentifiers stack ++ tokens.flatMap (Token.identifiers []) := by
  induction h with
  | nil => exact (List.append_nil _).symm
  | cons first _ ih => rw [ih, first.identifiers, List.flatMap_cons, List.append_assoc]

/-- A root that is put together from tokens and open elements, ends with the tag that closes it, and
has all identifiers up to there. -/
structure IsAssembled (isOpen : Bool) (stack : List Unclosed) (tokens : List Token) (root : Node)
    (behind : List Token) : Prop where
  held : root.IsHeld isOpen [] 0
  element : ∃ tag children, root = .element tag children
  closed : ∃ inside name, tokens = inside ++ .closing name :: behind
  identifiers : openIdentifiers stack ++ tokens.flatMap (Token.identifiers []) =
    root.identifiers ++ behind.flatMap (Token.identifiers [])

theorem assemble?_held {stack : List Unclosed} (hstack : AreHeld isOpen stack)
    (htokens : ∀ t ∈ tokens, t.IsHeld isOpen)
    (h : assemble? stack tokens = some (root, behind)) :
    IsAssembled isOpen stack tokens root behind := by
  obtain ⟨inside, u, rfl, hinside, rfl⟩ := assemble?_takesTokens h
  have hheld : AreHeld isOpen [u] :=
    hinside.invariant (fun t ht _ _ hstep =>
      hstep.held (htokens t (List.mem_append_left _ ht))) hstack
  refine ⟨hheld.1.close, ⟨_, _, rfl⟩, ⟨inside, u.written, rfl⟩, ?_⟩
  rw [List.flatMap_append, ← List.append_assoc, ← hinside.identifiers]
  simp [openIdentifiers, Token.identifiers]

-- ---------------------------------------------------------------------------
-- Roots
-- ---------------------------------------------------------------------------

def IsNamed (id : List Char) :
    Prop := ((Value.squeeze (id.map .char)).plain?.map isName).getD true = true

structure Element.IsRoot (e : Element) : Prop where
  sound : e.toNode.IsSound [] 0
  named : ∀ id ∈ e.toNode.identifiers, IsNamed id
  differ : e.toNode.identifiers.Pairwise (· ≠ ·)

structure Element.IsHeldRoot (isOpen : Bool) (e : Element) : Prop where
  held : e.toNode.IsHeld isOpen [] 0
  named : ∀ id ∈ e.toNode.identifiers, IsNamed id
  differ : e.toNode.identifiers.Pairwise (· ≠ ·)

theorem Element.isHeldRoot_false {e : Element} : e.IsHeldRoot false ↔ e.IsRoot :=
  ⟨fun h => ⟨Node.isHeld_false.mp h.held, h.named, h.differ⟩,
    fun h => ⟨Node.isHeld_false.mpr h.sound, h.named, h.differ⟩⟩

theorem complete_nil (element : QName) (given : List RawAttribute) :
    complete [] element given = given := by
  simp [complete, ruleFor?]

theorem Token.complete_nil : ∀ t : Token, t.complete [] = t
  | .opening name attributes => congrArg (Token.opening name) (Xml.complete_nil name attributes)
  | .char _ | .escaped _ | .cdata _ | .comment _ | .instruction .. | .reference _ | .closing _ =>
    rfl

namespace Value

theorem plain?_map (cs : List Char) : Value.plain? (cs.map .char) = some cs := by
  rw [Value.plain?, mapM_eq_some_iff, List.forall₂_map_left_iff, List.forall₂_same]
  exact fun c _ => rfl

theorem plain?_reference {v : Value} (h : .reference name meaning ∈ v) : v.plain? = none := by
  rw [Option.eq_none_iff_forall_ne_some]
  intro cs hcs
  rw [plain?, mapM_eq_some_iff] at hcs
  induction hcs with
  | nil => cases h
  | cons hpiece _ ih =>
    rcases List.mem_cons.mp h with rfl | h
    · cases hpiece
    · exact ih h

theorem mem_flatten_intersperse {part : Value} {parts : List Value} (hpart : part ∈ parts)
    (h : piece ∈ part)
    (mark : Value) : piece ∈ (parts.intersperse mark).flatten := by
  induction parts with
  | nil => cases hpart
  | cons first parts ih =>
    cases parts with
    | nil =>
      obtain rfl := List.mem_singleton.mp hpart
      simpa using h
    | cons second parts =>
      rw [List.intersperse_cons_cons, List.flatten_cons, List.flatten_cons,
        List.mem_append, List.mem_append]
      rcases List.mem_cons.mp hpart with rfl | hpart
      · exact .inl h
      · exact .inr (.inr (ih hpart))

theorem exists_mem_of_mem_flatten_intersperse {parts : List Value}
    (h : piece ∈ (parts.intersperse mark).flatten) (hmark : piece ∉ mark) :
    ∃ part ∈ parts, piece ∈ part := by
  induction parts with
  | nil => cases h
  | cons first parts ih =>
    cases parts with
    | nil => exact ⟨first, List.mem_cons_self, by simpa using h⟩
    | cons second parts =>
      rw [List.intersperse_cons_cons, List.flatten_cons, List.flatten_cons, List.mem_append,
        List.mem_append] at h
      rcases h with h | h | h
      · exact ⟨first, List.mem_cons_self, h⟩
      · exact absurd h hmark
      · obtain ⟨part, hpart, hmem⟩ := ih h
        exact ⟨part, List.mem_cons_of_mem _ hpart, hmem⟩

theorem reference_mem_squeeze {v : Value} (h : .reference name meaning ∈ v) :
    .reference name meaning ∈ v.squeeze := by
  have hsplit : (List.intersperse [.char ' '] (v.splitOn (.char ' '))).flatten = v :=
    List.intercalate_splitOn _
  obtain ⟨part, hpart, hmem⟩ := exists_mem_of_mem_flatten_intersperse (hsplit ▸ h) (by simp)
  refine mem_flatten_intersperse (List.mem_filter.mpr ⟨hpart, ?_⟩) hmem _
  cases part with
  | nil => cases hmem
  | cons => rfl

end Value

theorem RawAttribute.IsHeld.isNamed_iff {a : RawAttribute} (h : a.IsHeld isOpen) (element : QName) :
    (a.1 != identifierName || (a.2.squeeze.plain?.map isName).getD true) = true ↔
      ∀ id, identifier? [] element a = some id → IsNamed id := by
  obtain ⟨name, value⟩ := a
  rw [identifier?_eq]
  by_cases hname : name = identifierName
  · by_cases hreference : ∃ entity meaning, .reference entity meaning ∈ value
    · -- Such a value identifies nothing.
      obtain ⟨entity, meaning, hmem⟩ := hreference
      simp [hname, Value.plain?_reference hmem,
        Value.plain?_reference (Value.reference_mem_squeeze hmem)]
    · have hplain : value.IsPlain := by
        intro piece hpiece
        cases piece with
        | char c => exact ⟨c, rfl, h.value _ hpiece⟩
        | reference entity meaning => exact absurd ⟨entity, meaning, hpiece⟩ hreference
      rw [hplain.eq_map.1]
      simp [hname, Value.plain?_map, IsNamed]
  · simp [hname]

theorem Token.hasNamedIdentifier_iff {t : Token} (h : t.IsHeld isOpen) :
    t.hasNamedIdentifier = true ↔ ∀ id ∈ t.identifiers [], IsNamed id := by
  cases t with
  | opening name attributes =>
    simp only [hasNamedIdentifier, Token.identifiers, List.all_eq_true, List.mem_filterMap,
      forall_exists_index, and_imp]
    constructor
    · exact fun hnamed id a ha => ((h.2 a ha).isNamed_iff name).mp (hnamed a ha) id
    · exact fun hnamed a ha => ((h.2 a ha).isNamed_iff name).mpr fun id => hnamed id a ha
  | _ => simp [hasNamedIdentifier, Token.identifiers]

/-- What tokens refer to is sound where nothing is declared, so only what identifies elements
counts. -/
theorem areSound_iff (h : ∀ t ∈ tokens, Token.IsHeld isOpen t) :
    areSound { entities := ⟨[], isOpen⟩ } tokens = true ↔
      (∀ id ∈ tokens.flatMap (Token.identifiers []), IsNamed id) ∧
        (tokens.flatMap (Token.identifiers [])).Pairwise (· ≠ ·) := by
  have hentities : ∀ t ∈ tokens, Entities.isSound ⟨[], isOpen⟩ 1 t = true := by
    intro t _
    cases t <;> rfl
  simp only [areSound, identifiersDiffer, Bool.and_eq_true, decide_eq_true_eq, List.all_eq_true,
    List.mem_flatMap, forall_exists_index, and_imp]
  constructor
  · rintro ⟨⟨-, hnamed⟩, hdiffer⟩
    exact ⟨fun id t ht => (Token.hasNamedIdentifier_iff (h t ht)).mp (hnamed t ht) id, hdiffer⟩
  · rintro ⟨hnamed, hdiffer⟩
    exact ⟨⟨hentities, fun t ht =>
      (Token.hasNamedIdentifier_iff (h t ht)).mpr fun id => hnamed id t ht⟩,
      hdiffer⟩

theorem IsTagEnd.mem {cs : List Char} (h : IsTagEnd cs empty) : ∀ c ∈ cs, c ∈ [' ', '/', '>'] := by
  cases h <;> simp

theorem printSections_plain {parts : List (List Char)} (h : ∀ part ∈ parts, '\r' ∉ part) :
    '\r' ∉ printSections parts := by
  simp only [printSections, List.mem_flatMap, List.mem_append, not_exists, not_and, not_or]
  exact fun part hpart => ⟨⟨by decide, h part hpart⟩, by decide⟩

theorem printInstruction_plain (h : IsInstruction target data)
    (hdata : ∀ d, data = some d → '\r' ∉ d.toList) : '\r' ∉ printInstruction target data := by
  have htarget : '\r' ∉ target.toList := by
    have hname := h.name
    simp only [isName, Bool.and_eq_true, List.all_eq_true] at hname
    exact fun hmem => absurd (hname.2 _ hmem) (by decide)
  cases data with
  | none => simp [printInstruction, htarget]
  | some d => simp [printInstruction, htarget, hdata d rfl]

theorem Node.IsHeld.not_mem_draw {stop : Tag → List Char} (hstop : AreTagEnds stop) {n : Node}
    (h : n.IsHeld isOpen scope depth) : '\r' ∉ n.draw stop := by
  induction h with
  | text _ _ =>
    intro hmem
    obtain ⟨c, -, hc⟩ := List.mem_flatMap.mp hmem
    exact (isInner_escapeText hc).2.2 rfl
  | @cdata _ _ s _ hplain =>
    obtain ⟨first, parts, hjoined, -, hprint⟩ := printSection_sections s
    have hdraw : draw stop (.cdata s) = printSections (first :: parts) := hprint
    rw [hdraw]
    refine printSections_plain fun part hpart hmem => hplain (hjoined ▸ ?_)
    exact List.mem_flatten.mpr ⟨part, hpart, hmem⟩
  | comment _ hplain => simp [draw, print, hplain]
  | instruction hsound hplain => exact printInstruction_plain hsound hplain
  | reference hforeign => exact fun hmem => (isInner_printReference hforeign.named _ hmem).2.2 rfl
  | @element _ children _ tag _ htag _ _ ih =>
    have hname : '\r' ∉ tag.name.written.print := fun hmem => (htag.name.isInner _ hmem).2.2 rfl
    have hprint : '\r' ∉ tag.print := fun hmem => (htag.isWritable.isInner _ hmem).2.2 rfl
    have hend : '\r' ∉ stop tag := fun hmem => absurd ((hstop tag).mem _ hmem) (by decide)
    cases children with
    | nil => simp [draw, hprint, hend]
    | cons child children =>
      simp only [List.mem_cons, forall_eq_or_imp] at ih
      simp [draw, hprint, hname, ih.1, Node.drawAll_eq_flatMap]
      exact ih.2

variable {blanks : List Char}

theorem Lexes.spaces (h : ∀ c ∈ blanks, isSpace c = true) :
    Lexes isOpen blanks (blanks.map .char) := by
  induction blanks with
  | nil => exact .nil
  | cons c blanks ih =>
    obtain ⟨hc, hblanks⟩ := List.forall_mem_cons.mp h
    have hread : ∀ fuel, readTokens? ⟨[], isOpen⟩ fuel (c :: blanks) =
        some ([.char c], blanks) := by
      intro fuel
      simp only [isSpace, Bool.or_eq_true, beq_iff_eq] at hc
      rcases hc with ((rfl | rfl) | rfl) | rfl <;> rfl
    exact (ih hblanks).cons (fun fuel _ => hread fuel) (by simp)

theorem root?_eq_some_iff :
    root? { entities := ⟨[], isOpen⟩ } cs = some e ↔
    ∃ tokens root rest, tokens? ⟨[], isOpen⟩ cs = some tokens ∧
      assemble? [] tokens = some (root, rest) ∧ rest.all Token.isMiscellaneous = true ∧
      areSound { entities := ⟨[], isOpen⟩ } tokens = true ∧ root.element? = some e := by
  have hcomplete : Token.complete [] = id := funext Token.complete_nil
  simp only [root?, hcomplete, List.map_id, Option.bind_eq_bind,
    Option.bind_eq_some_iff, Prod.exists,
    Option.ite_none_right_eq_some, Bool.and_eq_true]
  constructor
  · rintro ⟨tokens, htokens, root, rest, hassemble, ⟨hrest, hsound⟩, helement⟩
    exact ⟨tokens, root, rest, htokens, hassemble, hrest, hsound, helement⟩
  · rintro ⟨tokens, root, rest, htokens, hassemble, hrest, hsound, helement⟩
    exact ⟨tokens, htokens, root, rest, hassemble, ⟨hrest, hsound⟩, helement⟩

/-- An element is read from what it is printed as, whatever ends its empty tags, with blanks behind
it, exactly if it may be a root. Nothing else is read from it. -/
theorem Element.root?_draw_held_iff {e e' : Element} (h : e.toNode.IsHeld isOpen [] 0)
    {stop : Tag → List Char}
    (hstop : AreTagEnds stop) (hblanks : ∀ c ∈ blanks, isSpace c = true) (hplain : '\r' ∉ blanks) :
    root? { entities := ⟨[], isOpen⟩ } (e.toNode.draw stop ++ blanks) = some e' ↔
    e' = e ∧ e.IsHeldRoot isOpen := by
  obtain ⟨tokens, hread⟩ := Node.IsHeld.isRead hstop h
  have hlexes := (hread.lexes (Lexes.spaces hblanks)).tokens?
  have hassemble : assemble? [] (tokens ++ blanks.map .char) = some (e.toNode, blanks.map .char) :=
    hread.assembles _ rfl rfl
  have hidentifiers : (tokens ++ blanks.map Token.char).flatMap (Token.identifiers []) =
      e.toNode.identifiers := by
    have hnone : (blanks.map Token.char).flatMap (Token.identifiers []) = [] :=
      List.flatMap_eq_nil_iff.mpr (by simp [Token.identifiers])
    rw [List.flatMap_append, hnone, List.append_nil]
    exact hread.identifiers
  have hsound : areSound { entities := ⟨[], isOpen⟩ } (tokens ++ blanks.map .char) = true ↔
      (∀ id ∈ e.toNode.identifiers, IsNamed id) ∧ e.toNode.identifiers.Pairwise (· ≠ ·) := by
    rw [← hidentifiers]
    refine areSound_iff (tokens?_sound ?_ hlexes)
    rw [List.mem_append]
    exact not_or.mpr ⟨h.not_mem_draw hstop, hplain⟩
  constructor
  · intro hroot
    obtain ⟨_, _, _, htokens, hassemble', -, hall, helement⟩ := root?_eq_some_iff.mp hroot
    obtain rfl := Option.some.inj (hlexes.symm.trans htokens)
    obtain ⟨rfl, rfl⟩ : e.toNode = _ ∧ blanks.map Token.char = _ := by
      simpa using hassemble.symm.trans hassemble'
    obtain ⟨hnamed, hdiffer⟩ := hsound.mp hall
    exact ⟨(Option.some.inj helement).symm, h, hnamed, hdiffer⟩
  · rintro ⟨rfl, hroot⟩
    refine root?_eq_some_iff.mpr ⟨_, _, _, hlexes, hassemble, ?_,
      hsound.mpr ⟨hroot.named, hroot.differ⟩, rfl⟩
    simpa [Token.isMiscellaneous] using hblanks

theorem Element.root?_draw_iff {e e' : Element} (h : e.toNode.IsSound [] 0) {stop : Tag → List Char}
    (hstop : AreTagEnds stop) (hblanks : ∀ c ∈ blanks, isSpace c = true) (hplain : '\r' ∉ blanks) :
    root? {} (e.toNode.draw stop ++ blanks) = some e' ↔ e' = e ∧ e.IsRoot := by
  rw [← Element.isHeldRoot_false]
  exact Element.root?_draw_held_iff (Node.isHeld_false.mpr h) hstop hblanks hplain

theorem Element.IsHeldRoot.read {e : Element} (h : e.IsHeldRoot isOpen) {stop : Tag → List Char}
    (hstop : AreTagEnds stop) (hblanks : ∀ c ∈ blanks, isSpace c = true) (hplain : '\r' ∉ blanks) :
    root? { entities := ⟨[], isOpen⟩ } (e.toNode.draw stop ++ blanks) = some e :=
  (Element.root?_draw_held_iff h.held hstop hblanks hplain).mpr ⟨rfl, h⟩

theorem root?_held (hplain : '\r' ∉ cs) (h : root? { entities := ⟨[], isOpen⟩ } cs = some e) :
    e.IsHeldRoot isOpen := by
  obtain ⟨tokens, root, rest, htokens, hassemble, hrest, hsound, helement⟩ := root?_eq_some_iff.mp h
  have htokensHeld := tokens?_sound hplain htokens
  obtain ⟨hroot, ⟨tag, children, rfl⟩, -, hidentifiers⟩ :=
    assemble?_held (areHeld_nil isOpen) htokensHeld hassemble
  obtain rfl : ⟨tag, children⟩ = e := by simpa [Node.element?] using helement
  obtain ⟨hnamed, hdiffer⟩ := (areSound_iff htokensHeld).mp hsound
  have hbehind : rest.flatMap (Token.identifiers []) = [] := by
    refine List.flatMap_eq_nil_iff.mpr fun t ht => ?_
    have hmiscellaneous := List.all_eq_true.mp hrest t ht
    cases t <;> first | rfl | simp [Token.isMiscellaneous] at hmiscellaneous
  rw [hbehind, List.append_nil] at hidentifiers
  change tokens.flatMap (Token.identifiers []) = _ at hidentifiers
  rw [hidentifiers] at hnamed hdiffer
  exact ⟨hroot, hnamed, hdiffer⟩

theorem root?_sound (hplain : '\r' ∉ cs) (h : root? {} cs = some e) : e.IsRoot :=
  Element.isHeldRoot_false.mp (root?_held hplain h)

/-- Only spaces follow a root among the characters that end no markup. -/
theorem root?_trailing (hplain : '\r' ∉ before ++ cs) (hcs : ∀ c ∈ cs, c ∉ [';', '>'])
    (h : root? { entities := ⟨[], isOpen⟩ } (before ++ cs) = some e) :
    ∀ c ∈ cs, isSpace c = true := by
  obtain ⟨tokens, root, rest, htokens, hassemble, hrest, -, -⟩ := root?_eq_some_iff.mp h
  obtain ⟨first, rfl, -⟩ := tokensWithin?_trailing before hplain hcs htokens
  obtain ⟨-, -, ⟨inside, name, hsplit⟩, -⟩ :=
    assemble?_held (areHeld_nil isOpen) (tokens?_sound hplain htokens) hassemble
  -- The root ends with a tag, which none of these characters is.
  obtain ⟨between, -, rfl⟩ := append_eq_append_cons hsplit (by simp)
  intro c hc
  exact List.all_eq_true.mp hrest (.char c) (List.mem_append_right _ (List.mem_map_of_mem hc))

end DocMerge.Xml

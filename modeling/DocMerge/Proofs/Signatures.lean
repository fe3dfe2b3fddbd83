import DocMerge.DocId.Canonical

/-!
# Signatures and their spellings

What an identifier names, apart from how it is written: a kind, a path of names with generic
arguments, and the types of a parameter list. `Signature.docId` writes it as a DocId does, and
`Signature.Spelled` tells the other texts that people and tools write for it.
-/

namespace DocMerge.DocId

open Text (isWord isDigit joinWith)

-- ---------------------------------------------------------------------------
-- Signatures
-- ---------------------------------------------------------------------------

def isNameChar (c : Char) : Bool := isWord c || c == '`'

structure Name where
  chars : List Char
  ne_nil : chars ≠ []
  all : ∀ c ∈ chars, isNameChar c = true

inductive TypeRef
  | named (name : Name) (arguments : List TypeRef)
  | nested (outer : TypeRef) (name : Name) (arguments : List TypeRef)
  | array (element : TypeRef) (commas : Nat)
  | reference (element : TypeRef)

structure Segment where
  name : Name
  arguments : List TypeRef := []

structure Signature where
  kind : Char
  isUpper : kind.isUpper = true
  path : List Segment
  ne_nil : path ≠ []
  parameters : Option (List TypeRef) := none

-- ---------------------------------------------------------------------------
-- The DocId of a signature
-- ---------------------------------------------------------------------------

def braced : List (List Char) → List Char
  | [] => []
  | parts => '\x7b' :: (joinWith [','] parts ++ ['\x7d'])

mutual
def TypeRef.docId : TypeRef → List Char
  | .named name arguments => name.chars ++ braced (docIds arguments)
  | .nested outer name arguments => outer.docId ++ '.' :: (name.chars ++ braced (docIds arguments))
  | .array element commas => element.docId ++ '[' :: (List.replicate commas ',' ++ [']'])
  | .reference element => element.docId ++ ['@']
def docIds : List TypeRef → List (List Char)
  | [] => []
  | t :: rest => t.docId :: docIds rest
end

/-- Generic arguments are counted on the path. -/
def Segment.docId (tick : List Char) (segment : Segment) : List Char :=
  match segment.arguments with
  | [] => segment.name.chars
  | arguments => segment.name.chars ++ tick ++ (toString arguments.length).toList

def parametersDocId : Option (List TypeRef) → List Char
  | none => []
  | some types => '(' :: (joinWith [','] (docIds types) ++ [')'])

/-- The mark before the number of arguments of the last name: two ticks in the name of a method. -/
def Signature.lastTick (signature : Signature) : List Char :=
  if signature.kind = 'M' then ['`', '`'] else ['`']

def pathDocId (lastTick : List Char) (path : List Segment) : List Char :=
  joinWith ['.'] (mapWithLast (Segment.docId ['`']) (Segment.docId lastTick) path)

def Signature.docId (signature : Signature) : String :=
  String.ofList (signature.kind :: ':' ::
    (pathDocId signature.lastTick signature.path ++ parametersDocId signature.parameters))

-- ---------------------------------------------------------------------------
-- Spellings
-- ---------------------------------------------------------------------------

def IsSeparator (c : Char) : Prop := c = '.' ∨ c = '+' ∨ c = '/'

inductive Bound : List Char → Prop
  | free : Bound []
  | lower (hne : digits ≠ []) (hall : ∀ c ∈ digits, isDigit c = true) : Bound (digits ++ [':'])

inductive Dimensions : Nat → List Char → Prop
  | last (hbound : Bound bound) : Dimensions 0 bound
  | more (hbound : Bound bound) (hrest : Dimensions commas rest) :
    Dimensions (commas + 1) (bound ++ ',' :: rest)

inductive Encloses : Char → Char → Prop
  | angle : Encloses '<' '>'
  | brace : Encloses '\x7b' '\x7d'

mutual
inductive TypeRef.Spelled : TypeRef → List Char → Prop
  | named (harguments : SpelledArguments arguments text) :
    TypeRef.Spelled (.named name arguments) (name.chars ++ text)
  | nested (houter : TypeRef.Spelled outer written) (hseparator : IsSeparator separator)
    (harguments : SpelledArguments arguments text) :
    TypeRef.Spelled (.nested outer name arguments) (written ++ separator :: (name.chars ++ text))
  | array (helement : TypeRef.Spelled element written) (hdimensions : Dimensions commas text) :
    TypeRef.Spelled (.array element commas) (written ++ '[' :: (text ++ [']']))
  | reference (helement : TypeRef.Spelled element written) (hmark : mark = '&' ∨ mark = '@') :
    TypeRef.Spelled (.reference element) (written ++ [mark])
inductive SpelledArguments : List TypeRef → List Char → Prop
  | none : SpelledArguments [] []
  | some (hencloses : Encloses o close) (htypes : SpelledTypes (t :: rest) text) :
    SpelledArguments (t :: rest) (o :: (text ++ [close]))
inductive SpelledTypes : List TypeRef → List Char → Prop
  | none : SpelledTypes [] []
  | last (h : TypeRef.Spelled t text) : SpelledTypes [t] text
  | more (h : TypeRef.Spelled t text) (hrest : SpelledTypes (next :: rest) written) :
    SpelledTypes (t :: next :: rest) (text ++ ',' :: written)
end

inductive Segment.Spelled (tick : List Char) : Segment → List Char → Prop
  | counted (segment : Segment) : Spelled tick segment (segment.docId tick)
  | listed (name : Name) (htypes : SpelledTypes (t :: rest) text) :
    Spelled tick ⟨name, t :: rest⟩ (name.chars ++ '<' :: (text ++ ['>']))

inductive SpelledPath (lastTick : List Char) : List Segment → List Char → Prop
  | last {segment : Segment} (h : segment.Spelled lastTick text) :
    SpelledPath lastTick [segment] text
  | more {segment : Segment} (h : segment.Spelled ['`'] text) (hseparator : IsSeparator separator)
    (hrest : SpelledPath lastTick (next :: rest) written) :
    SpelledPath lastTick (segment :: next :: rest) (text ++ separator :: written)

inductive SpelledParameters : Option (List TypeRef) → List Char → Prop
  | none : SpelledParameters none []
  | some (htypes : SpelledTypes types text) :
    SpelledParameters (some types) ('(' :: (text ++ [')']))

inductive Signature.Spelled (signature : Signature) : List Char → Prop
  | intro {letter : Char} {text written : List Char} (hletter : letter.isAlpha = true)
    (hkind : letter.toUpper = signature.kind)
    (hpath : SpelledPath signature.lastTick signature.path text)
    (hparameters : SpelledParameters signature.parameters written) :
    Spelled signature (letter :: ':' :: (text ++ written))

-- ---------------------------------------------------------------------------
-- A DocId is a spelling
-- ---------------------------------------------------------------------------

theorem joinWith_cons_cons (separator : Char) (part next : List Char) (parts : List (List Char)) :
    joinWith [separator] (part :: next :: parts) = part ++ separator ::
    joinWith [separator] (next :: parts) := by
  rw [joinWith, List.append_assoc, List.singleton_append]
  exact List.cons_ne_nil next parts

theorem SpelledTypes.braced (h : SpelledTypes types (joinWith [','] (docIds types))) :
    SpelledArguments types (braced (docIds types)) := by
  cases types with
  | nil => exact .none
  | cons t rest => exact .some .brace h

theorem dimensions_replicate (commas : Nat) : Dimensions commas (List.replicate commas ',') := by
  induction commas with
  | zero => exact .last .free
  | succ commas ih => exact .more .free ih

mutual
theorem TypeRef.spelled_docId : (t : TypeRef) → t.Spelled t.docId
  | .named name arguments => by
    rw [TypeRef.docId]
    exact .named (spelledTypes_docIds arguments).braced
  | .nested outer name arguments => by
    rw [TypeRef.docId]
    exact .nested outer.spelled_docId (.inl rfl) (spelledTypes_docIds arguments).braced
  | .array element commas => by
    rw [TypeRef.docId]
    exact .array element.spelled_docId (dimensions_replicate commas)
  | .reference element => by
    rw [TypeRef.docId]
    exact .reference element.spelled_docId (.inr rfl)
theorem spelledTypes_docIds :
    (types : List TypeRef) → SpelledTypes types (joinWith [','] (docIds types))
  | [] => .none
  | [t] => .last t.spelled_docId
  | t :: next :: rest => by
    rw [docIds, docIds, joinWith_cons_cons, ← docIds]
    exact .more t.spelled_docId (spelledTypes_docIds (next :: rest))
end

theorem joinWith_mapWithLast_cons {init last : α → List Char} {rest : List α} (x : α)
    (hne : rest ≠ []) :
    joinWith ['.'] (mapWithLast init last (x :: rest)) =
      init x ++ '.' :: joinWith ['.'] (mapWithLast init last rest) := by
  obtain ⟨next, rest, rfl⟩ := List.exists_cons_of_ne_nil hne
  cases rest <;> exact joinWith_cons_cons '.' _ _ _

theorem spelledPath_docId (lastTick : List Char) (hne : path ≠ []) :
    SpelledPath lastTick path (pathDocId lastTick path) := by
  induction path with
  | nil => exact absurd rfl hne
  | cons segment rest ih =>
    cases rest with
    | nil => exact .last (.counted segment)
    | cons next rest =>
      rw [pathDocId, joinWith_mapWithLast_cons segment (List.cons_ne_nil next rest)]
      exact .more (.counted segment) (.inl rfl) (ih (List.cons_ne_nil next rest))

theorem spelledParameters_docId (parameters : Option (List TypeRef)) :
    SpelledParameters parameters (parametersDocId parameters) := by
  cases parameters with
  | none => exact .none
  | some types => exact .some (spelledTypes_docIds types)

theorem Signature.spelled_docId (signature : Signature) :
    signature.Spelled signature.docId.toList := by
  have hupper : 'A'.val ≤ signature.kind.val ∧ signature.kind.val ≤ 'Z'.val :=
    of_decide_eq_true signature.isUpper
  rw [docId, String.toList_ofList]
  refine .intro ?_ ?_ (spelledPath_docId _ signature.ne_nil) (spelledParameters_docId _)
  · exact Bool.or_eq_true_iff.mpr (.inl signature.isUpper)
  · exact dif_neg fun hlower => absurd (UInt32.le_trans hlower.1 hupper.2) (by decide)

end DocMerge.DocId

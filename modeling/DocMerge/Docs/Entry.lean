import DocMerge.DocId.Canonical
import DocMerge.Docs.Identifier

/-!
# Documented APIs

An entry is a type or a member of a type together with its documentation. A text that is absent has
no element to hold it; it is never given one.
-/

namespace DocMerge

inductive DocField
  | summary | remarks | returns | value | param | typeparam
  deriving DecidableEq, Repr

namespace DocField

def name : DocField → String
  | summary => "summary"
  | remarks => "remarks"
  | returns => "returns"
  | value => "value"
  | param => "param"
  | typeparam => "typeparam"

def all : List DocField := [summary, remarks, returns, value, param, typeparam]

def ofName? (s : String) : Option DocField := all.find? (·.name == s)

end DocField

structure ExceptionDoc where
  cref : String
  text : String
  deriving DecidableEq, Repr

/-- Texts by name. A name has one text, and names keep the order in which they first appear. -/
structure NamedTexts where
  toList : List (String × String)
  distinct : (toList.map (·.1)).Nodup
  deriving DecidableEq, Repr

namespace NamedTexts

instance : EmptyCollection NamedTexts := ⟨⟨[], by simp⟩⟩

instance : Inhabited NamedTexts := ⟨∅⟩

instance : Coe NamedTexts (List (String × String)) := ⟨toList⟩

def names (texts : NamedTexts) : List String := texts.toList.map (·.1)

def lookup (texts : NamedTexts) (name : String) : Option String := texts.toList.lookup name

/-- Sets the text of a name among pairs; a new name comes last. -/
def setPair (name text : String) : List (String × String) → List (String × String)
  | [] => [(name, text)]
  | (n, t) :: rest => if n = name then (n, text) :: rest else (n, t) :: setPair name text rest

theorem names_setPair (name text : String) (pairs : List (String × String)) :
    (setPair name text pairs).map (·.1) =
      if name ∈ pairs.map (·.1) then pairs.map (·.1) else pairs.map (·.1) ++ [name] := by
  induction pairs with
  | nil => simp [setPair]
  | cons pair rest ih =>
    by_cases h : pair.1 = name
    · simp [setPair, h]
    · simp only [setPair, h, if_false, List.map_cons, ih, List.mem_cons, Ne.symm h, false_or]
      split <;> simp

def set (texts : NamedTexts) (name text : String) : NamedTexts where
  toList := setPair name text texts.toList
  distinct := by
    rw [names_setPair]
    split
    · exact texts.distinct
    · rename_i h
      exact List.nodup_append.mpr
        ⟨texts.distinct, by simp, fun a ha b hb => by rintro rfl; simp_all⟩

def ofList (pairs : List (String × String)) : NamedTexts :=
  pairs.foldl (fun texts (name, text) => texts.set name text) ∅

@[simp] theorem lookup_empty (name : String) : (∅ : NamedTexts).lookup name = none := rfl

@[simp] theorem lookup_eq_none_iff {texts : NamedTexts} :
    texts.lookup name = none ↔ name ∉ texts.names := by
  simp only [lookup, names, List.lookup_eq_none_iff, List.mem_map, not_exists, not_and]
  grind

theorem mem_names_of_lookup {texts : NamedTexts} (h : texts.lookup name = some text) :
    name ∈ texts.names := by
  refine Decidable.byContradiction fun hn => ?_
  simp [lookup_eq_none_iff.mpr hn] at h

theorem lookup_setPair (name text other : String) (pairs : List (String × String)) :
    (setPair name text pairs).lookup other = if other = name then some text
      else pairs.lookup other := by
  induction pairs with
  | nil => grind [setPair]
  | cons pair rest ih => grind [setPair]

@[simp] theorem lookup_set (texts : NamedTexts) (name text other : String) :
    (texts.set name text).lookup other = if other = name then some text else texts.lookup other :=
  lookup_setPair name text other texts.toList

theorem names_set (texts : NamedTexts) (h : name ∈ texts.names) :
    (texts.set name text).names = texts.names := by
  simp only [names, set, names_setPair]
  exact if_pos h

theorem mem_toList_iff {texts : NamedTexts} :
    (name, text) ∈ texts.toList ↔ texts.lookup name = some text := by
  obtain ⟨pairs, distinct⟩ := texts
  simp only [lookup]
  induction pairs with
  | nil => simp
  | cons pair rest ih =>
    simp only [List.map_cons, List.nodup_cons] at distinct
    have ih := ih distinct.2
    grind

theorem ext_lookup {a b : NamedTexts} (hnames : a.names = b.names)
    (hlookup : ∀ name, a.lookup name = b.lookup name) : a = b := by
  obtain ⟨first, hfirst⟩ := a
  obtain ⟨second, hsecond⟩ := b
  simp only [names, lookup, mk.injEq] at hnames hlookup ⊢
  induction first generalizing second with
  | nil =>
    cases second with
    | nil => rfl
    | cons pair second => simp at hnames
  | cons pair first ih =>
    cases second with
    | nil => simp at hnames
    | cons pair' second =>
      obtain ⟨name, text⟩ := pair
      obtain ⟨name', text'⟩ := pair'
      simp only [List.map_cons, List.cons.injEq, List.nodup_cons] at hnames hfirst hsecond
      obtain ⟨rfl, hnames⟩ := hnames
      have htext := hlookup name
      simp only [List.lookup_cons_self, Option.some.injEq] at htext
      subst htext
      -- The name of the first text is not that of any other.
      have hrest : ∀ other, first.lookup other = second.lookup other := by
        intro other
        by_cases h : other = name
        · subst h
          have hnone : (⟨first, hfirst.2⟩ : NamedTexts).lookup other = none :=
            lookup_eq_none_iff.mpr hfirst.1
          have hnone' : (⟨second, hsecond.2⟩ : NamedTexts).lookup other = none :=
            lookup_eq_none_iff.mpr hsecond.1
          exact hnone.trans hnone'.symm
        · simpa [List.lookup_cons, beq_false_of_ne h] using hlookup other
      rw [ih hfirst.2 second hsecond.2 hnames hrest]

end NamedTexts

/-- The documentation of an entry. An entry without any element for it is not `present`, and
`changed` tells whether a merge has written to it or, for a type, to one of its members. -/
structure DocFields where
  summary : Option String := none
  remarks : Option String := none
  returns : Option String := none
  value : Option String := none
  params : NamedTexts := ∅
  typeparams : NamedTexts := ∅
  exceptions : List ExceptionDoc := []
  present : Bool := true
  changed : Bool := false
  deriving DecidableEq, Repr, Inhabited

inductive ScalarField
  | summary | remarks | returns | value
  deriving DecidableEq, Repr

def ScalarField.all : List ScalarField := [summary, remarks, returns, value]

def ScalarField.toField : ScalarField → DocField
  | summary => .summary
  | remarks => .remarks
  | returns => .returns
  | value => .value

def DocFields.scalar (docs : DocFields) : ScalarField → Option String
  | .summary => docs.summary
  | .remarks => docs.remarks
  | .returns => docs.returns
  | .value => docs.value

def DocFields.setScalar (docs : DocFields) (field : ScalarField) (text : Option String) :
    DocFields :=
  match field with
  | .summary => { docs with summary := text }
  | .remarks => { docs with remarks := text }
  | .returns => { docs with returns := text }
  | .value => { docs with value := text }

inductive NamedField
  | param | typeparam
  deriving DecidableEq, Repr

def NamedField.all : List NamedField := [typeparam, param]

def NamedField.toField : NamedField → DocField
  | param => .param
  | typeparam => .typeparam

def DocFields.named (docs : DocFields) : NamedField → NamedTexts
  | .param => docs.params
  | .typeparam => docs.typeparams

def DocFields.setNamed (docs : DocFields) (field : NamedField) (texts : NamedTexts) : DocFields :=
  match field with
  | .param => { docs with params := texts }
  | .typeparam => { docs with typeparams := texts }

namespace DocFields

def markIf (docs : DocFields) (written : Bool) : DocFields :=
  { docs with changed := docs.changed || written }

section
variable (docs : DocFields) (text : Option String) (texts : NamedTexts)

@[simp] theorem scalar_setScalar (f g : ScalarField) :
    (docs.setScalar f text).scalar g = if g = f then text else docs.scalar g := by
  cases f <;> cases g <;> rfl

@[simp] theorem scalar_setNamed (f : NamedField) (g : ScalarField) :
    (docs.setNamed f texts).scalar g = docs.scalar g := by
  cases f <;> cases g <;> rfl

@[simp] theorem named_setScalar (f : ScalarField) (g : NamedField) :
    (docs.setScalar f text).named g = docs.named g := by
  cases f <;> cases g <;> rfl

@[simp] theorem named_setNamed (f g : NamedField) :
    (docs.setNamed f texts).named g = if g = f then texts else docs.named g := by
  cases f <;> cases g <;> rfl

@[simp] theorem exceptions_setScalar (f : ScalarField) :
    (docs.setScalar f text).exceptions = docs.exceptions := by
  cases f <;> rfl

@[simp] theorem exceptions_setNamed (f : NamedField) :
    (docs.setNamed f texts).exceptions = docs.exceptions := by
  cases f <;> rfl

@[simp] theorem present_setScalar (f : ScalarField) :
    (docs.setScalar f text).present = docs.present := by
  cases f <;> rfl

@[simp] theorem present_setNamed (f : NamedField) :
    (docs.setNamed f texts).present = docs.present := by
  cases f <;> rfl

end

section
variable (docs : DocFields) (written : Bool)

@[simp] theorem scalar_markIf (f : ScalarField) :
    (docs.markIf written).scalar f = docs.scalar f := by
  cases f <;> rfl

@[simp] theorem named_markIf (f : NamedField) : (docs.markIf written).named f = docs.named f := by
  cases f <;> rfl

@[simp] theorem exceptions_markIf : (docs.markIf written).exceptions = docs.exceptions := rfl

@[simp] theorem present_markIf : (docs.markIf written).present = docs.present := rfl

@[simp] theorem changed_markIf : (docs.markIf written).changed = (docs.changed || written) := rfl

@[simp] theorem markIf_false : docs.markIf false = docs := by simp [markIf]

end

theorem ext_fields {a b : DocFields} (hscalar : ∀ f, a.scalar f = b.scalar f)
    (hnamed : ∀ f, a.named f = b.named f) (hexceptions : a.exceptions = b.exceptions)
    (hpresent : a.present = b.present) (hchanged : a.changed = b.changed) : a = b := by
  have hsummary := hscalar .summary
  have hremarks := hscalar .remarks
  have hreturns := hscalar .returns
  have hvalue := hscalar .value
  have hparams := hnamed .param
  have htypeparams := hnamed .typeparam
  cases a
  cases b
  simp only [scalar, named] at *
  simp only [mk.injEq]
  exact ⟨hsummary, hremarks, hreturns, hvalue, hparams, htypeparams, hexceptions,
    hpresent, hchanged⟩

end DocFields

inductive ApiKind
  | type | member
  deriving DecidableEq, Repr, Inhabited

/-- What is fixed about an API once a corpus is loaded. -/
structure ApiNode where
  kind : ApiKind
  docId : String
  key : DocId.Key
  name : String := ""
  assembly : String := ""
  namespaceName : String := ""
  /-- Method, property, constructor and so on; of members only. -/
  memberType : String := ""
  /-- The DocId of the type that holds the member. -/
  typeDocId : String := ""
  interfaceMembers : List String := []
  sourcePath : String := ""
  deriving DecidableEq, Repr

structure Entry where
  node : ApiNode
  docs : DocFields := {}
  deriving DecidableEq, Repr

structure ApiType where
  entry : Entry
  members : List Entry := []
  deriving DecidableEq, Repr

namespace Entry

def docId (e : Entry) : String := e.node.docId

def key (e : Entry) : DocId.Key := e.node.key

end Entry

namespace ApiType

def docId (t : ApiType) : String := t.entry.docId

def key (t : ApiType) : DocId.Key := t.entry.key

end ApiType

/-- Generic arguments without any inside them. -/
def innermostArguments : Text.Pattern (List Char) := fun _ cs => do
  let inner ← Text.dropStart? ['<'] cs
  let rest ← Text.dropStart? ['>'] (inner.dropWhile (fun c => c != '<' && c != '>'))
  some ([], rest)

/-- A name without its generic arguments. They are taken away from the inside to the outside, until
none is left. -/
def withoutArguments (name : List Char) : List Char :=
  let next := Text.replaceAll innermostArguments name
  if _shorter : next.length < name.length then withoutArguments next else name
termination_by name.length

namespace ApiNode

def implementsInterface (node : ApiNode) : Bool := !node.interfaceMembers.isEmpty

/-- An explicit implementation carries the interface in its name: the name has a dot that does not
belong to generic arguments. -/
def isExplicitImplementation (node : ApiNode) : Bool :=
  node.kind == .member && node.implementsInterface &&
    (withoutArguments node.name.toList).contains '.'

end ApiNode

end DocMerge

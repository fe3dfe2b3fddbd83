import DocMerge.Message.Layout
import DocMerge.Message.Notice
import DocMerge.Text.Quoted

/-!
# Templates

The wording of a notice is a text with fields in braces. A field names an argument; it may go on to
a part of it, ask for its quoted form, and say how it is laid out. A doubled brace stands for
itself.

A field whose argument is missing, or whose part is, does not spoil the run: the text then says so.
A template that is malformed does.
-/

namespace DocMerge.Message

open Text (Symbol symbols)

inductive Missing
  | argument (name : List Symbol)
  | part
  deriving DecidableEq, Repr

inductive Failure
  | missing (what : Missing)
  | invalid (error : TemplateError)
  deriving DecidableEq, Repr

/-- What a template can ask of arguments: the attributes of all, and the items and layouts of those
that are neither texts nor counts. -/
structure Surface where
  attributeOf : Argument → List Symbol → Except Failure Argument
  itemOf : Argument → List Symbol → Except Failure Argument
  layOut : Argument → List Symbol → Except TemplateError (List Symbol)
  /-- How many symbols a field may ask for. -/
  memory : Nat := 67108864

/-- The attributes of counts that are counts. What else arguments have to offer is left out. -/
def Surface.counts : Surface where
  attributeOf
    | .count n, name =>
      if name = symbols "real" || name = symbols "numerator" then .ok (.count n)
      else if name = symbols "imag" then .ok (.count 0)
      else if name = symbols "denominator" then .ok (.count 1)
      else .error (.invalid .noAttribute)
    | _, _ => .error (.invalid .noAttribute)
  itemOf _ _ := .error (.invalid .notIndexed)
  layOut _ _ := .error .notIndexed

namespace Template

variable (surface : Surface)

inductive Access
  | attribute (name : List Symbol)
  | item (key : List Symbol)
  deriving DecidableEq, Repr

/-- A field: the name with the steps behind it, the letter of the conversion, and the layout as it
is written. -/
structure Field where
  name : List Symbol
  conversion : Option Symbol := none
  layout : List Symbol := []
  deriving Repr

/-- The name of a field up to the mark that ends it, the mark, and the rest. A mark between square
brackets does not count. -/
def readName : Bool → List Symbol → Except TemplateError (List Symbol × Symbol × List Symbol)
  | _, [] => .error .malformed
  | true, c :: rest => do
    let (name, mark, rest) ← readName (c != ']') rest
    pure (c :: name, mark, rest)
  | false, c :: rest =>
    if c == '\x7b' then .error .malformed
    else if c == '\x7d' || c == ':' || c == '!' then .ok ([], c, rest)
    else do
      let (name, mark, rest) ← readName (c == '[') rest
      pure (c :: name, mark, rest)

/-- A layout up to the brace that closes the field, where some braces inside are still open. -/
def readLayout : Nat → List Symbol → Except TemplateError (List Symbol × List Symbol)
  | _, [] => .error .malformed
  | opened, c :: rest =>
    if c == '\x7d' && opened = 0 then .ok ([], rest)
    else do
      let opened := if c == '\x7b' then opened + 1 else if c == '\x7d' then opened - 1 else opened
      let (layout, rest) ← readLayout opened rest
      pure (c :: layout, rest)

def readField (cs : List Symbol) : Except TemplateError (Field × List Symbol) := do
  let (name, mark, rest) ← readName false cs
  if mark == '\x7d' then pure ({ name }, rest)
  else if mark == ':' then
    let (layout, rest) ← readLayout 0 rest
    pure ({ name, layout }, rest)
  else
    match rest with
    | c :: .char '\x7d' :: rest => pure ({ name, conversion := some c }, rest)
    | c :: .char ':' :: rest =>
      let (layout, rest) ← readLayout 0 rest
      pure ({ name, conversion := some c, layout }, rest)
    | _ => throw .malformed

def readKey : List Symbol → Except TemplateError (List Symbol × List Symbol)
  | [] => .error .malformed
  | .char ']' :: rest => .ok ([], rest)
  | c :: rest => do
    let (key, rest) ← readKey rest
    pure (c :: key, rest)

def startsAccess (c : Symbol) : Bool := c == '.' || c == '['

def readAccess? : List Symbol → Option (Except TemplateError (Access × List Symbol))
  | [] => none
  | .char '.' :: rest =>
    let name := rest.takeWhile (!startsAccess ·)
    some (if name.isEmpty then .error .malformed
      else .ok (.attribute name, rest.dropWhile (!startsAccess ·)))
  | .char '[' :: rest =>
    some (do
      let (key, rest) ← readKey rest
      if key.isEmpty then throw .malformed
      pure (.item key, rest))
  | _ => some (.error .malformed)

def isNumber (cs : List Symbol) : Bool := !cs.isEmpty && cs.all Layout.isDigit

/-- The part of an argument that a step leads to. Texts are made of characters. -/
def Access.apply (access : Access) (argument : Argument) : Except Failure Argument :=
  match access, argument with
  | .item key, .text s =>
    if isNumber key then
      if Layout.tooLong key then .error (.invalid .malformed)
      else
        match s.toList[Layout.decimal key]? with
        | some c => .ok (.text (String.singleton c))
        | none => .error (.missing .part)
    else .error (.invalid .notIndexed)
  | .item key, .count _ =>
    if isNumber key && Layout.tooLong key then .error (.invalid .malformed)
    else .error (.invalid .notIndexed)
  | .item key, argument =>
    if isNumber key && Layout.tooLong key then .error (.invalid .malformed)
    else surface.itemOf argument key
  | .attribute name, argument => surface.attributeOf argument name

/-- Takes the steps behind a name. Each step reads at least one character. -/
def follow : Nat → Argument → List Symbol → Except Failure Argument
  | 0, argument, _ => .ok argument
  | fuel + 1, argument, cs =>
    match readAccess? cs with
    | none => .ok argument
    | some (.error e) => .error (.invalid e)
    | some (.ok (access, rest)) => do follow fuel (← access.apply surface argument) rest

def given? (arguments : Arguments) (name : List Symbol) : Option Argument :=
  (arguments.find? (fun argument => symbols argument.1 = name)).map (·.2)

/-- The argument that a field names. Fields without a name, or with a number for it, are not
supported. -/
def lookup (arguments : Arguments) (name : List Symbol) : Except Failure Argument :=
  let first := name.takeWhile (!startsAccess ·)
  if first.isEmpty || isNumber first then .error (.invalid .malformed)
  else
    match given? arguments first with
    | none => .error (.missing (.argument first))
    | some argument => follow surface name.length argument (name.dropWhile (!startsAccess ·))

def Argument.plain : Argument → String
  | .text s => s
  | .count n => toString n
  | .object shown _ => shown

def Argument.quotedForm : Argument → String
  | .text s => quote s
  | .count n => toString n
  | .object _ quotedForm => quotedForm

def asciiOnly (s : String) : String :=
  String.ofList (s.toList.flatMap (fun c => if c.toNat < 128 then [c] else Text.escapeCode c.toNat))

def convert (conversion : Option Symbol) (argument : Argument) : Except Failure Argument :=
  match conversion with
  | none => .ok argument
  | some (.char 's') => .ok (.text (Argument.plain argument))
  | some (.char 'r') => .ok (.text (Argument.quotedForm argument))
  | some (.char 'a') => .ok (.text (asciiOnly (Argument.quotedForm argument)))
  | some _ => .error (.invalid .malformed)

def layOut (argument : Argument) (layout : List Symbol) : Except TemplateError (List Symbol) :=
  if layout.isEmpty then .ok (symbols (Argument.plain argument))
  else
    match argument with
    | .text s => do (← Layout.ofSymbols layout).text surface.memory (symbols s)
    | .count n => do (← Layout.ofSymbols layout).count surface.memory n
    | .object .. => surface.layOut argument layout

def invalidOr (result : Except TemplateError α) : Except Failure α := result.mapError .invalid

/-- The text of a field, where fields inside its layout are filled by the given function. -/
def fill (fillLayout : List Symbol → Except Failure (List Symbol))
    (arguments : Arguments) (field : Field) :
    Except Failure (List Symbol) := do
  let argument ← convert field.conversion (← lookup surface arguments field.name)
  let layout ← if field.layout.contains '\x7b' then fillLayout field.layout else pure field.layout
  invalidOr (layOut surface argument layout)

/-- Fills the fields of a text from left to right, as many as the fuel allows for. -/
def expandWith (fillLayout : List Symbol → Except Failure (List Symbol)) (arguments : Arguments) :
    Nat → List Symbol → Except Failure (List Symbol)
  | 0, _ => .ok []
  | _, [] => .ok []
  | fuel + 1, c :: rest => do
    if c == '\x7b' || c == '\x7d' then
      if rest.head? == some c then
        pure (c :: (← expandWith fillLayout arguments fuel rest.tail))
      else if c == '\x7d' || rest.isEmpty then throw (.invalid .malformed)
      else
        let (field, rest) ← invalidOr (readField rest)
        let text ← fill surface fillLayout arguments field
        pure (text ++ (← expandWith fillLayout arguments fuel rest))
    else
      pure (c :: (← expandWith fillLayout arguments fuel rest))

/-- Fills the fields of a template. A layout may have fields, but those none in theirs. -/
def expand (arguments : Arguments) (template : List Symbol) : Except Failure (List Symbol) :=
  let deepest := fun _ => Except.error (Failure.invalid TemplateError.malformed)
  let inner (layout : List Symbol) :=
    expandWith surface deepest arguments (layout.length + 1) layout
  expandWith surface inner arguments (template.length + 1) template

/-- The text of a message with the given address. Something missing is told in the text; the answer
is an error only if a field cannot be filled for another reason, or the template is malformed. -/
def render (address : String) (template : List Symbol) (arguments : Arguments) :
    Except TemplateError (List Symbol) :=
  let failed (reason : List Char) :=
    symbols ("<formatting_error for '" ++ address ++ "': " ++ String.ofList reason ++ ">")
  match expand surface arguments template with
  | .ok text => .ok text
  | .error (.missing (.argument name)) => .ok (failed ("missing ".toList ++ Text.quoted name))
  | .error (.missing .part) => .ok (failed "positional field".toList)
  | .error (.invalid error) => .error error

end Template

end DocMerge.Message

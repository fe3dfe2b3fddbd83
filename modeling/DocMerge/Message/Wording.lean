import DocMerge.Message.Catalogs
import DocMerge.Message.Template

/-!
# Wording

Notices are put into words with the templates of the catalogs, and handed on to whoever tells the
user.
-/

namespace DocMerge.Message

open Files (Store)
open Text (Symbol)

inductive Unsaid
  | lookup (error : LookupError)
  | wording (error : TemplateError)
  /-- Whoever tells the user cannot write the text. -/
  | unwritable
  deriving DecidableEq, Repr

def Unsaid.name : Unsaid → String
  | lookup error => error.name
  | wording error => error.name
  | unwritable => "UnicodeEncodeError"

structure Voice where
  store : Store
  /-- What the arguments of messages have to offer to templates. -/
  surface : Surface := .counts
  /-- Whether a text of a level can be told. -/
  takes : Level → List Symbol → Bool := fun _ _ => true

def Catalogs.word (voice : Voice) (c : Catalogs) (address : String) (arguments : Arguments) :
    Except Unsaid (List Symbol) × Catalogs :=
  match c.get voice.store address none with
  | (.error e, c) => (.error (.lookup e), c)
  | (.ok template, c) =>
    ((Template.render voice.surface address template arguments).mapError .wording, c)

def Voice.tell (voice : Voice) (level : Level) (text : List Symbol) : Except Unsaid (List Symbol) :=
  if voice.takes level text then .ok text else .error .unwritable

/-- What became of a row of notices: the wordings, up to the first notice that is not told. -/
structure Worded where
  catalogs : Catalogs
  texts : List (Level × List Symbol) := []
  error : Option Unsaid := none

def wordAll (voice : Voice) (catalogs : Catalogs) : List Notice → Worded
  | [] => { catalogs }
  | notice :: rest =>
    let (text, catalogs) := catalogs.word voice notice.address notice.arguments
    match text.bind (voice.tell notice.level) with
    | .error e => { catalogs, error := some e }
    | .ok text =>
      let more := wordAll voice catalogs rest
      { more with texts := (notice.level, text) :: more.texts }

end DocMerge.Message

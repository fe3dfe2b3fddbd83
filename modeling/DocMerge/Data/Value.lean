import DocMerge.Data.Moment
import DocMerge.Decimal.Notation
import DocMerge.Text.Integer
import DocMerge.Text.Quoted

/-!
# Data values

What settings files and message catalogs hold. Tables keep the order in which keys first appear.
-/

namespace DocMerge.Data

inductive Datum (τ : Type)
  | null
  | bool (b : Bool)
  | int (n : Int)
  | float (x : Float)
  | moment (m : Moment)
  | text (s : τ)
  | list (items : List (Datum τ))
  | table (fields : List (τ × Datum τ))
  deriving Inhabited

abbrev Fields (τ : Type) := List (τ × Datum τ)

abbrev Value := Datum String

abbrev Table := Fields String

variable {τ : Type}

namespace Fields

def get? [BEq τ] (t : Fields τ) (key : τ) : Option (Datum τ) := t.lookup key

def insert [BEq τ] (t : Fields τ) (key : τ) (value : Datum τ) : Fields τ :=
  match t with
  | [] => [(key, value)]
  | (k, v) :: rest => if k == key then (k, value) :: rest else (k, v) :: insert rest key value

end Fields

namespace Datum

section
variable (quoteText : τ → String)

mutual
def quotedBy : Datum τ → String
  | .null => "None"
  | .bool b => if b then "True" else "False"
  | .int n => toString n
  | .float x => Decimal.render x
  | .moment m => m.quoted
  | .text s => quoteText s
  | .list items => "[" ++ quotedItems items ++ "]"
  | .table fields => "\x7b" ++ quotedFields fields ++ "\x7d"

def quotedItems : List (Datum τ) → String
  | [] => ""
  | [item] => quotedBy item
  | item :: rest => quotedBy item ++ ", " ++ quotedItems rest

def quotedFields : List (τ × Datum τ) → String
  | [] => ""
  | [(key, value)] => quoteText key ++ ": " ++ quotedBy value
  | (key, value) :: rest => quoteText key ++ ": " ++ quotedBy value ++ ", " ++ quotedFields rest
end

end

inductive Unshown
  | longInteger
  /-- Its parts are too deep inside each other. -/
  | tooDeep
  deriving DecidableEq, Repr

mutual
/-- What keeps a value from being shown where its parts may be so deep inside each other. -/
def unshown? (room : Nat) : Datum τ → Option Unshown
  | .int n => if Text.isWritten n then none else some .longInteger
  | .moment m => if m.depth ≤ room then none else some .tooDeep
  | .list items => unshownItems? room items
  | .table fields => unshownFields? room fields
  | _ => none

def unshownItems? : Nat → List (Datum τ) → Option Unshown
  | _, [] => none
  | 0, _ :: _ => some .tooDeep
  | room + 1, item :: rest => (item.unshown? room).or (unshownItems? (room + 1) rest)

def unshownFields? : Nat → List (τ × Datum τ) → Option Unshown
  | _, [] => none
  | 0, _ :: _ => some .tooDeep
  | room + 1, (_, value) :: rest => (value.unshown? room).or (unshownFields? (room + 1) rest)
end

end Datum

def Value.quoted (value : Value) : String := Datum.quotedBy quote value

end DocMerge.Data

/-!
# Dates and times

A moment is a day, a time of a day, or both; then it may say how far its clock is ahead of the
common one.
-/

namespace DocMerge.Data

structure Date where
  year : Nat
  month : Nat
  day : Nat
  deriving DecidableEq, Repr

structure Time where
  hour : Nat
  minute : Nat
  second : Nat
  micro : Nat
  deriving DecidableEq, Repr

inductive Moment
  | day (d : Date)
  | clock (t : Time)
  /-- Both, with the minutes by which the clock is ahead. -/
  | instant (d : Date) (t : Time) (ahead : Option Int)
  deriving DecidableEq, Repr

def isLeap (year : Nat) : Bool := year % 4 = 0 && (year % 100 ≠ 0 || year % 400 = 0)

def daysIn (year : Nat) : Nat → Nat
  | 2 => if isLeap year then 29 else 28
  | 4 | 6 | 9 | 11 => 30
  | _ => 31

namespace Date

/-- Whether there is such a day. Years count from one. -/
def isReal (d : Date) : Bool := 1 ≤ d.year && d.day ≤ daysIn d.year d.month

def numbers (d : Date) : List Nat := [d.year, d.month, d.day]

end Date

/-- The numbers of a time that are shown; of seconds and what is finer, not the zeros at the end. -/
def Time.numbers (t : Time) : List Nat :=
  if t.micro ≠ 0 then [t.hour, t.minute, t.second, t.micro]
  else if t.second ≠ 0 then [t.hour, t.minute, t.second]
  else [t.hour, t.minute]

/-- How far a clock is ahead. The common clock has a name of its own. -/
def quotedZone (minutes : Int) : String :=
  if minutes = 0 then "datetime.timezone.utc"
  else
    -- A clock that is behind is a day behind and some seconds ahead.
    let length :=
      if minutes < 0 then "days=-1, seconds=" ++ toString (86400 + 60 * minutes)
      else "seconds=" ++ toString (60 * minutes)
    "datetime.timezone(datetime.timedelta(" ++ length ++ "))"

namespace Moment

def isReal : Moment → Bool
  | day d | instant d .. => d.isReal
  | clock _ => true

def quoted (m : Moment) : String :=
  let list (numbers : List Nat) := ", ".intercalate (numbers.map toString)
  match m with
  | day d => "datetime.date(" ++ list d.numbers ++ ")"
  | clock t => "datetime.time(" ++ list t.numbers ++ ")"
  | instant d t ahead =>
    let zone := (ahead.map (fun minutes => ", tzinfo=" ++ quotedZone minutes)).getD ""
    "datetime.datetime(" ++ list (d.numbers ++ t.numbers) ++ zone ++ ")"

def depth : Moment → Nat
  | instant _ _ (some minutes) => if minutes = 0 then 1 else 2
  | _ => 0

end Moment

end DocMerge.Data

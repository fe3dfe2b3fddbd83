import DocMerge.Message.Notice
import DocMerge.Text.Search

/-!
# Screens

Messages are written line by line, errors to a stream of their own. Each level has its colour, which
a screen that has none leaves out.

Half of a surrogate pair cannot be written. Among errors it is shown as an escape; a message of
another level that is shown and holds one is not taken.
-/

namespace DocMerge.Command

open Message (Level)
open Text (Symbol)

structure Screen where
  /-- Whether messages are shown that only help to find mistakes. -/
  verbose : Bool := false
  coloured : Bool := false

def colour? : Level → Option Nat
  | .debug => some 90
  | .info => none
  | .success => some 32
  | .warning => some 33
  | .error => some 31

def mark (code : Nat) : String := "\x1b[" ++ toString code ++ "m"

/-- A message in the colour of its level. The mark at its end takes the colour back. -/
def styled (level : Level) (text : String) : String :=
  ((colour? level).map mark).getD "" ++ text ++ mark 0

def anyMark : Text.Pattern (List Char) := fun _ cs => do
  let rest ← Text.dropStart? ['\x1b', '['] cs
  match rest.dropWhile (fun c => c == ';' || c == '?' || c.isDigit) with
  | c :: rest => if c.isAlpha then some ([], rest) else none
  | [] => none

def withoutMarks (s : String) : String := String.ofList (Text.replaceAll anyMark s.toList)

namespace Screen

def line (s : Screen) (level : Level) (text : String) : String :=
  (if s.coloured then styled level text else withoutMarks text) ++ "\n"

def shows (s : Screen) (level : Level) : Bool := s.verbose || level != .debug

def takes (s : Screen) (level : Level) (text : List Symbol) : Bool :=
  !s.shows level || level == .error || text.all Symbol.isChar

def written : Symbol → List Char
  | .char c => [c]
  | .surrogate n => Text.escapeCode (Symbol.surrogate n).code

def lines (s : Screen) (isMeant : Level → Bool) (said : List (Level × List Symbol)) : String :=
  String.join ((said.filter (fun m => isMeant m.1 && s.shows m.1)).map
    (fun m => s.line m.1 (String.ofList (m.2.flatMap written))))

def output (s : Screen) (said : List (Level × List Symbol)) : String := s.lines (· != .error) said

def errors (s : Screen) (said : List (Level × List Symbol)) : String := s.lines (· == .error) said

end Screen

end DocMerge.Command

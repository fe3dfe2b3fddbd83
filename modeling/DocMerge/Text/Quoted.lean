import DocMerge.Text.Digits
import DocMerge.Text.Printable
import DocMerge.Text.Symbol

/-!
# Quoted text

How a text is shown inside a message: in single quotes, or in double quotes when it holds a single
quote and no double quote. Characters that cannot be printed are written as escapes.
-/

namespace DocMerge.Text

def escapeCode (n : Nat) : List Char :=
  if n < 0x100 then '\\' :: 'x' :: hex 2 n
  else if n < 0x10000 then '\\' :: 'u' :: hex 4 n
  else '\\' :: 'U' :: hex 8 n

def escapeIn (quote c : Char) : List Char :=
  if c == quote || c == '\\' then ['\\', c]
  else if c == '\n' then ['\\', 'n']
  else if c == '\r' then ['\\', 'r']
  else if c == '\t' then ['\\', 't']
  else if isPrintable c then [c]
  else escapeCode c.toNat

def Symbol.escapeIn (quote : Char) : Symbol → List Char
  | char c => Text.escapeIn quote c
  | surrogate n => escapeCode (Symbol.surrogate n).code

def quoteFor (cs : List Symbol) : Char :=
  if cs.contains (.char '\'') && !cs.contains (.char '"') then '"' else '\''

def quoted (cs : List Symbol) : List Char :=
  let quote := quoteFor cs
  quote :: cs.flatMap (Symbol.escapeIn quote) ++ [quote]

end DocMerge.Text

namespace DocMerge

def quote (s : String) : String := String.ofList (Text.quoted (Text.symbols s))

end DocMerge

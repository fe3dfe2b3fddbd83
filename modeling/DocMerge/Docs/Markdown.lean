import DocMerge.Text.Blank
import DocMerge.Text.Lines
import DocMerge.Text.Search
import DocMerge.Text.Word

/-!
# From documentation markup to markdown

Paragraphs become blocks separated by a blank line, code blocks become fenced blocks that keep their
line breaks, links become cross references, and names of keywords and parameters become inline code.

While the text between the code blocks is changed, each block is represented by a token, its
number between two null characters. At the end the tokens give way to the fences. A null character
and digits in the text itself look like a token; a number without a block is an error.
-/

namespace DocMerge.Markdown

open Text (Pattern scan replaceAll replaceText dropStart? cutAt? collapse trim isBlank isDigit)

def dropBlanks? (cs : List Char) : Option (List Char) :=
  if (cs.head?.map isBlank).getD false then some (cs.dropWhile isBlank) else none

def attribute? (name : String) (cs : List Char) : Option (List Char × List Char) := do
  let value ← dropStart? (name.toList ++ ['=', '"']) cs
  let rest ← dropStart? ['"'] (value.dropWhile (· != '"'))
  some (value.takeWhile (· != '"'), rest)

/-- An attribute that must not be empty, in a tag of the given name. -/
def tagged? (tag name : String) (cs : List Char) : Option (List Char × List Char) := do
  let rest ← dropBlanks? (← dropStart? ('<' :: tag.toList) cs)
  let (value, rest) ← attribute? name rest
  if value.isEmpty then none else some (value, rest)

def emptyEnd? (cs : List Char) : Option (List Char) := dropStart? ['/', '>'] (cs.dropWhile isBlank)

def content? (tag : String) (cs : List Char) : Option (List Char × List Char) := do
  let inner ← dropStart? ['>'] (cs.dropWhile isBlank)
  cutAt? ("</".toList ++ tag.toList ++ ['>']) inner

structure CodeBlock where
  language : List Char
  body : List Char
  deriving DecidableEq, Repr

/-- The language of a code block, under either name of the attribute. -/
def codeLanguage (cs : List Char) : List Char × List Char :=
  let named := (dropBlanks? cs).bind (fun rest =>
    (attribute? "language" rest).or (attribute? "lang" rest))
  named.getD ([], cs)

def codeBlock : Pattern CodeBlock := fun _ cs => do
  let (language, rest) := codeLanguage (← dropStart? "<code".toList cs)
  let (body, rest) ← content? "code" rest
  some (⟨language, body⟩, rest)

/-- Character data without the escapes of its markup. -/
def unescape (cs : List Char) : List Char :=
  replaceText "&amp;".toList ['&']
    (replaceText "&lt;".toList ['<'] (replaceText "&gt;".toList ['>'] cs))

def trimNewlines (cs : List Char) : List Char :=
  ((cs.dropWhile (· == '\n')).reverse.dropWhile (· == '\n')).reverse

def CodeBlock.fence (block : CodeBlock) : List Char :=
  let body := Text.trimEnd (Text.dedent (trimNewlines (unescape block.body)))
  "```".toList ++ block.language ++ '\n' :: body ++ "\n```".toList

/-- What stands for the block of the given number. -/
def token (n : Nat) : List Char := '\x00' :: (Nat.repr n).toList ++ ['\x00']

/-- The text with a paragraph for each code block, which holds its token. The first block has the
given number. -/
def numbered (n : Nat) : Text.Scanned CodeBlock → List Char
  | [] => []
  | .inl c :: rest => c :: numbered n rest
  | .inr _ :: rest => "<para>".toList ++ token n ++ "</para>".toList ++ numbered (n + 1) rest

theorem numbered_inl (n : Nat) (c : Char) (rest : Text.Scanned CodeBlock) :
    numbered n (.inl c :: rest) = c :: numbered n rest := rfl

theorem numbered_inr (n : Nat) (block : CodeBlock) (rest : Text.Scanned CodeBlock) :
    numbered n (.inr block :: rest) =
      "<para>".toList ++ token n ++ "</para>".toList ++ numbered (n + 1) rest := rfl

def paragraphMark : Pattern Unit := fun _ cs =>
  let empty := do
    let rest ← dropStart? "<para".toList cs
    some ((), ← emptyEnd? rest)
  empty.or (((dropStart? "</para>".toList cs).or (dropStart? "<para>".toList cs)).map ((), ·))

/-- The paragraphs that are not empty, each on one line, separated by blank lines. -/
def paragraphs (cs : List Char) : List Char :=
  let blocks := ((scan paragraphMark cs).split.map collapse).filter (!·.isEmpty)
  Text.joinWith ['\n', '\n'] blocks

/-- A reference without its kind. A kind with nothing behind it is the reference itself. -/
def withoutKind (reference : List Char) : List Char :=
  match reference with
  | kind :: ':' :: c :: rest => if kind.isAlpha then c :: rest else reference
  | _ => reference

def inlineCode (cs : List Char) : List Char := '`' :: cs ++ ['`']

def link (text target : List Char) : List Char := '[' :: text ++ [']', '('] ++ target ++ [')']

def textLink : Pattern (List Char) := fun _ cs => do
  let (reference, rest) ← tagged? "see" "cref" cs
  let (text, rest) ← content? "see" rest
  some (link text ("xref:".toList ++ withoutKind reference), rest)

def bareLink : Pattern (List Char) := fun _ cs => do
  let (reference, rest) ← tagged? "see" "cref" cs
  some ("<xref:".toList ++ withoutKind reference ++ ['>'], ← emptyEnd? rest)

def keyword : Pattern (List Char) := fun _ cs => do
  let (word, rest) ← tagged? "see" "langword" cs
  some (inlineCode word, ← emptyEnd? rest)

def webLink : Pattern (List Char) := fun _ cs => do
  let (address, rest) ← tagged? "see" "href" cs
  let (text, rest) ← content? "see" rest
  some (link text address, rest)

def parameterName : Pattern (List Char) := fun _ cs => do
  let (name, rest) ← (tagged? "paramref" "name" cs).or (tagged? "typeparamref" "name" cs)
  some (inlineCode name, ← emptyEnd? rest)

def codeSpan : Pattern (List Char) := fun _ cs => do
  let (text, rest) ← cutAt? "</c>".toList (← dropStart? "<c>".toList cs)
  some (inlineCode text, rest)

/-- Three or more newlines are one blank line. -/
def blankLines : Pattern (List Char) := fun _ cs =>
  if (cs.takeWhile (· == '\n')).length < 3 then none
  else some (['\n', '\n'], cs.dropWhile (· == '\n'))

def inline (cs : List Char) : List Char :=
  [textLink, bareLink, keyword, webLink, parameterName, codeSpan, blankLines].foldl
    (fun text pattern => replaceAll pattern text) cs

def tokenMark : Pattern Nat := fun _ cs => do
  let digits ← dropStart? ['\x00'] cs
  let rest ← dropStart? ['\x00'] (digits.dropWhile isDigit)
  if (digits.takeWhile isDigit).isEmpty then none
  else some (Text.decimal (digits.takeWhile isDigit), rest)

def restore? (fences : List (List Char)) : Text.Scanned Nat → Option (List Char)
  | [] => some []
  | .inl c :: rest => (restore? fences rest).map (c :: ·)
  | .inr n :: rest => do
    let fence ← fences[n]?
    (restore? fences rest).map (fence ++ ·)

def ofMarkup? (cs : List Char) : Option (List Char) :=
  let scanned := scan codeBlock cs
  let fences := scanned.found.map CodeBlock.fence
  restore? fences (scan tokenMark (trim (inline (paragraphs (numbered 0 scanned)))))

end DocMerge.Markdown

namespace DocMerge

/-- The markdown of a documentation text, unless the text names a code block that does not exist. -/
def markdown? (text : String) : Option String :=
  (Markdown.ofMarkup? text.toList).map String.ofList

end DocMerge

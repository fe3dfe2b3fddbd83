import DocMerge.Xml.Document
import DocMerge.Xml.Printer
import DocMerge.Xml.Style

/-!
# XML files

A file is its root together with what the tree does not tell: the text before the root, the blanks
behind it, a byte order mark, and how lines and empty elements end.
-/

namespace DocMerge.Xml

open Text (Pattern cutAt? dropStart?)

structure File where
  root : Element
  prolog : String := ""
  epilogue : String := ""
  marked : Bool := false
  newline : String := "\n"
  emptyTag : String := compactTag
  deriving Inhabited

inductive ReadError
  | missing (error : Files.FileError)
  | notUtf8
  | malformed
  deriving DecidableEq, Repr

def ReadError.name : ReadError → String
  | .missing error => error.name
  | .notUtf8 => "UnicodeDecodeError"
  | .malformed => "XMLSyntaxError"

def prologItem? (cs : List Char) : Option (List Char) :=
  match dropStart? ['<', '?'] cs with
  | some rest => (cutAt? ['?', '>'] rest).map (·.2)
  | none =>
    match dropStart? "<!--".toList cs with
    | some rest => (cutAt? "-->".toList rest).map (·.2)
    | none => do
      let rest ← dropStart? "<!DOCTYPE".toList cs
      let (_, rest) ← cutAt? ['>'] rest
      some rest

def behindProlog : Nat → List Char → List Char
  | 0, cs => cs
  | fuel + 1, cs =>
    match prologItem? (Text.trimStart cs) with
    | some rest => behindProlog fuel rest
    | none => Text.trimStart cs

/-- The text before the root. -/
def prologOf (cs : List Char) : List Char :=
  cs.take (cs.length - (behindProlog (cs.length + 1) cs).length)

def epilogueOf (cs : List Char) : List Char := (cs.reverse.takeWhile Text.isBlank).reverse

namespace File

/-- Reads a file. Its bytes must be UTF-8 whatever encoding it declares. -/
def ofBytes (content : ByteArray) : Except ReadError File :=
  match Files.textOf? content with
  | none => .error .notUtf8
  | some text =>
    let marked := text.toList.head? == some byteOrderMark
    let chars := if marked then text.toList.drop 1 else text.toList
    let content := if marked then content.extract 3 content.size else content
    match parseBytes? content (String.ofList chars) with
    | none => .error .malformed
    | some root =>
      .ok {
        root
        prolog := String.ofList (prologOf chars)
        epilogue := String.ofList (epilogueOf chars)
        marked
        newline := if (Text.cutAt? ['\r', '\n'] chars).isSome then "\r\n" else "\n"
        emptyTag := tagStyle (String.ofList chars) }

def read (store : Files.Store) (path : Files.Path) : Except ReadError File :=
  match store.read path with
  | .ok content => ofBytes content
  | .error e => .error (.missing e)

def toString (f : File) : String :=
  let body := restyle f.emptyTag (String.ofList f.root.toNode.print)
  let body := if f.newline == "\n" then body.toList
    else Text.replaceText ['\n'] f.newline.toList body.toList
  String.ofList ((if f.marked then [byteOrderMark] else []) ++ f.prolog.toList ++ body ++
    f.epilogue.toList)

end File

end DocMerge.Xml

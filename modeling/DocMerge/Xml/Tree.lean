import DocMerge.Xml.Namespace

/-!
# Trees from tokens

Tokens are put together from left to right. Elements that are still open wait on a stack, each with
the nodes that it has so far.
-/

namespace DocMerge.Xml

/-- An element that has not been closed yet, with its last child in front. -/
structure Unclosed where
  written : QName
  tag : Tag
  /-- The declarations in force inside. -/
  scope : Scope
  done : List Node := []

namespace Unclosed

def push (u : Unclosed) (n : Node) : Unclosed := { u with done := n :: u.done }

/-- Adds a character, which joins the text before it. -/
def pushChar (u : Unclosed) (c : Char) : Unclosed :=
  match u with
  | ⟨written, tag, scope, .text s :: rest⟩ => ⟨written, tag, scope, .text (s.push c) :: rest⟩
  | ⟨written, tag, scope, done⟩ => ⟨written, tag, scope, .text (String.singleton c) :: done⟩

/-- Adds a CDATA section, which joins a section right before it. -/
def pushSection (u : Unclosed) (s : String) : Unclosed :=
  match u with
  | ⟨written, tag, scope, .cdata before :: rest⟩ =>
    ⟨written, tag, scope, .cdata (before ++ s) :: rest⟩
  | ⟨written, tag, scope, done⟩ => ⟨written, tag, scope, .cdata s :: done⟩

def close (u : Unclosed) : Node := .element u.tag u.done.reverse

end Unclosed

def depthLimit : Nat := 257

def openElement? (stack : List Unclosed) (name : QName) (attributes : List RawAttribute) :
    Option Unclosed :=
  if stack.length < depthLimit then
    let outer := match stack with
      | [] => []
      | u :: _ => u.scope
    (Tag.ofRaw? outer name attributes).map (fun tag =>
      { written := name, tag, scope := tag.declarations ++ outer })
  else none

def assemble? : List Unclosed → List Token → Option (Node × List Token)
  | _, [] => none
  | [], .opening name attributes :: rest => do
    let u ← openElement? [] name attributes
    assemble? [u] rest
  | [], _ => none
  | u :: outer, token :: rest =>
    match token with
    | .char c | .escaped c => assemble? (u.pushChar c :: outer) rest
    | .cdata s => assemble? (u.pushSection s :: outer) rest
    | .comment s => assemble? (u.push (.comment s) :: outer) rest
    | .instruction target data => assemble? (u.push (.instruction target data) :: outer) rest
    | .reference name => assemble? (u.push (.reference name) :: outer) rest
    | .opening name attributes =>
      match openElement? (u :: outer) name attributes with
      | some inner => assemble? (inner :: u :: outer) rest
      | none => none
    | .closing name =>
      if name != u.written then none
      else
        match outer with
        | [] => some (u.close, rest)
        | parent :: outer => assemble? (parent.push u.close :: outer) rest

/-- What may follow the root: comments, instructions and blanks. -/
def Token.isMiscellaneous : Token → Bool
  | .char c => isSpace c
  | .comment _ | .instruction .. => true
  | _ => false

def isContent (tokens : List Token) : Bool :=
  match assemble? [] (.opening ⟨"", "content"⟩ [] :: tokens ++ [.closing ⟨"", "content"⟩]) with
  | some (_, []) => true
  | _ => false

/-- Whether the entity that a token refers to stands for content, as do those that its text refers
to. An entity lies in as many others as there are at most; one that lies in itself is not sound. -/
def Entities.isSound (e : Entities) : Nat → Token → Bool
  | 0, .reference _ => false
  | depth + 1, .reference name =>
    match e.find? name with
    | none | some .external => true
    | some .unparsed => false
    | some (.text cs) =>
      match tokens? e cs with
      | none => false
      | some tokens => isContent tokens && tokens.all (e.isSound depth)
  | _, _ => true

end DocMerge.Xml

import DocMerge.Text.Blank
import DocMerge.Text.Search

/-!
# How a file writes its markup

A file keeps its own way of closing empty elements. Sections, comments and instructions are opaque:
what looks like a tag in them is none.
-/

namespace DocMerge.Xml

open Text (Pattern cutAt? dropStart? scan)

def enclosed (start stop : String) : Pattern (List Char) := fun _ cs => do
  let rest ← dropStart? start.toList cs
  let (body, rest) ← cutAt? stop.toList rest
  some (start.toList ++ body ++ stop.toList, rest)

def opaquePart : Pattern (List Char) := fun before cs =>
  ((enclosed "<![CDATA[" "]]>" before cs).or (enclosed "<!--" "-->" before cs)).or
    (enclosed "<?" "?>" before cs)

def compactEnd : Pattern Unit := fun before cs => do
  let c ← before
  if Text.isBlank c || c == '/' then none
  else some ((), ← dropStart? ['/', '>'] cs)

def compactTag : String := "/>"

def spacedTag : String := " />"

/-- Writes the compact ends of empty elements in another way. -/
def restyleMarkup (style : String) (cs : List Char) : List Char :=
  (scan compactEnd cs).write (fun _ => style.toList)

def weave : List (List Char) → List (List Char) → List Char
  | part :: parts, sealed :: more => part ++ sealed ++ weave parts more
  | parts, _ => parts.flatten

def restyle (style text : String) : String :=
  if style == compactTag then text
  else
    let scanned := scan opaquePart text.toList
    String.ofList (weave (scanned.split.map (restyleMarkup style)) scanned.found)

/-- The way in which most empty elements of a text are closed; the compact one, if there are as many
of each. -/
def tagStyle (text : String) : String :=
  let parts := (scan opaquePart text.toList).split
  let spaced := parts.foldl (fun total part => total + Text.countOf spacedTag.toList part) 0
  let compact := parts.foldl (fun total part => total + (scan compactEnd part).found.length) 0
  if compact < spaced then spacedTag else compactTag

end DocMerge.Xml

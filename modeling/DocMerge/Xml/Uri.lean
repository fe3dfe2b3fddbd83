import DocMerge.Text.Digits
import DocMerge.Text.Search

/-!
# URI references

The names of namespaces are URI references, absolute or relative. Only whether a text is one matters
here, not its parts.
-/

namespace DocMerge.Xml.Uri

def isUnreserved (c : Char) : Bool := c.isAlphanum || "-._~".toList.contains c

def isSubDelimiter (c : Char) : Bool := "!$&'()*+,;=".toList.contains c

/-- Whether the text consists of characters of a class and of bytes written as `%` and two
digits. -/
def consistsOf (isPlain : Char → Bool) : List Char → Bool
  | [] => true
  | '%' :: a :: b :: rest =>
    (Text.hexValue? a).isSome && (Text.hexValue? b).isSome && consistsOf isPlain rest
  | c :: rest => isPlain c && consistsOf isPlain rest

def isNamePart (c : Char) : Bool := isUnreserved c || isSubDelimiter c

def isPathPart (c : Char) : Bool := isNamePart c || c == ':' || c == '@'

def isPath (cs : List Char) : Bool := consistsOf (fun c => isPathPart c || c == '/') cs

def isQuery (cs : List Char) : Bool := consistsOf (fun c => isPathPart c || c == '/' || c == '?') cs

def isFragment (cs : List Char) : Bool :=
  consistsOf (fun c => isPathPart c || c == '/' || c == '?' || c == '[' || c == ']') cs

def before (mark : Char) (cs : List Char) : List Char × Option (List Char) :=
  match Text.cutAt? [mark] cs with
  | some (head, tail) => (head, some tail)
  | none => (cs, none)

def isDigits (cs : List Char) : Bool := !cs.isEmpty && cs.all Char.isDigit

def isHost (cs : List Char) : Bool :=
  match cs with
  | '[' :: rest =>
    match before ']' rest with
    | (_, some []) => true
    | (_, some (':' :: number)) => isDigits number
    | _ => false
  | _ =>
    match before ':' cs with
    | (host, none) => consistsOf isNamePart host
    | (host, some number) => consistsOf isNamePart host && isDigits number

def isAuthority (cs : List Char) : Bool :=
  match before '@' cs with
  | (user, some host) => consistsOf (fun c => isNamePart c || c == ':') user && isHost host
  | (host, none) => isHost host

def isHierarchy (cs : List Char) : Bool :=
  match cs with
  | '/' :: '/' :: rest =>
    isAuthority (rest.takeWhile (· != '/')) && isPath (rest.dropWhile (· != '/'))
  | _ => isPath cs

def isScheme (cs : List Char) : Bool :=
  (cs.head?.map Char.isAlpha).getD false && cs.all
    (fun c => c.isAlphanum || "+-.".toList.contains c)

def isAbsolute (cs : List Char) : Bool :=
  match before ':' cs with
  | (scheme, some rest) => isScheme scheme && isHierarchy rest
  | (_, none) => false

/-- The first step of a relative path has no colon. -/
def isRelative (cs : List Char) : Bool :=
  isHierarchy cs && (cs.head? == some '/' || !(cs.takeWhile (· != '/')).contains ':')

def isReference (cs : List Char) : Bool :=
  let (rest, fragment) := before '#' cs
  let (main, query) := before '?' rest
  (isAbsolute main || isRelative main) && query.all isQuery && fragment.all isFragment

end DocMerge.Xml.Uri

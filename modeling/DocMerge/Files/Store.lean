import DocMerge.Files.Path

/-!
# File stores

A tree of directories and files, and the writes that it refuses. Places are given by the names on
the way from the root, which is always a directory.
-/

namespace DocMerge.Files

abbrev Place := List String

inductive Item
  | file (content : ByteArray)
  | directory

inductive FileError
  | notFound
  | isDirectory
  | notDirectory
  | exists
  | refused
  deriving DecidableEq, Repr

def FileError.text : FileError → String
  | .notFound => "No such file or directory"
  | .isDirectory => "Is a directory"
  | .notDirectory => "Not a directory"
  | .exists => "File exists"
  | .refused => "read-only"

def FileError.name : FileError → String
  | .notFound => "FileNotFoundError"
  | .isDirectory => "IsADirectoryError"
  | .notDirectory => "NotADirectoryError"
  | .exists => "FileExistsError"
  | .refused => "PermissionError"

structure Store where
  items : List (Place × Item) := []
  /-- Places where nothing may be written. -/
  readOnly : List Place := []
  deriving Inhabited

namespace Store

def item? (s : Store) (place : Place) : Option Item :=
  if place.isEmpty then some .directory else s.items.lookup place

def isDirectoryAt (s : Store) (place : Place) : Bool :=
  match s.item? place with
  | some .directory => true
  | _ => false

def put : List (Place × Item) → Place → Item → List (Place × Item)
  | [], place, item => [(place, item)]
  | (place', item') :: rest, place, item =>
    if place' == place then (place, item) :: rest else (place', item') :: put rest place item

/-- Adds a directory together with those above it; what is there stays. -/
def addDirectory (s : Store) (place : Place) : Store :=
  (List.range place.length).foldl (fun s n =>
    let above := place.take (n + 1)
    if (s.item? above).isSome then s else { s with items := s.items ++ [(above, .directory)] }) s

def addFile (s : Store) (place : Place) (content : ByteArray) : Store :=
  let s := s.addDirectory place.dropLast
  { s with items := put s.items place (.file content) }

/-- Follows the parts of a path from a directory. Everything on the way must be a directory. -/
def locateFrom (s : Store) : Place → List String → Except FileError Place
  | place, [] => .ok place
  | place, part :: rest =>
    match s.item? place with
    | none => .error .notFound
    | some (.file _) => .error .notDirectory
    | some .directory => s.locateFrom (if part = ".." then place.dropLast else place ++ [part]) rest

def locate (s : Store) (p : Path) : Except FileError Place := s.locateFrom [] p.parts

def itemAt? (s : Store) (p : Path) : Option Item :=
  match s.locate p with
  | .ok place => s.item? place
  | .error _ => none

def isDirectory (s : Store) (p : Path) : Bool :=
  match s.itemAt? p with
  | some .directory => true
  | _ => false

def isFile (s : Store) (p : Path) : Bool :=
  match s.itemAt? p with
  | some (.file _) => true
  | _ => false

def longestName : Nat := 255

def longestPath : Nat := 4095

/-- Whether a name that is too long is looked up on the way. What follows a name that is not there,
or is no directory, is not looked up. -/
def reachesLongName (s : Store) : Place → List String → Bool
  | _, [] => false
  | place, part :: rest =>
    s.isDirectoryAt place &&
      (longestName < part.utf8ByteSize ||
        s.reachesLongName (if part = ".." then place.dropLast else place ++ [part]) rest)

/-- Whether one cannot even ask what lies at a path, because something in it is too long. What has a
NUL in its name is never there. -/
def isOverlong (s : Store) (p : Path) : Bool :=
  !p.parts.any (·.contains '\x00') &&
    (longestPath < p.toString.utf8ByteSize || s.reachesLongName [] p.parts)

def «exists» (s : Store) (p : Path) : Bool := (s.itemAt? p).isSome

def read (s : Store) (p : Path) : Except FileError ByteArray := do
  match s.item? (← s.locate p) with
  | some (.file content) => .ok content
  | some .directory => .error .isDirectory
  | none => .error .notFound

def makeDirectoriesFrom (s : Store) : Place → List String → Except FileError (Store × Place)
  | place, [] => .ok (s, place)
  | place, part :: rest =>
    if part = ".." then s.makeDirectoriesFrom place.dropLast rest
    else
      match s.item? (place ++ [part]) with
      | some .directory => s.makeDirectoriesFrom (place ++ [part]) rest
      | some (.file _) => .error (if rest.isEmpty then .exists else .notDirectory)
      | none => (s.addDirectory (place ++ [part])).makeDirectoriesFrom (place ++ [part]) rest

def write (s : Store) (p : Path) (content : ByteArray) : Except FileError Store := do
  if s.readOnly.contains (Path.walk [] p.parts) then throw .refused
  let (made, place) ← s.makeDirectoriesFrom [] p.parts.dropLast
  let place ← made.locateFrom place p.parts.getLast?.toList
  match made.item? place with
  | some .directory => throw .isDirectory
  | _ => pure { made with items := put made.items place (.file content) }

def below (s : Store) (directory : Place) : List (Place × Item) :=
  let inside := s.items.filterMap (fun (place, item) =>
    if directory.length < place.length && place.take directory.length == directory then
      some (place.drop directory.length, item)
    else none)
  inside.mergeSort (fun a b => partsLE a.1 b.1)

/-- Whether directories below a directory are deeper inside each other than a limit. -/
def isDeeper (s : Store) (p : Path) (limit : Nat) : Bool :=
  match s.locate p with
  | .error _ => false
  | .ok place => (s.below place).any (fun (names, item) =>
      match item with
      | .directory => limit < names.length
      | .file _ => false)

/-- Everything below a directory whose name ends as given, as paths seen from that directory's path,
in the order of their parts. A directory that does not exist holds nothing. -/
def search (s : Store) (directory : Path) (ending : String) : List Path :=
  match s.locate directory with
  | .error _ => []
  | .ok place =>
    if s.isDirectoryAt place then
      ((s.below place).filter (fun entry =>
        Text.hasEnd ending.toList (entry.1.getLast?.getD "").toList)).map
          (fun entry => ⟨directory.absolute, directory.parts ++ entry.1⟩)
    else []

end Store

def textOf? (content : ByteArray) : Option String := String.fromUTF8? content

def plainLines : List Char → List Char
  | '\r' :: '\n' :: rest => '\n' :: plainLines rest
  | '\r' :: rest => '\n' :: plainLines rest
  | c :: rest => c :: plainLines rest
  | [] => []

end DocMerge.Files

import DocMerge.Files.Store

/-!
# Batches of writes

Writes are collected and then made one after another. A write that fails does not keep the others
from being made.
-/

namespace DocMerge.Files

structure Write where
  path : Path
  content : String
  deriving DecidableEq, Repr

def Write.describe (w : Write) : String := "[WRITE] " ++ w.path.toString

structure Committed where
  written : List Path := []
  failed : List (Path × FileError) := []

def Committed.success (c : Committed) : Bool := c.failed.isEmpty

structure Batch where
  root : Path
  pending : List Write := []

namespace Batch

def add (b : Batch) (path : Path) (content : String) : Batch :=
  { b with pending := b.pending ++ [⟨path, content⟩] }

def preview (b : Batch) : List String := b.pending.map Write.describe

def commitAll (root : Path) : Store → List Write → Store × Committed
  | s, [] => (s, {})
  | s, w :: rest =>
    match s.write (root.join w.path) w.content.toUTF8 with
    | .ok s =>
      let (s, c) := commitAll root s rest
      (s, { c with written := w.path :: c.written })
    | .error e =>
      let (s, c) := commitAll root s rest
      (s, { c with failed := (w.path, e) :: c.failed })

def commit (b : Batch) (s : Store) : Batch × Store × Committed :=
  let (s, c) := commitAll b.root s b.pending
  ({ b with pending := [] }, s, c)

end Batch

end DocMerge.Files

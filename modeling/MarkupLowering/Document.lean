import MarkupLowering.Digest.Sha256
import MarkupLowering.Position

/-!
# MarkupLowering.Document

**Debug documents**: one for each path that debug information mentions, with a digest of the
file's contents. The contents are digested once, when the path is first mentioned; later contents
under the same path are not looked at.
-/

namespace MarkupLowering

/-- A file that debug information refers to. -/
structure Document where
  path : String
  /-- The SHA-256 digest of the contents. -/
  digest : List UInt8
  deriving DecidableEq, Inhabited

namespace Document

/-- The language identifier of every document. -/
def language : String := "9a37fc74-96b5-4dbc-8b8a-c4e603735a63"

/-- The language vendor identifier of every document. -/
def vendor : String := "3c631bf9-0cbe-4aab-a24a-5e417734441c"

/-- The document of a file. -/
def ofFile (file : SourceFile) : Document := ⟨file.path, Digest.Sha256.digest file.contents⟩

end Document

/-- The documents of a module, in the order of their first mention. -/
structure DocumentCache where
  documents : List Document := []
  /-- How many digests were computed. -/
  digests : Nat := 0
  deriving Inhabited

namespace DocumentCache

def empty : DocumentCache := {}

/-- The document of a path. -/
def find? (c : DocumentCache) (path : String) : Option Document :=
  c.documents.find? fun d => d.path == path

/-- The document of a file's path, which is made when there is none. -/
def findOrCreate (c : DocumentCache) (file : SourceFile) : Document × DocumentCache :=
  match c.find? file.path with
  | some d => (d, c)
  | none =>
    let d := Document.ofFile file
    (d, { documents := c.documents ++ [d], digests := c.digests + 1 })

/-- The number of documents. -/
def size (c : DocumentCache) : Nat := c.documents.length

/-- All documents, ordered by path. Paths compare code point by code point, which is also the
order of their UTF-8 bytes. -/
def snapshot (c : DocumentCache) : List Document :=
  c.documents.mergeSort fun a b => decide (a.path ≤ b.path)

end DocumentCache

end MarkupLowering

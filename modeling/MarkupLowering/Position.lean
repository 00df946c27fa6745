/-!
# MarkupLowering.Position

Positions in markup files, and the files themselves.
-/

namespace MarkupLowering

/-- A position in a markup file; lines and columns count from one. -/
structure Position where
  line : Nat
  column : Nat
  deriving DecidableEq, Inhabited

namespace Position

/-- The position of nodes that no text stands behind. -/
def synthetic : Position := ⟨0, 0⟩

/-- Whether no text stands behind the position. Its column is of no account. -/
def isSynthetic (p : Position) : Bool := p.line == 0

/-- Line and column, divided by a colon. -/
def render (p : Position) : String := toString p.line ++ ":" ++ toString p.column

end Position

/-- A markup file: the path that debug documents name, and the bytes that they digest. -/
structure SourceFile where
  path : String
  contents : ByteArray
  deriving Inhabited

end MarkupLowering

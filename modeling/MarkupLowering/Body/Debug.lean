import MarkupLowering.Document

/-!
# MarkupLowering.Body.Debug

The **debug information** of a method body: which instruction begins which stretch of markup.
-/

namespace MarkupLowering

/-- Instruction `instruction` begins a stretch of a document. -/
structure SequencePoint where
  instruction : Nat
  document : Document
  startLine : Nat
  startColumn : Nat
  endLine : Nat
  endColumn : Nat
  deriving DecidableEq, Inhabited

/-- The point of a position; it covers one column. -/
def SequencePoint.ofPosition (instruction : Nat) (document : Document) (p : Position) :
    SequencePoint :=
  ⟨instruction, document, p.line, p.column, p.line, p.column + 1⟩

/-- The outer scope of a method. -/
structure DebugScope where
  start : Nat
  /-- The end of the scope; `none` is the end of the body. -/
  stop : Option Nat
  importScope : Nat
  deriving DecidableEq, Inhabited

/-- A scope from an instruction to the end of the body, in the default import scope. -/
def DebugScope.openAt (start : Nat) : DebugScope := ⟨start, none, 0⟩

/-- The debug information of a body. -/
structure DebugInfo where
  scope : Option DebugScope := none
  points : List SequencePoint := []
  deriving DecidableEq, Inhabited

namespace DebugInfo

def isEmpty (d : DebugInfo) : Bool := d.points.isEmpty

/-- Records a point; the first one recorded opens the scope. -/
def addPoint (d : DebugInfo) (p : SequencePoint) : DebugInfo :=
  { scope := d.scope.or (some (.openAt p.instruction))
    points := d.points ++ [p] }

@[simp] theorem points_addPoint (d : DebugInfo) (p : SequencePoint) :
    (d.addPoint p).points = d.points ++ [p] := rfl

@[simp] theorem scope_addPoint (d : DebugInfo) (p : SequencePoint) :
    (d.addPoint p).scope = d.scope.or (some (.openAt p.instruction)) := rfl

/-- The points in the order of their instructions; points of one instruction keep theirs. -/
def sorted (d : DebugInfo) : DebugInfo :=
  { d with points := d.points.mergeSort fun a b => decide (a.instruction ≤ b.instruction) }

end DebugInfo

end MarkupLowering

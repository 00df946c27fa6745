import MarkupLowering.Identity

/-!
# MarkupLowering.Import.Token

**Tokens**: how a module under construction refers to its definitions and to what it imports.
-/

namespace MarkupLowering

/-- A reference to a row of one of a module's tables. -/
inductive Token
  /-- A type of this module. -/
  | typeDef (row : Nat)
  /-- A type from elsewhere. -/
  | typeRef (row : Nat)
  /-- A generic instance. -/
  | typeSpec (row : Nat)
  /-- A field of this module. -/
  | fieldDef (row : Nat)
  /-- A method or constructor of this module. -/
  | methodDef (row : Nat)
  /-- A field, method or constructor from elsewhere. -/
  | memberRef (row : Nat)
  /-- A string literal. -/
  | string (row : Nat)
  deriving DecidableEq, Inhabited

namespace Token

/-- The row that a token refers to. -/
def row : Token → Nat
  | .typeDef row | .typeRef row | .typeSpec row | .fieldDef row | .methodDef row
  | .memberRef row | .string row => row

/-- The name of the table that a token refers to. -/
def table : Token → String
  | .typeDef _ => "typedef"
  | .typeRef _ => "typeref"
  | .typeSpec _ => "typespec"
  | .fieldDef _ => "fielddef"
  | .methodDef _ => "methoddef"
  | .memberRef _ => "memberref"
  | .string _ => "string"

/-- Table and row. -/
def render (t : Token) : String := t.table ++ "#" ++ toString t.row

end Token

end MarkupLowering

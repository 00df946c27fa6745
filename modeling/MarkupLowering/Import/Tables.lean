import Std.Data.HashMap
import MarkupLowering.Import.Token
import MarkupLowering.Member

/-!
# MarkupLowering.Import.Tables

The **import tables** of a module: what its code refers to and does not define.

Importing an entity returns its token. A definition of the importing module is its own token;
anything else is looked up by key and, when it is new, appended to its table.

* Types and members are looked up by identity, strings by their text.
* A generic instance imports its definition and then its arguments before it takes a row, and a
  member its declaring type, the type of its value and its parameter types. Rows therefore refer
  to rows that were there before.
* The index keeps the latest token of a key. A key can get a second token only while an instance
  is being imported whose definition has the instance's identity.
-/

namespace MarkupLowering

/-! ### Rows -/

/-- A type defined elsewhere. -/
structure TypeRefRow where
  /-- The assembly, or the other module. -/
  scope : String
  fullName : String
  identity : Identity
  deriving DecidableEq, Inhabited

/-- A generic instance, in tokens. -/
structure TypeSpecRow where
  definition : Token
  arguments : List Token
  identity : Identity
  deriving DecidableEq, Inhabited

/-- What an imported member is. -/
inductive MemberKind
  | field
  | method
  | constructor
  deriving DecidableEq, Inhabited

/-- The name of a kind of member. -/
def MemberKind.name : MemberKind → String
  | .field => "Field"
  | .method => "Method"
  | .constructor => "Constructor"

/-- A member defined elsewhere, with its signature in tokens. -/
structure MemberRefRow where
  parent : Token
  name : String
  kind : MemberKind
  /-- The field's type or the method's return type; constructors have none. -/
  valueType : Option Token
  params : List Token
  identity : Identity
  deriving DecidableEq, Inhabited

/-- What entities are looked up by. -/
inductive ImportKey
  | type (identity : Identity)
  | member (identity : Identity)
  | string (text : String)
  deriving DecidableEq, Hashable

/-- The tables of imported entities. -/
structure ImportTables where
  typeRefs : Array TypeRefRow := #[]
  typeSpecs : Array TypeSpecRow := #[]
  memberRefs : Array MemberRefRow := #[]
  strings : Array String := #[]
  index : Std.HashMap ImportKey Token := ∅
  deriving Inhabited

/-- A step that may import. -/
abbrev ImportM := StateM ImportTables

namespace ImportTables

def empty : ImportTables := {}

/-- The token that a key has. -/
def find? (t : ImportTables) (key : ImportKey) : Option Token := t.index[key]?

/-- Gives a key its token. -/
def bind (key : ImportKey) (token : Token) (t : ImportTables) : ImportTables :=
  { t with index := t.index.insert key token }

theorem find?_bind (t : ImportTables) (key : ImportKey) (token : Token) (k : ImportKey) :
    (bind key token t).find? k = if key = k then some token else t.find? k := by
  simp [find?, bind, Std.HashMap.getElem?_insert]

def addTypeRef (row : TypeRefRow) : ImportM Token := fun t =>
  let token := Token.typeRef t.typeRefs.size
  (token, bind (.type row.identity) token { t with typeRefs := t.typeRefs.push row })

def addTypeSpec (row : TypeSpecRow) : ImportM Token := fun t =>
  let token := Token.typeSpec t.typeSpecs.size
  (token, bind (.type row.identity) token { t with typeSpecs := t.typeSpecs.push row })

def addMemberRef (row : MemberRefRow) : ImportM Token := fun t =>
  let token := Token.memberRef t.memberRefs.size
  (token, bind (.member row.identity) token { t with memberRefs := t.memberRefs.push row })

def addString (text : String) : ImportM Token := fun t =>
  let token := Token.string t.strings.size
  (token, bind (.string text) token { t with strings := t.strings.push text })

/-- The token of a key, made by `add` when there is none. -/
def findOrAdd (key : ImportKey) (add : ImportM Token) : ImportM Token := fun t =>
  match t.find? key with
  | some token => (token, t)
  | none => add t

/-! ### Importing -/

/-- The row of a type that module `unit` defines itself. An instance is no definition, wherever
its generic type is defined. -/
def ownRow? (unit : Nat) (t : TypeRef) : Option Nat :=
  match t, t.origin with
  | .named .., .construction owner row => if owner = unit then some row else none
  | _, _ => none

/-- The name of the place that a type comes from. -/
def scopeName : Origin → String
  | .assembly name => name
  | .construction unit _ => "module#" ++ toString unit

mutual

/-- The token of a type, as module `unit` refers to it. -/
def importType (unit : Nat) : TypeRef → ImportM Token
  | .named name kind origin isRoot base declaring id =>
    let t := TypeRef.named name kind origin isRoot base declaring id
    match ownRow? unit t with
    | some row => pure (.typeDef row)
    | none => findOrAdd (.type t.identity) <|
        addTypeRef ⟨scopeName origin, name.text, t.identity⟩
  | .generic definition arguments id =>
    let identity := (TypeRef.generic definition arguments id).identity
    findOrAdd (.type identity) do
      let definition ← importType unit definition
      let arguments ← importTypes unit arguments
      addTypeSpec ⟨definition, arguments, identity⟩

/-- The tokens of a list of types, imported in order. -/
def importTypes (unit : Nat) : List TypeRef → ImportM (List Token)
  | [] => pure []
  | t :: ts => do
    let token ← importType unit t
    let tokens ← importTypes unit ts
    pure (token :: tokens)

end

/-- The token of the value type of a member, if it has one. -/
def importType? (unit : Nat) : Option TypeRef → ImportM (Option Token)
  | none => pure none
  | some t => some <$> importType unit t

/-- The token of a member from elsewhere. -/
def importMember (unit : Nat) (declaring : TypeRef) (name : String) (kind : MemberKind)
    (valueType : Option TypeRef) (params : List TypeRef) (identity : Identity) : ImportM Token :=
  findOrAdd (.member identity) do
    let parent ← importType unit declaring
    let valueType ← importType? unit valueType
    let params ← importTypes unit params
    addMemberRef ⟨parent, name, kind, valueType, params, identity⟩

/-- The row of a definition that belongs to module `unit`. -/
def rowIn? (unit : Nat) (definition : Option Definition) : Option Nat :=
  match definition with
  | some d => if d.unit = unit then some d.row else none
  | none => none

/-- The token of a field, as module `unit` refers to it. -/
def importField (unit : Nat) (f : FieldRef) : ImportM Token :=
  match rowIn? unit f.definition with
  | some row => pure (.fieldDef row)
  | none => importMember unit f.declaring f.name.text .field (some f.type) [] f.identity

/-- The token of a method, as module `unit` refers to it. -/
def importMethod (unit : Nat) (m : MethodRef) : ImportM Token :=
  match rowIn? unit m.definition with
  | some row => pure (.methodDef row)
  | none => importMember unit m.declaring m.name.text .method (some m.returns) m.params m.identity

/-- The token of a constructor, as module `unit` refers to it. -/
def importConstructor (unit : Nat) (c : ConstructorRef) : ImportM Token :=
  match rowIn? unit c.definition with
  | some row => pure (.methodDef row)
  | none => importMember unit c.declaring c.name .constructor none c.params c.identity

/-- The token of a string literal. -/
def internString (text : String) : ImportM Token := findOrAdd (.string text) (addString text)

/-- The text of a string token. -/
def string? (t : ImportTables) : Token → Option String
  | .string row => t.strings[row]?
  | _ => none

end ImportTables

end MarkupLowering

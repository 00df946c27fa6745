import MarkupLowering.Import.Tables

/-!
# MarkupLowering.Proofs.Import.Tables

What holds of **import tables at every moment**.

* `Keyed`: a key leads to a row that was made for it, in the table of the right kind. So tokens
  of different keys differ.
* `Extends`: importing only adds. Rows stay where they are, and a key keeps its token.

Importing a generic instance may bind the key of the instance twice, first for its definition and
then for itself. Both happen within one import that found the key unbound, so what was bound
before is not touched. `Makes` states this about the steps in between: they are seen from the
tables in which the key was still unbound.
-/

namespace MarkupLowering

namespace ImportTables

/-! ### Keys and rows -/

/-- The row behind a token was made for the key. -/
inductive RowOf (t : ImportTables) : ImportKey → Token → Prop
  | typeRef {k : Nat} {row : TypeRefRow} : t.typeRefs[k]? = some row →
      RowOf t (.type row.identity) (.typeRef k)
  | typeSpec {k : Nat} {row : TypeSpecRow} : t.typeSpecs[k]? = some row →
      RowOf t (.type row.identity) (.typeSpec k)
  | memberRef {k : Nat} {row : MemberRefRow} : t.memberRefs[k]? = some row →
      RowOf t (.member row.identity) (.memberRef k)
  | string {k : Nat} {text : String} : t.strings[k]? = some text →
      RowOf t (.string text) (.string k)

theorem RowOf.type_inv {t : ImportTables} {identity : Identity} {token : Token}
    (h : t.RowOf (.type identity) token) :
    (∃ k row, token = .typeRef k ∧ t.typeRefs[k]? = some row ∧ row.identity = identity) ∨
      ∃ k row, token = .typeSpec k ∧ t.typeSpecs[k]? = some row ∧ row.identity = identity := by
  generalize hkey : ImportKey.type identity = key at h
  cases h with
  | typeRef hk =>
    cases hkey
    exact Or.inl ⟨_, _, rfl, hk, rfl⟩
  | typeSpec hk =>
    cases hkey
    exact Or.inr ⟨_, _, rfl, hk, rfl⟩
  | memberRef hk => cases hkey
  | string hk => cases hkey

theorem RowOf.member_inv {t : ImportTables} {identity : Identity} {token : Token}
    (h : t.RowOf (.member identity) token) :
    ∃ k row, token = .memberRef k ∧ t.memberRefs[k]? = some row ∧ row.identity = identity := by
  generalize hkey : ImportKey.member identity = key at h
  cases h with
  | memberRef hk =>
    cases hkey
    exact ⟨_, _, rfl, hk, rfl⟩
  | _ => cases hkey

/-- A row was made for one key. -/
theorem RowOf.unique {t : ImportTables} {key key' : ImportKey} {token : Token}
    (h : t.RowOf key token) (h' : t.RowOf key' token) : key = key' := by
  cases h <;> cases h' <;> rename_i hk _ hk' <;> rw [Option.some.inj (hk.symm.trans hk')]

/-- Every key leads to a row that was made for it. -/
def Keyed (t : ImportTables) : Prop := ∀ key token, t.find? key = some token → t.RowOf key token

theorem keyed_empty : Keyed empty := by
  intro key token h
  simp [find?, empty] at h

/-! ### Tables that grow -/

/-- Rows stay where they are. -/
structure KeepsRows (t t' : ImportTables) : Prop where
  typeRefs : ∀ (k : Nat) (row : TypeRefRow), t.typeRefs[k]? = some row → t'.typeRefs[k]? = some row
  typeSpecs : ∀ (k : Nat) (row : TypeSpecRow),
    t.typeSpecs[k]? = some row → t'.typeSpecs[k]? = some row
  memberRefs : ∀ (k : Nat) (row : MemberRefRow),
    t.memberRefs[k]? = some row → t'.memberRefs[k]? = some row
  strings : ∀ (k : Nat) (text : String), t.strings[k]? = some text → t'.strings[k]? = some text

/-- Rows stay where they are, and keys keep their tokens. -/
structure Extends (t t' : ImportTables) : Prop extends KeepsRows t t' where
  find? : ∀ key token, t.find? key = some token → t'.find? key = some token

theorem KeepsRows.refl (t : ImportTables) : KeepsRows t t :=
  ⟨fun _ _ h => h, fun _ _ h => h, fun _ _ h => h, fun _ _ h => h⟩

theorem KeepsRows.trans {t t₁ t₂ : ImportTables} (h₁ : KeepsRows t t₁) (h₂ : KeepsRows t₁ t₂) :
    KeepsRows t t₂ where
  typeRefs k row h := h₂.typeRefs k row (h₁.typeRefs k row h)
  typeSpecs k row h := h₂.typeSpecs k row (h₁.typeSpecs k row h)
  memberRefs k row h := h₂.memberRefs k row (h₁.memberRefs k row h)
  strings k text h := h₂.strings k text (h₁.strings k text h)

theorem Extends.refl (t : ImportTables) : Extends t t := ⟨.refl t, fun _ _ h => h⟩

theorem Extends.trans {t t₁ t₂ : ImportTables} (h₁ : Extends t t₁) (h₂ : Extends t₁ t₂) :
    Extends t t₂ where
  toKeepsRows := h₁.toKeepsRows.trans h₂.toKeepsRows
  find? key token h := h₂.find? key token (h₁.find? key token h)

theorem RowOf.mono {t t' : ImportTables} {key : ImportKey} {token : Token} (h : t.RowOf key token)
    (hrows : KeepsRows t t') : t'.RowOf key token := by
  cases h with
  | typeRef hk => exact .typeRef (hrows.typeRefs _ _ hk)
  | typeSpec hk => exact .typeSpec (hrows.typeSpecs _ _ hk)
  | memberRef hk => exact .memberRef (hrows.memberRefs _ _ hk)
  | string hk => exact .string (hrows.strings _ _ hk)

theorem getElem?_push_of_some {α : Type} {xs : Array α} {k : Nat} {a b : α} (h : xs[k]? = some a) :
    (xs.push b)[k]? = some a := by
  have hlt := (Array.getElem?_eq_some_iff.mp h).1
  rw [Array.getElem?_push, if_neg (Nat.ne_of_lt hlt), h]

/-! ### Steps that append a row -/

/-- The step appends a row for a key and binds the key to it. -/
structure Adds (key : ImportKey) (add : ImportM Token) : Prop where
  rows : ∀ t, KeepsRows t (add t).2
  row : ∀ t, RowOf (add t).2 key (add t).1
  find? : ∀ t k, (add t).2.find? k = if key = k then some (add t).1 else t.find? k

theorem adds_typeRef (row : TypeRefRow) : Adds (.type row.identity) (addTypeRef row) where
  rows t := { KeepsRows.refl t with typeRefs := fun _ _ h => getElem?_push_of_some h }
  row _ := .typeRef Array.getElem?_push_size
  find? _ k := find?_bind _ _ _ k

theorem adds_typeSpec (row : TypeSpecRow) : Adds (.type row.identity) (addTypeSpec row) where
  rows t := { KeepsRows.refl t with typeSpecs := fun _ _ h => getElem?_push_of_some h }
  row _ := .typeSpec Array.getElem?_push_size
  find? _ k := find?_bind _ _ _ k

theorem adds_memberRef (row : MemberRefRow) : Adds (.member row.identity) (addMemberRef row) where
  rows t := { KeepsRows.refl t with memberRefs := fun _ _ h => getElem?_push_of_some h }
  row _ := .memberRef Array.getElem?_push_size
  find? _ k := find?_bind _ _ _ k

theorem adds_string (text : String) : Adds (.string text) (addString text) where
  rows t := { KeepsRows.refl t with strings := fun _ _ h => getElem?_push_of_some h }
  row _ := .string Array.getElem?_push_size
  find? _ k := find?_bind _ _ _ k

/-! ### Steps that import -/

variable {α β : Type}

/-- The step keeps the tables in order and only adds to them. -/
def Grows (step : ImportM α) : Prop := ∀ t, Keyed t → Keyed (step t).2 ∧ Extends t (step t).2

theorem Grows.pure (a : α) : Grows (Pure.pure a : ImportM α) := fun t h => ⟨h, .refl t⟩

theorem Grows.bind {step : ImportM α} {next : α → ImportM β} (hstep : Grows step)
    (hnext : ∀ a, Grows (next a)) : Grows (step >>= next) := by
  intro t ht
  obtain ⟨hkeyed, hext⟩ := hstep t ht
  obtain ⟨hkeyed', hext'⟩ := hnext (step t).1 (step t).2 hkeyed
  exact ⟨hkeyed', hext.trans hext'⟩

theorem Grows.map {step : ImportM α} (hstep : Grows step) (f : α → β) : Grows (f <$> step) :=
  fun t ht => hstep t ht

/-- The step ends with a token for the key. It only adds to the tables `t₀` in which the key was
unbound, even if the key got bound since then. -/
def Makes (key : ImportKey) (step : ImportM Token) : Prop :=
  ∀ t₀ t, t₀.find? key = none → Extends t₀ t → Keyed t →
    Keyed (step t).2 ∧ Extends t₀ (step t).2 ∧ (step t).2.find? key = some (step t).1

theorem Adds.keyed {key : ImportKey} {add : ImportM Token} (h : Adds key add) {t : ImportTables}
    (ht : Keyed t) : Keyed (add t).2 := by
  intro k token hk
  rw [h.find?] at hk
  split at hk
  · rename_i hkey
    cases hk
    rw [← hkey]
    exact h.row t
  · exact (ht k token hk).mono (h.rows t)

theorem Adds.makes {key : ImportKey} {add : ImportM Token} (h : Adds key add) : Makes key add := by
  intro t₀ t hnone hext hkeyed
  refine ⟨h.keyed hkeyed, ⟨hext.toKeepsRows.trans (h.rows t), fun k token hk => ?_⟩, ?_⟩
  · -- a key that was bound in `t₀` is not the one that is bound now
    rw [h.find?, if_neg, hext.find? k token hk]
    rintro rfl
    rw [hnone] at hk
    cases hk
  · rw [h.find?, if_pos rfl]

theorem Makes.bind {key : ImportKey} {step : ImportM α} {next : α → ImportM Token}
    (hstep : Grows step) (hnext : ∀ a, Makes key (next a)) : Makes key (step >>= next) := by
  intro t₀ t hnone hext hkeyed
  obtain ⟨hkeyed', hext'⟩ := hstep t hkeyed
  exact hnext (step t).1 t₀ (step t).2 hnone (hext.trans hext') hkeyed'

theorem Makes.grows {key : ImportKey} {step : ImportM Token} (h : Makes key step) :
    Grows (findOrAdd key step) := by
  intro t ht
  unfold findOrAdd
  split
  · exact ⟨ht, .refl t⟩
  · rename_i hnone
    obtain ⟨hkeyed, hext, -⟩ := h t t hnone (.refl t) ht
    exact ⟨hkeyed, hext⟩

/-- Afterwards, the key has the token that was returned. -/
theorem Makes.find? {key : ImportKey} {step : ImportM Token} (h : Makes key step)
    {t : ImportTables} (ht : Keyed t) :
    (findOrAdd key step t).2.find? key = some (findOrAdd key step t).1 := by
  unfold findOrAdd
  split
  · assumption
  · rename_i hnone
    exact (h t t hnone (.refl t) ht).2.2

/-! ### Types -/

/-- The token that a type has in the tables of module `unit`. -/
def token? (t : ImportTables) (unit : Nat) (type : TypeRef) : Option Token :=
  match ownRow? unit type with
  | some row => some (.typeDef row)
  | none => t.find? (.type type.identity)

theorem Extends.token? {t t' : ImportTables} (h : Extends t t') {unit : Nat} {type : TypeRef}
    {token : Token} (htoken : t.token? unit type = some token) :
    t'.token? unit type = some token := by
  unfold ImportTables.token? at htoken ⊢
  split at htoken
  · exact htoken
  · exact h.find? _ _ htoken

/-- It is the token that importing the type returns, and the import changes nothing. -/
theorem importType_of_token? {t : ImportTables} {unit : Nat} {type : TypeRef} {token : Token}
    (h : t.token? unit type = some token) : importType unit type t = (token, t) := by
  unfold token? at h
  cases type with
  | named name kind origin isRoot base declaring id =>
    unfold importType
    dsimp only
    split at h
    · rename_i row hown
      cases h
      rw [hown]
      rfl
    · rename_i hown
      rw [hown]
      simp only [findOrAdd, h]
  | generic definition arguments id =>
    unfold importType
    simp only [findOrAdd]
    rw [show t.find? _ = some token from h]

/-- The step gives a type its token. -/
structure Imports (unit : Nat) (type : TypeRef) (step : ImportM Token) : Prop where
  grows : Grows step
  token? : ∀ t, Keyed t → (step t).2.token? unit type = some (step t).1

theorem Makes.imports {unit : Nat} {type : TypeRef} {step : ImportM Token}
    (h : Makes (.type type.identity) step) (hown : ownRow? unit type = none) :
    Imports unit type (findOrAdd (.type type.identity) step) where
  grows := h.grows
  token? t ht := by
    rw [ImportTables.token?, hown]
    exact h.find? ht

theorem ownRow?_generic (unit : Nat) (definition : TypeRef) (arguments : List TypeRef) (id : Nat) :
    ownRow? unit (.generic definition arguments id) = none := rfl

mutual

/-- Importing a type gives it its token. -/
theorem imports_importType (unit : Nat) : ∀ type, Imports unit type (importType unit type)
  | .named name kind origin isRoot base declaring id => by
    unfold importType
    dsimp only
    split
    · rename_i row hown
      refine ⟨.pure _, fun t _ => ?_⟩
      rw [token?, hown]
      rfl
    · rename_i hown
      exact (adds_typeRef ⟨scopeName origin, name.text, _⟩).makes.imports hown
  | .generic definition arguments id => by
    unfold importType
    refine Makes.imports ?_ (ownRow?_generic unit definition arguments id)
    refine .bind (imports_importType unit definition).grows fun d => ?_
    refine .bind (grows_importTypes unit arguments) fun as => ?_
    exact (adds_typeSpec ⟨d, as, _⟩).makes

/-- Types are imported one after the other, and each import keeps what was there. -/
theorem grows_importTypes (unit : Nat) : ∀ types, Grows (importTypes unit types)
  | [] => .pure _
  | type :: types => by
    unfold importTypes
    refine .bind (imports_importType unit type).grows fun token => ?_
    exact .bind (grows_importTypes unit types) fun tokens => .pure _

end

theorem grows_importType? (unit : Nat) : ∀ type, Grows (importType? unit type)
  | none => .pure _
  | some type => (imports_importType unit type).grows.map some

/-! ### Members and strings -/

theorem Makes.rowOf {key : ImportKey} {step : ImportM Token} (h : Makes key step)
    {t : ImportTables} (ht : Keyed t) :
    RowOf (findOrAdd key step t).2 key (findOrAdd key step t).1 :=
  (h.grows t ht).1 _ _ (h.find? ht)

end ImportTables

/-- A field, method or constructor that is defined elsewhere, as its import sees it. -/
structure ForeignMember where
  declaring : TypeRef
  name : String
  kind : MemberKind
  /-- The field's type or the method's return type. -/
  valueType : Option TypeRef
  params : List TypeRef
  identity : Identity

def FieldRef.foreign (f : FieldRef) : ForeignMember :=
  ⟨f.declaring, f.name.text, .field, some f.type, [], f.identity⟩

def MethodRef.foreign (m : MethodRef) : ForeignMember :=
  ⟨m.declaring, m.name.text, .method, some m.returns, m.params, m.identity⟩

def ConstructorRef.foreign (c : ConstructorRef) : ForeignMember :=
  ⟨c.declaring, c.name, .constructor, none, c.params, c.identity⟩

namespace ForeignMember

open ImportTables

/-- Takes a row for a member, after its types. -/
def takeRow (unit : Nat) (m : ForeignMember) : ImportM Token := do
  let parent ← importType unit m.declaring
  let valueType ← importType? unit m.valueType
  let params ← importTypes unit m.params
  addMemberRef ⟨parent, m.name, m.kind, valueType, params, m.identity⟩

theorem makes_takeRow (unit : Nat) (m : ForeignMember) :
    Makes (.member m.identity) (m.takeRow unit) := by
  refine .bind (imports_importType unit m.declaring).grows fun parent => ?_
  refine .bind (grows_importType? unit m.valueType) fun value => ?_
  refine .bind (grows_importTypes unit m.params) fun tokens => ?_
  exact (adds_memberRef ⟨parent, m.name, m.kind, value, tokens, m.identity⟩).makes

end ForeignMember

/-! ### Histories of tables -/

/-- What can be imported. -/
inductive Import
  | type (t : TypeRef)
  | field (f : FieldRef)
  | method (m : MethodRef)
  | constructor (c : ConstructorRef)
  | string (text : String)

namespace Import

open ImportTables

/-- Imports an entity, as module `unit` refers to it. -/
def perform (unit : Nat) : Import → ImportM Token
  | .type t => importType unit t
  | .field f => importField unit f
  | .method m => importMethod unit m
  | .constructor c => importConstructor unit c
  | .string text => internString text

/-- The member that is imported, and its row in a module under construction. -/
def member? : Import → Option (ForeignMember × Option Definition)
  | .field f => some (f.foreign, f.definition)
  | .method m => some (m.foreign, m.definition)
  | .constructor c => some (c.foreign, c.definition)
  | .type _ | .string _ => none

/-- The token of a member of the importing module. -/
def ownToken : Import → Nat → Token
  | .field _ => .fieldDef
  | _ => .methodDef

/-- The member that is imported, unless module `unit` defines it itself. -/
def foreign? (unit : Nat) (i : Import) : Option ForeignMember := do
  let (m, definition) ← i.member?
  if (rowIn? unit definition).isNone then some m else none

/-- Members are imported alike: by their row if they have one in the module, else by identity. -/
theorem perform_member {unit : Nat} {i : Import} {m : ForeignMember} {d : Option Definition}
    (h : i.member? = some (m, d)) :
    i.perform unit =
      match rowIn? unit d with
      | some row => pure (i.ownToken row)
      | none => findOrAdd (.member m.identity) (m.takeRow unit) := by
  cases i with
  | type t => cases h
  | string text => cases h
  | field f | method f | constructor f =>
    cases h
    rfl

/-- A member from elsewhere is looked up by its identity. -/
theorem perform_foreign {unit : Nat} {i : Import} {m : ForeignMember}
    (h : i.foreign? unit = some m) :
    i.perform unit = findOrAdd (.member m.identity) (m.takeRow unit) := by
  obtain ⟨⟨m', d⟩, hm, h⟩ := Option.bind_eq_some_iff.mp h
  obtain ⟨hrow, h⟩ := Option.ite_none_right_eq_some.mp h
  cases h
  rw [perform_member hm, Option.isNone_iff_eq_none.mp hrow]

/-- Anything else that is imported is a type, a string or a definition of the module. -/
inductive Native (unit : Nat) : Import → ImportM Token → Prop
  | type (t : TypeRef) : Native unit (.type t) (importType unit t)
  | string (text : String) : Native unit (.string text) (internString text)
  | own {i : Import} {md : ForeignMember × Option Definition} (row : Nat) :
      i.member? = some md → Native unit i (pure (i.ownToken row))

theorem perform_native {unit : Nat} {i : Import} (h : i.foreign? unit = none) :
    Native unit i (i.perform unit) := by
  cases hm : i.member? with
  | none =>
    cases i with
    | type t => exact .type t
    | string text => exact .string text
    | _ => cases hm
  | some md =>
    obtain ⟨m, d⟩ := md
    rw [perform_member hm]
    split
    · exact .own _ hm
    · rename_i hrow
      simp [foreign?, hm, hrow] at h

theorem Native.grows {unit : Nat} {i : Import} {step : ImportM Token} (h : Native unit i step) :
    Grows step := by
  cases h with
  | type t => exact (imports_importType unit t).grows
  | string text => exact (adds_string text).makes.grows
  | own row _ => exact .pure _

/-- Every import keeps the tables in order and only adds to them. -/
theorem grows_perform (unit : Nat) (i : Import) : Grows (i.perform unit) := by
  cases hm : i.foreign? unit with
  | some m =>
    rw [perform_foreign hm]
    exact (m.makes_takeRow unit).grows
  | none => exact (perform_native hm).grows

/-- The kinds of token that an import can return. -/
def admits : Import → Token → Bool
  | .type _, .typeDef _ | .type _, .typeRef _ | .type _, .typeSpec _ => true
  | .field _, .fieldDef _ | .field _, .memberRef _ => true
  | .method _, .methodDef _ | .method _, .memberRef _ => true
  | .constructor _, .methodDef _ | .constructor _, .memberRef _ => true
  | .string _, .string _ => true
  | _, _ => false

theorem admits_memberRef {unit : Nat} {i : Import} {m : ForeignMember}
    (h : i.foreign? unit = some m) (k : Nat) : i.admits (.memberRef k) = true := by
  cases i with
  | type t => cases h
  | string text => cases h
  | _ => rfl

theorem Native.admits {unit : Nat} {i : Import} {step : ImportM Token} (h : Native unit i step)
    {t : ImportTables} (ht : Keyed t) : i.admits (step t).1 = true := by
  cases h with
  | type type =>
    have himports := imports_importType unit type
    have htoken := himports.token? t ht
    obtain ⟨hkeyed, -⟩ := himports.grows t ht
    unfold token? at htoken
    split at htoken
    · rw [← Option.some.inj htoken]
      rfl
    · rcases (hkeyed _ _ htoken).type_inv with ⟨k, -, hk, -⟩ | ⟨k, -, hk, -⟩ <;> rw [hk] <;> rfl
  | string text =>
    have hrow := (adds_string text).makes.rowOf ht
    change Import.admits _ (findOrAdd _ _ t).1 = true
    generalize (findOrAdd (.string text) (addString text) t).1 = token at hrow ⊢
    cases hrow
    rfl
  | own row hm =>
    cases i with
    | type t => cases hm
    | string text => cases hm
    | _ => rfl

/-- Every import returns a token of the kind that was asked for. -/
theorem admits_perform (unit : Nat) (i : Import) {t : ImportTables} (ht : Keyed t) :
    i.admits (i.perform unit t).1 = true := by
  cases hm : i.foreign? unit with
  | some m =>
    have hrow := (m.makes_takeRow unit).rowOf ht
    rw [perform_foreign hm]
    obtain ⟨k, -, hk, -⟩ := hrow.member_inv
    rw [hk]
    exact admits_memberRef hm k
  | none => exact (perform_native hm).admits ht

end Import

namespace ImportTables

/-- The tables that imports lead to, from whatever modules they are made. -/
inductive Reached : ImportTables → Prop
  | empty : Reached empty
  | step {t : ImportTables} (unit : Nat) (i : Import) : Reached t → Reached (i.perform unit t).2

theorem Reached.keyed {t : ImportTables} (h : Reached t) : Keyed t := by
  induction h with
  | empty => exact keyed_empty
  | step unit i _ ih => exact (i.grows_perform unit _ ih).1

end ImportTables

end MarkupLowering

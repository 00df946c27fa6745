import Mathlib.Data.List.Nodup
import MarkupLowering.Proofs.Import.MemberRows

/-!
# MarkupLowering.Proofs.Import.Rows

**The rows of import tables over whole histories.** Imports are made in any order and from any
modules (`importFrom`).

* `Indexed`: the index knows every row. The row of a member or of a string is the one its key
  leads to, so there is one row for each. For types this is too much to ask: an instance without
  arguments takes a row of its own beside the row of its definition.
* `Linked`: a row refers to types whose rows were there before it.
* A key that has a token keeps it. To import an entity again is to look it up.
-/

namespace MarkupLowering

/-- The tokens that the row of an instance holds. -/
def TypeSpecRow.parts (row : TypeSpecRow) : List Token := row.definition :: row.arguments

/-- The tokens that the row of a member holds. -/
def MemberRefRow.parts (row : MemberRefRow) : List Token :=
  row.parent :: (row.valueType.toList ++ row.params)

/-- Whether the key is that of a type. -/
def ImportKey.isType : ImportKey → Bool
  | .type _ => true
  | .member _ | .string _ => false

namespace ImportTables

/-! ### Induction along an import -/

section Induction

variable (unit : Nat)

theorem importType_named_new {name : Ident} {kind : TypeKind} {origin : Origin} {isRoot : Bool}
    {base declaring : Option TypeRef} {id : Nat} {t : ImportTables}
    (h : t.token? unit (.named name kind origin isRoot base declaring id) = none) :
    importType unit (.named name kind origin isRoot base declaring id) t =
      addTypeRef ⟨scopeName origin, name.text, Identity.ofName name⟩ t := by
  unfold token? at h
  split at h
  · cases h
  · rename_i hown
    unfold importType
    dsimp only
    rw [hown]
    simp only [findOrAdd, h]
    rfl

theorem importType_generic_new {definition : TypeRef} {arguments : List TypeRef} {id : Nat}
    {t : ImportTables} (h : t.token? unit (.generic definition arguments id) = none) :
    importType unit (.generic definition arguments id) t =
      addTypeSpec ⟨(importType unit definition t).1,
        (importTypes unit arguments (importType unit definition t).2).1,
        (TypeRef.generic definition arguments id).identity⟩
        (importTypes unit arguments (importType unit definition t).2).2 := by
  rw [importType]
  simp only [findOrAdd]
  rw [show t.find? _ = none from h]
  rfl

/-- To follow an import is to follow four cases. The type has its token; or it is taken up as it
is; or it is an instance, and takes a row after its definition and its arguments; and lists are
imported from the left. -/
theorem importType_induct {P : TypeRef → ImportTables → Prop}
    {Q : List TypeRef → ImportTables → Prop}
    (known : ∀ type token t, t.token? unit type = some token →
      importType unit type t = (token, t) → P type t)
    (ref : ∀ type row t, t.token? unit type = none → row.fullName = type.fullName →
      row.identity = type.identity → importType unit type t = addTypeRef row t → P type t)
    (spec : ∀ definition arguments id t,
      t.token? unit (.generic definition arguments id) = none →
      importType unit (.generic definition arguments id) t =
        addTypeSpec ⟨(importType unit definition t).1,
          (importTypes unit arguments (importType unit definition t).2).1,
          (TypeRef.generic definition arguments id).identity⟩
          (importTypes unit arguments (importType unit definition t).2).2 →
      P definition t → Q arguments (importType unit definition t).2 →
      P (.generic definition arguments id) t)
    (nil : ∀ t, Q [] t)
    (cons : ∀ type types t, P type t → Q types (importType unit type t).2 → Q (type :: types) t) :
    (∀ type t, P type t) ∧ ∀ types t, Q types t :=
  ⟨one, many⟩
where
  one : ∀ type t, P type t
    | .named name kind origin isRoot base declaring id, t => by
      cases h : t.token? unit (.named name kind origin isRoot base declaring id) with
      | some token => exact known _ token t h (importType_of_token? h)
      | none => exact ref _ _ t h rfl rfl (importType_named_new unit h)
    | .generic definition arguments id, t => by
      cases h : t.token? unit (.generic definition arguments id) with
      | some token => exact known _ token t h (importType_of_token? h)
      | none =>
        exact spec definition arguments id t h (importType_generic_new unit h) (one definition t)
          (many arguments _)
  many : ∀ types t, Q types t
    | [], t => nil t
    | type :: types, t => cons type types t (one type t) (many types _)

end Induction

/-! ### The index knows every row -/

/-- The step appends no row but one for the key, whose token it returns. -/
def AddsOnly (key : ImportKey) (add : ImportM Token) : Prop :=
  ∀ t k token, RowOf (add t).2 k token → RowOf t k token ∨ k = key ∧ token = (add t).1

theorem getElem?_push_inv {α : Type} {xs : Array α} {k : Nat} {a b : α}
    (h : (xs.push b)[k]? = some a) : xs[k]? = some a ∨ k = xs.size ∧ a = b := by
  rw [Array.getElem?_push] at h
  split at h
  · rename_i hk
    cases h
    exact Or.inr ⟨hk, rfl⟩
  · exact Or.inl h

theorem addsOnly_typeRef (row : TypeRefRow) : AddsOnly (.type row.identity) (addTypeRef row) := by
  intro t k token h
  cases h with
  | typeRef hk =>
    rcases getElem?_push_inv hk with hold | ⟨rfl, rfl⟩
    · exact Or.inl (.typeRef hold)
    · exact Or.inr ⟨rfl, rfl⟩
  | typeSpec hk => exact Or.inl (.typeSpec hk)
  | memberRef hk => exact Or.inl (.memberRef hk)
  | string hk => exact Or.inl (.string hk)

theorem addsOnly_typeSpec (row : TypeSpecRow) :
    AddsOnly (.type row.identity) (addTypeSpec row) := by
  intro t k token h
  cases h with
  | typeRef hk => exact Or.inl (.typeRef hk)
  | typeSpec hk =>
    rcases getElem?_push_inv hk with hold | ⟨rfl, rfl⟩
    · exact Or.inl (.typeSpec hold)
    · exact Or.inr ⟨rfl, rfl⟩
  | memberRef hk => exact Or.inl (.memberRef hk)
  | string hk => exact Or.inl (.string hk)

theorem addsOnly_memberRef (row : MemberRefRow) :
    AddsOnly (.member row.identity) (addMemberRef row) := by
  intro t k token h
  cases h with
  | typeRef hk => exact Or.inl (.typeRef hk)
  | typeSpec hk => exact Or.inl (.typeSpec hk)
  | memberRef hk =>
    rcases getElem?_push_inv hk with hold | ⟨rfl, rfl⟩
    · exact Or.inl (.memberRef hold)
    · exact Or.inr ⟨rfl, rfl⟩
  | string hk => exact Or.inl (.string hk)

theorem addsOnly_string (text : String) : AddsOnly (.string text) (addString text) := by
  intro t k token h
  cases h with
  | typeRef hk => exact Or.inl (.typeRef hk)
  | typeSpec hk => exact Or.inl (.typeSpec hk)
  | memberRef hk => exact Or.inl (.memberRef hk)
  | string hk =>
    rcases getElem?_push_inv hk with hold | ⟨rfl, rfl⟩
    · exact Or.inl (.string hold)
    · exact Or.inr ⟨rfl, rfl⟩

/-- Every row is for a key of the index, and every row that is no type's is the one its key leads
to. -/
structure Indexed (t : ImportTables) : Prop where
  keyed : Keyed t
  bound : ∀ key token, t.RowOf key token → t.find? key ≠ none
  single : ∀ key token, key.isType = false → t.RowOf key token → t.find? key = some token

theorem not_rowOf_empty {key : ImportKey} {token : Token} : ¬ RowOf empty key token := by
  intro h
  cases h <;> rename_i hk <;> simp [empty] at hk

theorem indexed_empty : Indexed empty where
  keyed := keyed_empty
  bound _ _ h := absurd h not_rowOf_empty
  single _ _ _ h := absurd h not_rowOf_empty

/-- A row for an entity that has none keeps the index in order. A type may have one. -/
theorem Indexed.add {t : ImportTables} {key : ImportKey} {add : ImportM Token} (h : Indexed t)
    (hadds : Adds key add) (honly : AddsOnly key add)
    (hnew : key.isType = false → t.find? key = none) : Indexed (add t).2 where
  keyed := hadds.keyed h.keyed
  bound k token hrow := by
    rw [hadds.find?]
    split
    · exact Option.some_ne_none _
    · rename_i hne
      rcases honly t k token hrow with hold | ⟨rfl, -⟩
      · exact h.bound k token hold
      · exact absurd rfl hne
  single k token hk hrow := by
    rw [hadds.find?]
    rcases honly t k token hrow with hold | ⟨rfl, rfl⟩
    · have hfind := h.single k token hk hold
      rw [if_neg, hfind]
      rintro rfl
      rw [hnew hk] at hfind
      cases hfind
    · rw [if_pos rfl]

/-! ### Rows refer to earlier rows -/

/-- The token is that of a type and its row is there. Of the rows of instances, only the first
`limit` count. -/
def TypeBelow (t : ImportTables) (limit : Nat) : Token → Prop
  | .typeDef _ => True
  | .typeRef k => k < t.typeRefs.size
  | .typeSpec k => k < limit
  | .fieldDef _ | .methodDef _ | .memberRef _ | .string _ => False

theorem TypeBelow.mono {t t' : ImportTables} {limit limit' : Nat} {token : Token}
    (h : t.TypeBelow limit token) (hrefs : t.typeRefs.size ≤ t'.typeRefs.size)
    (hlimit : limit ≤ limit') : t'.TypeBelow limit' token := by
  cases token with
  | typeDef row => trivial
  | typeRef k => exact Nat.lt_of_lt_of_le h hrefs
  | typeSpec k => exact Nat.lt_of_lt_of_le h hlimit
  | _ => exact h

/-- Rows hold tokens of types only. The row of an instance holds those of earlier rows. -/
structure Linked (t : ImportTables) : Prop where
  specs : ∀ (k : Nat) (row : TypeSpecRow), t.typeSpecs[k]? = some row →
    ∀ p ∈ row.parts, t.TypeBelow k p
  members : ∀ (k : Nat) (row : MemberRefRow), t.memberRefs[k]? = some row →
    ∀ p ∈ row.parts, t.TypeBelow t.typeSpecs.size p

theorem linked_empty : Linked empty where
  specs k row h := by simp [empty] at h
  members k row h := by simp [empty] at h

namespace Linked

variable {t : ImportTables}

theorem addTypeRef (h : Linked t) (row : TypeRefRow) : Linked (addTypeRef row t).2 := by
  have hsize : t.typeRefs.size ≤ (t.typeRefs.push row).size := by simp
  exact ⟨fun k r hk p hp => (h.specs k r hk p hp).mono hsize (Nat.le_refl _),
    fun k r hk p hp => (h.members k r hk p hp).mono hsize (Nat.le_refl _)⟩

theorem addTypeSpec (h : Linked t) {row : TypeSpecRow}
    (hparts : ∀ p ∈ row.parts, t.TypeBelow t.typeSpecs.size p) : Linked (addTypeSpec row t).2 := by
  refine ⟨fun k r hk p hp => ?_, fun k r hk p hp => ?_⟩
  · rcases getElem?_push_inv hk with hold | ⟨rfl, rfl⟩
    · exact h.specs k r hold p hp
    · exact hparts p hp
  · have hsize : t.typeSpecs.size ≤ (t.typeSpecs.push row).size := by simp
    exact (h.members k r hk p hp).mono (Nat.le_refl _) hsize

theorem addMemberRef (h : Linked t) {row : MemberRefRow}
    (hparts : ∀ p ∈ row.parts, t.TypeBelow t.typeSpecs.size p) :
    Linked (addMemberRef row t).2 := by
  refine ⟨h.specs, fun k r hk p hp => ?_⟩
  rcases getElem?_push_inv hk with hold | ⟨rfl, rfl⟩
  · exact h.members k r hold p hp
  · exact hparts p hp

end Linked

/-! ### Every import keeps the tables in order -/

/-- The tables are in order: the index knows the rows, and rows refer to earlier ones. -/
structure Sound (t : ImportTables) : Prop extends Indexed t, Linked t

theorem sound_empty : Sound empty := ⟨indexed_empty, linked_empty⟩

/-- The row behind a type's token is there. -/
theorem RowOf.typeBelow {t : ImportTables} {identity : Identity} {token : Token}
    (h : t.RowOf (.type identity) token) : t.TypeBelow t.typeSpecs.size token := by
  rcases h.type_inv with ⟨k, row, rfl, hk, -⟩ | ⟨k, row, rfl, hk, -⟩
  · exact (Array.getElem?_eq_some_iff.mp hk).1
  · exact (Array.getElem?_eq_some_iff.mp hk).1

theorem typeBelow_of_token? {t : ImportTables} (ht : Keyed t) {unit : Nat} {type : TypeRef}
    {token : Token} (h : t.token? unit type = some token) :
    t.TypeBelow t.typeSpecs.size token := by
  unfold token? at h
  split at h
  · cases h
    trivial
  · exact (ht _ _ h).typeBelow

theorem typeBelow_of_tokens {t : ImportTables} (ht : Keyed t) {unit : Nat} {types : List TypeRef}
    {tokens : List Token} (h : types.map (t.token? unit) = tokens.map some) :
    ∀ p ∈ tokens, t.TypeBelow t.typeSpecs.size p := by
  intro p hp
  have hmem : some p ∈ types.map (t.token? unit) := by
    rw [h]
    exact List.mem_map_of_mem hp
  obtain ⟨type, -, htype⟩ := List.mem_map.mp hmem
  exact typeBelow_of_token? ht htype

/-- Types of a list are imported by the same recursion, so both statements are proved together. -/
theorem sound_importType_and (unit : Nat) :
    (∀ (type : TypeRef) (t : ImportTables), Sound t → Sound (importType unit type t).2) ∧
    ∀ (types : List TypeRef) (t : ImportTables), Sound t → Sound (importTypes unit types t).2 := by
  refine importType_induct unit ?known ?ref ?spec ?nil ?cons
  case known =>
    intro type token t _ heq h
    rw [heq]
    exact h
  case ref =>
    intro type row t _ _ _ heq h
    rw [heq]
    exact ⟨h.toIndexed.add (adds_typeRef row) (addsOnly_typeRef row) (fun hk => by cases hk),
      h.toLinked.addTypeRef row⟩
  case spec =>
    intro definition arguments id t _ heq ihd iha h
    have h₁ := ihd h
    have h₂ := iha h₁
    have hdefinition := (imports_importType unit definition).token? t h.keyed
    have harguments := importTypes_tokens unit arguments h₁.keyed
    -- the definition got its token before the arguments were imported
    obtain ⟨-, hext⟩ := grows_importTypes unit arguments _ h₁.keyed
    rw [heq]
    refine ⟨h₂.toIndexed.add (adds_typeSpec _) (addsOnly_typeSpec _) (fun hk => by cases hk),
      h₂.toLinked.addTypeSpec fun p hp => ?_⟩
    rcases List.mem_cons.mp hp with rfl | hp
    · exact typeBelow_of_token? h₂.keyed (hext.token? hdefinition)
    · exact typeBelow_of_tokens h₂.keyed harguments p hp
  case nil => exact fun t h => h
  case cons => exact fun type types t iht ihts h => ihts (iht h)

theorem sound_importType (unit : Nat) (type : TypeRef) {t : ImportTables} (h : Sound t) :
    Sound (importType unit type t).2 := (sound_importType_and unit).1 type t h

theorem sound_importTypes (unit : Nat) (types : List TypeRef) {t : ImportTables} (h : Sound t) :
    Sound (importTypes unit types t).2 := (sound_importType_and unit).2 types t h

theorem sound_importType? (unit : Nat) (type : Option TypeRef) {t : ImportTables} (h : Sound t) :
    Sound (importType? unit type t).2 := by
  cases type with
  | none => exact h
  | some type => exact sound_importType unit type h

end ImportTables

open ImportTables

/-- The row of a member comes after those of the types it mentions, and these link backwards. -/
theorem ForeignMember.sound_takeRow (unit : Nat) (m : ForeignMember) {t : ImportTables}
    (h : Sound t) (hnone : t.find? (.member m.identity) = none) :
    Sound (m.takeRow unit t).2 := by
  have h₁ := sound_importType unit m.declaring h
  have h₂ := sound_importType? unit m.valueType h₁
  have h₃ := sound_importTypes unit m.params h₂
  obtain ⟨-, hext₂⟩ := grows_importType? unit m.valueType _ h₁.keyed
  obtain ⟨-, hext₃⟩ := grows_importTypes unit m.params _ h₂.keyed
  -- importing types gives no member a token
  have hunbound := hnone
  rw [← spares_importType unit (fun _ => False) m.declaring t _ id,
    ← spares_importType? unit (fun _ => False) m.valueType _ _ id,
    ← spares_importTypes unit (fun _ => False) m.params _ _ id] at hunbound
  refine ⟨h₃.toIndexed.add (adds_memberRef _) (addsOnly_memberRef _) fun _ => hunbound,
    h₃.toLinked.addMemberRef fun p hp => ?_⟩
  rcases List.mem_cons.mp hp with rfl | hp
  · have hparent := (imports_importType unit m.declaring).token? t h.keyed
    exact typeBelow_of_token? h₃.keyed ((hext₂.trans hext₃).token? hparent)
  rcases List.mem_append.mp hp with hp | hp
  · have hvalue := importType?_token unit m.valueType h₁.keyed
    rw [show (importType? unit m.valueType _).1 = some p from Option.mem_toList.mp hp] at hvalue
    obtain ⟨type, -, htype⟩ := Option.map_eq_some_iff.mp hvalue
    exact typeBelow_of_token? h₃.keyed (hext₃.token? htype)
  · exact typeBelow_of_tokens h₃.keyed (importTypes_tokens unit m.params h₂.keyed) p hp

theorem Import.Native.sound {unit : Nat} {i : Import} {step : ImportM Token}
    (h : Native unit i step) {t : ImportTables} (ht : Sound t) : Sound (step t).2 := by
  cases h with
  | type type => exact sound_importType unit type ht
  | string text =>
    unfold internString findOrAdd
    split
    · exact ht
    · rename_i hnone
      exact ⟨ht.toIndexed.add (adds_string _) (addsOnly_string _) fun _ => hnone,
        ht.toLinked.specs, ht.toLinked.members⟩
  | own row _ => exact ht

theorem Import.sound_perform (unit : Nat) (i : Import) {t : ImportTables} (h : Sound t) :
    Sound (i.perform unit t).2 := by
  cases hm : i.foreign? unit with
  | none => exact (perform_native hm).sound h
  | some m =>
    rw [perform_foreign hm]
    unfold findOrAdd
    split
    · exact h
    · rename_i hnone
      exact m.sound_takeRow unit h hnone

/-! ### Histories -/

/-- The tables after imports in order, each of them from a module of its own. -/
def importFrom (log : List (Nat × Import)) (t : ImportTables) : ImportTables :=
  log.foldl (fun t entry => (entry.2.perform entry.1 t).2) t

theorem sound_importFrom (log : List (Nat × Import)) {t : ImportTables} (h : Sound t) :
    Sound (importFrom log t) := by
  induction log generalizing t with
  | nil => exact h
  | cons entry log ih => exact ih (entry.2.sound_perform entry.1 h)

theorem extends_importFrom (log : List (Nat × Import)) {t : ImportTables} (h : Keyed t) :
    Extends t (importFrom log t) := by
  induction log generalizing t with
  | nil => exact .refl t
  | cons entry log ih =>
    obtain ⟨hkeyed, hext⟩ := entry.2.grows_perform entry.1 t h
    exact hext.trans (ih hkeyed)

/-! ### Importing an entity again -/

/-- Whether the token is that of a definition of the module. -/
def Token.isDefinition : Token → Bool
  | .typeDef _ | .fieldDef _ | .methodDef _ => true
  | .typeRef _ | .typeSpec _ | .memberRef _ | .string _ => false

namespace Import

/-- The key that module `unit` looks an entity up by. Its own definitions have none. -/
def key? (unit : Nat) : Import → Option ImportKey
  | .type t => if (ownRow? unit t).isNone then some (.type t.identity) else none
  | .field f => if (rowIn? unit f.definition).isNone then some (.member f.identity) else none
  | .method m => if (rowIn? unit m.definition).isNone then some (.member m.identity) else none
  | .constructor c => if (rowIn? unit c.definition).isNone then some (.member c.identity) else none
  | .string text => some (.string text)

/-- What is looked up by a key. -/
inductive LookedUp (unit : Nat) : Import → ImportKey → Prop
  | type {t : TypeRef} : ownRow? unit t = none → LookedUp unit (.type t) (.type t.identity)
  | member {i : Import} {m : ForeignMember} : i.foreign? unit = some m →
      LookedUp unit i (.member m.identity)
  | string (text : String) : LookedUp unit (.string text) (.string text)

variable {unit : Nat} {i : Import} {key : ImportKey} {t : ImportTables} {token : Token}

theorem lookedUp_of_key? (h : i.key? unit = some key) : LookedUp unit i key := by
  cases i with
  | type t =>
    obtain ⟨hown, h⟩ := Option.ite_none_right_eq_some.mp h
    cases h
    exact .type (Option.isNone_iff_eq_none.mp hown)
  | string text =>
    cases h
    exact .string text
  | field f | method f | constructor f =>
    obtain ⟨hrow, h⟩ := Option.ite_none_right_eq_some.mp h
    cases h
    exact .member (m := f.foreign) (if_pos hrow)

/-- An entity that has a token is looked up. -/
theorem LookedUp.perform_eq (h : LookedUp unit i key) (hfind : t.find? key = some token) :
    i.perform unit t = (token, t) := by
  cases h with
  | type hown =>
    refine importType_of_token? ?_
    rw [token?, hown]
    exact hfind
  | member hm =>
    rw [perform_foreign hm]
    simp only [findOrAdd, hfind]
  | string text =>
    unfold perform internString
    simp only [findOrAdd, hfind]

/-- Afterwards, its key has the token that was returned. -/
theorem LookedUp.find?_perform (h : LookedUp unit i key) (ht : Keyed t) :
    (i.perform unit t).2.find? key = some (i.perform unit t).1 := by
  cases h with
  | @type type hown =>
    have htoken := (imports_importType unit type).token? t ht
    rw [token?, hown] at htoken
    exact htoken
  | member hm =>
    rw [perform_foreign hm]
    exact (ForeignMember.makes_takeRow unit _).find? ht
  | string text => exact (adds_string text).makes.find? ht

theorem isDefinition_ownToken (i : Import) (row : Nat) : (i.ownToken row).isDefinition = true := by
  cases i <;> rfl

theorem rowIn?_of_not_key? {m : ForeignMember} {d : Option Definition} (h : i.key? unit = none)
    (hm : i.member? = some (m, d)) : ∃ row, rowIn? unit d = some row := by
  refine Option.ne_none_iff_exists'.mp fun hrow => ?_
  cases i with
  | type t => cases hm
  | string text => cases hm
  | field f | method f | constructor f =>
    cases hm
    simp [key?, hrow] at h

/-- A definition of the module is its own token. -/
theorem perform_of_not_key? (h : i.key? unit = none) :
    ∃ token : Token, token.isDefinition = true ∧ ∀ t, i.perform unit t = (token, t) := by
  cases hm : i.member? with
  | some md =>
    obtain ⟨row, hrow⟩ := rowIn?_of_not_key? h hm
    refine ⟨i.ownToken row, i.isDefinition_ownToken row, fun t => ?_⟩
    rw [perform_member hm, hrow]
    rfl
  | none =>
    cases i with
    | type type =>
      cases hown : ownRow? unit type with
      | none => simp [key?, hown] at h
      | some row => exact ⟨.typeDef row, rfl, fun t => importType_of_token? (by rw [token?, hown])⟩
    | string text => cases h
    | _ => cases hm

/-- Two imports are of one entity, as module `unit` sees it: they are the same, or they are looked
up by the same key. -/
def SameEntity (unit : Nat) (i j : Import) : Prop :=
  j = i ∨ ∃ key, i.key? unit = some key ∧ j.key? unit = some key

/-- The token is what an import may return: that of a row made for the key that was looked up, or
that of a definition. -/
def Answered (unit : Nat) (i : Import) (t : ImportTables) (token : Token) : Prop :=
  match i.key? unit with
  | some key => t.RowOf key token
  | none => token.isDefinition = true

theorem answered_perform (unit : Nat) (i : Import) (ht : Keyed t) :
    i.Answered unit (i.perform unit t).2 (i.perform unit t).1 := by
  unfold Answered
  split
  · rename_i key hkey
    have hfind := (lookedUp_of_key? hkey).find?_perform ht
    exact (i.grows_perform unit t ht).1 key _ hfind
  · rename_i hkey
    obtain ⟨token, hdef, heq⟩ := perform_of_not_key? hkey
    rw [heq]
    exact hdef

theorem Answered.mono {t' : ImportTables} (h : i.Answered unit t token) (hrows : KeepsRows t t') :
    i.Answered unit t' token := by
  unfold Answered at h ⊢
  split
  · rename_i key hkey
    rw [hkey] at h
    exact h.mono hrows
  · rename_i hkey
    rw [hkey] at h
    exact h

/-- An entity that was imported is found, whatever was imported since then. -/
theorem perform_again {j : Import} (hsame : SameEntity unit i j) (ht : Keyed t)
    {t' : ImportTables} (hext : Extends (i.perform unit t).2 t') :
    j.perform unit t' = ((i.perform unit t).1, t') := by
  rcases hsame with rfl | ⟨key, hi, hj⟩
  · cases hkey : j.key? unit with
    | some key =>
      have hlook := lookedUp_of_key? hkey
      exact hlook.perform_eq (hext.find? _ _ (hlook.find?_perform ht))
    | none =>
      obtain ⟨token, -, heq⟩ := perform_of_not_key? hkey
      rw [heq, heq]
  · have hfind := (lookedUp_of_key? hi).find?_perform ht
    exact (lookedUp_of_key? hj).perform_eq (hext.find? _ _ hfind)

end Import

/-! ### Well-formed tables -/

namespace ImportTables

/-- Rows refer to types whose rows were there before, and no two rows are for one member or for
one string. -/
structure WellFormed (t : ImportTables) : Prop extends Linked t where
  members_nodup : (t.memberRefs.toList.map MemberRefRow.identity).Nodup
  strings_nodup : t.strings.toList.Nodup

/-- The elements of an array have different images exactly if images tell positions apart. -/
theorem nodup_map_iff {α β : Type} {xs : Array α} {f : α → β} :
    (xs.toList.map f).Nodup ↔
      ∀ (i j : Nat) (a b : α), xs[i]? = some a → xs[j]? = some b → f a = f b → i = j := by
  rw [List.nodup_iff_getElem?_ne_getElem?]
  simp only [List.getElem?_map, Array.getElem?_toList, List.length_map, Array.length_toList]
  constructor
  · intro h i j a b hi hj hab
    have hlt := (Array.getElem?_eq_some_iff.mp hi).1
    have hlt' := (Array.getElem?_eq_some_iff.mp hj).1
    have heq : xs[i]?.map f = xs[j]?.map f := by rw [hi, hj, Option.map_some, Option.map_some, hab]
    rcases Nat.lt_trichotomy i j with hij | hij | hij
    · exact absurd heq (h i j hij hlt')
    · exact hij
    · exact absurd heq.symm (h j i hij hlt)
  · intro h i j hij hlt heq
    obtain ⟨a, ha⟩ : ∃ a, xs[i]? = some a := ⟨_, Array.getElem?_eq_getElem (Nat.lt_trans hij hlt)⟩
    obtain ⟨b, hb⟩ : ∃ b, xs[j]? = some b := ⟨_, Array.getElem?_eq_getElem hlt⟩
    rw [ha, hb] at heq
    exact absurd (h i j a b ha hb (Option.some.inj heq)) (Nat.ne_of_lt hij)

theorem Sound.wellFormed {t : ImportTables} (h : Sound t) : WellFormed t where
  toLinked := h.toLinked
  members_nodup := by
    refine nodup_map_iff.mpr fun i j a b hi hj hab => ?_
    have ha := h.single _ _ rfl (.memberRef hi)
    have hb := h.single _ _ rfl (.memberRef hj)
    rw [hab, hb] at ha
    cases ha
    rfl
  strings_nodup := by
    rw [← List.map_id t.strings.toList]
    refine nodup_map_iff.mpr fun i j a b hi hj hab => ?_
    have ha := h.single _ _ rfl (.string hi)
    have hb := h.single _ _ rfl (.string hj)
    rw [show a = b from hab, hb] at ha
    cases ha
    rfl

end ImportTables

/-- After any imports, from any modules: rows stay as they are; every token that an import
returned leads to a row made for what was asked; rows refer to earlier rows, and no two are for one
member or for one string; and to import the same entity again, at any later time, returns the same
token and changes nothing. -/
theorem import_stable (unit : Nat) (before after : List (Nat × Import)) (i : Import) :
    let t := importFrom before .empty
    let token := (i.perform unit t).1
    let later := importFrom after (i.perform unit t).2
    KeepsRows t later ∧ WellFormed later ∧ i.Answered unit later token ∧
      ∀ j, Import.SameEntity unit i j → j.perform unit later = (token, later) := by
  intro t token later
  have ht : Sound t := sound_importFrom before sound_empty
  have hnow := i.sound_perform unit ht
  have hstep := (i.grows_perform unit t ht.keyed).2
  have hlater : Extends (i.perform unit t).2 later := extends_importFrom after hnow.keyed
  refine ⟨hstep.toKeepsRows.trans hlater.toKeepsRows, (sound_importFrom after hnow).wellFormed,
    (i.answered_perform unit ht.keyed).mono hlater.toKeepsRows, fun j hj => ?_⟩
  exact Import.perform_again hj ht.keyed hlater

end MarkupLowering

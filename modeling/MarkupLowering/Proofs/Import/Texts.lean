import MarkupLowering.Proofs.Import.Tables

/-!
# MarkupLowering.Proofs.Import.Texts

**Texts and entities are imported independently.** The texts of a table have no part in what becomes
of types and members, and the other way round.

* `SameEntities`: two tables that may differ in their texts, and agree in all else.
* `Textless` is a step that does the same to all such tables, and nothing to texts. Imports of types
  and members are such steps (`textless_perform`).
* Interning a text gives it a token (`find?_internString`), which it keeps (`KeepsTexts`), and
  leaves the entities as they are (`sameEntities_internString`).
-/

namespace MarkupLowering

namespace ImportTables

/-! ### Tables that differ in their texts -/

/-- Two tables that may differ in their texts, and agree in all else. -/
structure SameEntities (t t' : ImportTables) : Prop where
  typeRefs : t'.typeRefs = t.typeRefs
  typeSpecs : t'.typeSpecs = t.typeSpecs
  memberRefs : t'.memberRefs = t.memberRefs
  find? : ∀ key, (∀ text, key ≠ .string text) → t'.find? key = t.find? key

/-- Texts keep the tokens that they have. -/
def KeepsTexts (t t' : ImportTables) : Prop :=
  ∀ text token, t.find? (.string text) = some token → t'.find? (.string text) = some token

namespace SameEntities

variable {t t' t₁ : ImportTables}

theorem refl (t : ImportTables) : SameEntities t t := ⟨rfl, rfl, rfl, fun _ _ => rfl⟩

theorem symm (h : SameEntities t t') : SameEntities t' t :=
  ⟨h.typeRefs.symm, h.typeSpecs.symm, h.memberRefs.symm, fun key hkey => (h.find? key hkey).symm⟩

theorem trans (h : SameEntities t t') (h' : SameEntities t' t₁) : SameEntities t t₁ where
  typeRefs := h'.typeRefs.trans h.typeRefs
  typeSpecs := h'.typeSpecs.trans h.typeSpecs
  memberRefs := h'.memberRefs.trans h.memberRefs
  find? key hkey := (h'.find? key hkey).trans (h.find? key hkey)

/-- A key gets the same token in both. -/
theorem bind (h : SameEntities t t') (key : ImportKey) (token : Token) :
    SameEntities (ImportTables.bind key token t) (ImportTables.bind key token t') where
  typeRefs := h.typeRefs
  typeSpecs := h.typeSpecs
  memberRefs := h.memberRefs
  find? k hk := by rw [find?_bind, find?_bind, h.find? k hk]

end SameEntities

/-! ### Steps that have nothing to do with texts -/

variable {α β : Type}

/-- The step returns the same for tables that differ in their texts only, does the same to them, and
binds no text. -/
structure Textless (step : ImportM α) : Prop where
  value : ∀ {t t'}, SameEntities t t' → (step t').1 = (step t).1
  tables : ∀ {t t'}, SameEntities t t' → SameEntities (step t).2 (step t').2
  texts : ∀ t text, (step t).2.find? (.string text) = t.find? (.string text)

namespace Textless

protected theorem pure (a : α) : Textless (Pure.pure a : ImportM α) :=
  ⟨fun _ => rfl, fun h => h, fun _ _ => rfl⟩

theorem bind {step : ImportM α} {next : α → ImportM β} (h : Textless step)
    (hnext : ∀ a, Textless (next a)) : Textless (step >>= next) where
  value {t t'} hsame := by
    have hvalue : (next (step t').1 (step t').2).1 = (next (step t).1 (step t).2).1 := by
      rw [h.value hsame]
      exact (hnext _).value (h.tables hsame)
    exact hvalue
  tables {t t'} hsame := by
    have htables :
        SameEntities (next (step t).1 (step t).2).2 (next (step t').1 (step t').2).2 := by
      rw [h.value hsame]
      exact (hnext _).tables (h.tables hsame)
    exact htables
  texts t text := ((hnext (step t).1).texts (step t).2 text).trans (h.texts t text)

theorem map {step : ImportM α} (h : Textless step) (g : α → β) : Textless (g <$> step) where
  value hsame := congrArg g (h.value hsame)
  tables hsame := h.tables hsame
  texts t text := h.texts t text

theorem findOrAdd {key : ImportKey} {add : ImportM Token} (hkey : ∀ text, key ≠ .string text)
    (h : Textless add) : Textless (findOrAdd key add) where
  value {t t'} hsame := by
    unfold ImportTables.findOrAdd
    rw [hsame.find? key hkey]
    split
    · rfl
    · exact h.value hsame
  tables {t t'} hsame := by
    unfold ImportTables.findOrAdd
    rw [hsame.find? key hkey]
    split
    · exact hsame
    · exact h.tables hsame
  texts t text := by
    unfold ImportTables.findOrAdd
    split
    · rfl
    · exact h.texts t text

end Textless

/-- A step that appends a row of an entity and binds its key. -/
theorem Textless.adding (key : ImportKey) (token : ImportTables → Token)
    (append : ImportTables → ImportTables) (hkey : ∀ text, key ≠ .string text)
    (htoken : ∀ {t t'}, SameEntities t t' → token t' = token t)
    (hrows : ∀ {t t'}, SameEntities t t' → SameEntities (append t) (append t'))
    (hindex : ∀ t k, (append t).find? k = t.find? k) :
    Textless (fun t => (token t, ImportTables.bind key (token t) (append t)) : ImportM Token) where
  value hsame := htoken hsame
  tables {t t'} hsame := by
    dsimp only
    rw [htoken hsame]
    exact (hrows hsame).bind key (token t)
  texts t text := by
    dsimp only
    rw [find?_bind, if_neg (hkey text), hindex]

theorem textless_addTypeRef (row : TypeRefRow) : Textless (addTypeRef row) := by
  refine .adding (.type row.identity) (fun t => .typeRef t.typeRefs.size)
    (fun t => { t with typeRefs := t.typeRefs.push row }) nofun (fun h => ?_) (fun h => ?_)
    fun _ _ => rfl
  · rw [h.typeRefs]
  · exact { h with typeRefs := congrArg (·.push row) h.typeRefs }

theorem textless_addTypeSpec (row : TypeSpecRow) : Textless (addTypeSpec row) := by
  refine .adding (.type row.identity) (fun t => .typeSpec t.typeSpecs.size)
    (fun t => { t with typeSpecs := t.typeSpecs.push row }) nofun (fun h => ?_) (fun h => ?_)
    fun _ _ => rfl
  · rw [h.typeSpecs]
  · exact { h with typeSpecs := congrArg (·.push row) h.typeSpecs }

theorem textless_addMemberRef (row : MemberRefRow) : Textless (addMemberRef row) := by
  refine .adding (.member row.identity) (fun t => .memberRef t.memberRefs.size)
    (fun t => { t with memberRefs := t.memberRefs.push row }) nofun (fun h => ?_) (fun h => ?_)
    fun _ _ => rfl
  · rw [h.memberRefs]
  · exact { h with memberRefs := congrArg (·.push row) h.memberRefs }

mutual

/-- Types are imported alike, whatever texts there are. -/
theorem textless_importType (unit : Nat) : ∀ type, Textless (importType unit type)
  | .named name kind origin isRoot base declaring id => by
    unfold importType
    dsimp only
    split
    · exact .pure _
    · exact .findOrAdd nofun (textless_addTypeRef _)
  | .generic definition arguments id => by
    unfold importType
    refine .findOrAdd nofun ((textless_importType unit definition).bind fun d => ?_)
    exact (textless_importTypes unit arguments).bind fun as => textless_addTypeSpec _

/-- Types are imported one after the other; none of them has a text. -/
theorem textless_importTypes (unit : Nat) : ∀ types, Textless (importTypes unit types)
  | [] => .pure _
  | type :: types => by
    unfold importTypes
    refine (textless_importType unit type).bind fun token => ?_
    exact (textless_importTypes unit types).bind fun tokens => .pure _

end

theorem textless_importType? (unit : Nat) : ∀ type, Textless (importType? unit type)
  | none => .pure _
  | some type => (textless_importType unit type).map some

theorem textless_takeRow (unit : Nat) (m : ForeignMember) : Textless (m.takeRow unit) := by
  refine (textless_importType unit m.declaring).bind fun parent => ?_
  refine (textless_importType? unit m.valueType).bind fun value => ?_
  exact (textless_importTypes unit m.params).bind fun tokens => textless_addMemberRef _

/-- Whatever is imported, texts have no part in it, unless it is a text. -/
theorem textless_perform (unit : Nat) {i : Import}
    (hi : ∀ text, i ≠ .string text) : Textless (i.perform unit) := by
  cases hm : i.member? with
  | none =>
    cases i with
    | type t => exact textless_importType unit t
    | string text => exact absurd rfl (hi text)
    | _ => cases hm
  | some md =>
    obtain ⟨m, d⟩ := md
    rw [Import.perform_member hm]
    split
    · exact .pure _
    · exact .findOrAdd (fun _ h => by cases h) (textless_takeRow unit m)

/-! ### Interning a text -/

variable (t : ImportTables) (text : String)

theorem sameEntities_internString : SameEntities t (internString text t).2 := by
  unfold internString findOrAdd
  split
  · exact .refl t
  · refine ⟨rfl, rfl, rfl, fun key hkey => ?_⟩
    rw [(adds_string text).find?, if_neg fun h => hkey text h.symm]

/-- The text has the token that is returned. -/
theorem find?_internString :
    (internString text t).2.find? (.string text) = some (internString text t).1 := by
  unfold internString findOrAdd
  split
  · assumption
  · rw [(adds_string text).find?, if_pos rfl]

theorem keepsTexts_internString : KeepsTexts t (internString text t).2 := by
  intro other token h
  unfold internString findOrAdd
  split
  · exact h
  · rename_i hnone
    rw [(adds_string text).find?, if_neg, h]
    -- the text that is added has no token yet
    intro hkey
    rw [hkey, h] at hnone
    cases hnone

end ImportTables

end MarkupLowering

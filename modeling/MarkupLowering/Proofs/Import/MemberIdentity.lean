import MarkupLowering.Proofs.Identity.Signatures
import MarkupLowering.Proofs.Import.Rows

/-!
# MarkupLowering.Proofs.Import.MemberIdentity

**Which members share an identity.** The identity of a member mixes the digest of its owner's name
and the digest of its own name by exclusive or, which does not tell the two apart. Where digests
tell the names involved apart, two members are confused exactly if they are the same, if owner and
name are exchanged, if each is named like its owner, or by accident of the digests of four
different names (`Confused`).

The parameter types of a method are folded in afterwards by a step that can be undone, so methods
with the same parameters are confused exactly if their fields would be.
-/

namespace MarkupLowering

open Digest

/-! ### Exclusive or of digests -/

/-- Digests tell the texts apart. -/
def DigestsTell (texts : List String) : Prop :=
  ∀ a ∈ texts, ∀ b ∈ texts, Xxh64.ofString a = Xxh64.ofString b → a = b

instance (texts : List String) : Decidable (DigestsTell texts) :=
  inferInstanceAs (Decidable (∀ a ∈ texts, ∀ b ∈ texts, _ → _))

/-- Owner and name of one member, and owner and name of another, that are mixed into one
identity. -/
inductive Confused : String → String → String → String → Prop
  | same (owner name : String) : Confused owner name owner name
  | exchanged (owner name : String) : Confused owner name name owner
  /-- Each member is named like its owner. -/
  | doubled (owner owner' : String) : Confused owner owner owner' owner'
  | accidental {owner name owner' name' : String} : [owner, name, owner', name'].Nodup →
      Xxh64.ofString owner ^^^ Xxh64.ofString name =
        Xxh64.ofString owner' ^^^ Xxh64.ofString name' →
      Confused owner name owner' name'

theorem Confused.digests_eq {o n o' n' : String} (h : Confused o n o' n') :
    Xxh64.ofString o ^^^ Xxh64.ofString n = Xxh64.ofString o' ^^^ Xxh64.ofString n' := by
  cases h with
  | same => rfl
  | exchanged => exact UInt64.xor_comm _ _
  | doubled => rw [UInt64.xor_self, UInt64.xor_self]
  | accidental _ h => exact h

/-- If two of the four texts are the same, so are the other two. -/
theorem confused_of_digests_eq {o n o' n' : String} (htell : DigestsTell [o, n, o', n'])
    (h : Xxh64.ofString o ^^^ Xxh64.ofString n = Xxh64.ofString o' ^^^ Xxh64.ofString n') :
    Confused o n o' n' := by
  by_cases hon : o = n
  · subst hon
    rw [UInt64.xor_self, eq_comm, UInt64.xor_eq_zero_iff] at h
    cases htell o' (by simp) n' (by simp) h
    exact .doubled o o'
  by_cases hoo : o = o'
  · subst hoo
    rw [UInt64.xor_right_inj] at h
    cases htell n (by simp) n' (by simp) h
    exact .same o n
  by_cases hon' : o = n'
  · subst hon'
    rw [UInt64.xor_comm, UInt64.xor_left_inj] at h
    cases htell n (by simp) o' (by simp) h
    exact .exchanged o n
  by_cases hno : n = o'
  · subst hno
    rw [UInt64.xor_comm, UInt64.xor_right_inj] at h
    exact absurd (htell o (by simp) n' (by simp) h) hon'
  by_cases hnn : n = n'
  · subst hnn
    rw [UInt64.xor_left_inj] at h
    exact absurd (htell o (by simp) o' (by simp) h) hoo
  by_cases hon'' : o' = n'
  · subst hon''
    rw [UInt64.xor_self, UInt64.xor_eq_zero_iff] at h
    exact absurd (htell o (by simp) n (by simp) h) hon
  · exact .accidental (by simp [hon, hoo, hon', hno, hnn, hon'']) h

theorem digests_eq_iff_confused {o n o' n' : String} (htell : DigestsTell [o, n, o', n']) :
    Xxh64.ofString o ^^^ Xxh64.ofString n = Xxh64.ofString o' ^^^ Xxh64.ofString n' ↔
      Confused o n o' n' :=
  ⟨confused_of_digests_eq htell, Confused.digests_eq⟩

/-! ### Identities of members -/

theorem TypeRef.identity_of_not_generic {t : TypeRef} (h : t.isGeneric = false) :
    t.identity.bits = Identity.Domain.type.seed ^^^ Xxh64.ofString t.fullName := by
  cases t with
  | named name kind origin isRoot base declaring id =>
    exact congrArg (Identity.Domain.type.seed ^^^ ·) name.digest_eq
  | generic definition arguments id => cases h

/-- Where a member is found: its owner and its name. -/
structure MemberPath where
  owner : TypeRef
  name : Ident

def FieldRef.path (f : FieldRef) : MemberPath := ⟨f.declaring, f.name⟩

def PropertyRef.path (p : PropertyRef) : MemberPath := ⟨p.declaring, p.name⟩

def MethodRef.path (m : MethodRef) : MemberPath := ⟨m.declaring, m.name⟩

namespace MemberPath

variable {p q : MemberPath}

/-- Neither owner is an instance, and digests tell the names involved apart. -/
structure Clear (p q : MemberPath) : Prop where
  owner : p.owner.isGeneric = false
  owner' : q.owner.isGeneric = false
  digests : DigestsTell [p.owner.fullName, p.name.text, q.owner.fullName, q.name.text]

/-- Identities confuse members at the two places. -/
def Mixed (p q : MemberPath) : Prop :=
  Confused p.owner.fullName p.name.text q.owner.fullName q.name.text

/-- Seeds drop out, and the digests of the four names are left. -/
theorem seed_eq_iff_mixed (h : Clear p q) (seed : UInt64) :
    seed ^^^ p.owner.identity.bits ^^^ p.name.digest =
      seed ^^^ q.owner.identity.bits ^^^ q.name.digest ↔ Mixed p q := by
  rw [TypeRef.identity_of_not_generic h.owner, TypeRef.identity_of_not_generic h.owner',
    p.name.digest_eq, q.name.digest_eq]
  simp only [UInt64.xor_assoc, UInt64.xor_right_inj]
  exact digests_eq_iff_confused h.digests

end MemberPath

open MemberPath

theorem FieldRef.beq_iff {f g : FieldRef} : (f == g) = true ↔ f.identity = g.identity :=
  beq_iff_eq (a := f.identity)

theorem PropertyRef.beq_iff {p q : PropertyRef} : (p == q) = true ↔ p.identity = q.identity :=
  beq_iff_eq (a := p.identity)

theorem MethodRef.beq_iff {m k : MethodRef} : (m == k) = true ↔ m.identity = k.identity :=
  beq_iff_eq (a := m.identity)

theorem FieldRef.identity_eq_iff {f g : FieldRef} (h : Clear f.path g.path) :
    f.identity = g.identity ↔ Mixed f.path g.path := by
  rw [← seed_eq_iff_mixed h Identity.Domain.field.seed]
  exact Identity.mk.injEq _ _ ▸ Iff.rfl

theorem PropertyRef.identity_eq_iff {p q : PropertyRef} (h : Clear p.path q.path) :
    p.identity = q.identity ↔ Mixed p.path q.path := by
  rw [← seed_eq_iff_mixed h Identity.Domain.property.seed]
  exact Identity.mk.injEq _ _ ▸ Iff.rfl

theorem MethodRef.identity_eq_iff {m k : MethodRef} (h : Clear m.path k.path)
    (hparams : m.params = k.params) : m.identity = k.identity ↔ Mixed m.path k.path := by
  rw [← seed_eq_iff_mixed h Identity.Domain.method.seed, MethodRef.identity, MethodRef.identity,
    hparams, Identity.ofMethod, Identity.ofMethod, Identity.mk.injEq]
  exact Identity.foldFrom_inj _

/-! ### Tokens of members -/

open ImportTables

/-- The second import, made any time after the first, returns the token of the first. -/
def SharesToken (unit : Nat) (before between : List (Nat × Import)) (i j : Import) : Prop :=
  let first := i.perform unit (importFrom before .empty)
  (j.perform unit (importFrom between first.2)).1 = first.1

/-- Members from elsewhere share a token exactly if they share an identity. -/
theorem sharesToken_iff {unit : Nat} (before between : List (Nat × Import)) {i j : Import}
    {m k : ForeignMember} (hi : i.foreign? unit = some m) (hj : j.foreign? unit = some k) :
    SharesToken unit before between i j ↔ m.identity = k.identity := by
  have hbefore : Keyed (importFrom before .empty) := (sound_importFrom before sound_empty).keyed
  have hnow := (i.grows_perform unit _ hbefore).1
  have hlater := extends_importFrom between hnow
  have hbetween : Keyed (importFrom between (i.perform unit (importFrom before .empty)).2) :=
    (sound_importFrom between
      (i.sound_perform unit (sound_importFrom before sound_empty))).keyed
  have hfind := (Import.LookedUp.member hi).find?_perform hbefore
  constructor
  · intro hshares
    obtain ⟨hkeyed, hext⟩ := j.grows_perform unit _ hbetween
    have hfind' := (Import.LookedUp.member hj).find?_perform hbetween
    rw [hshares] at hfind'
    -- one row is behind the token, and it was made for one key
    have hrow := hkeyed _ _ (hext.find? _ _ (hlater.find? _ _ hfind))
    exact ImportKey.member.inj (hrow.unique (hkeyed _ _ hfind'))
  · intro hid
    rw [hid] at hfind
    have hagain := (Import.LookedUp.member hj).perform_eq (hlater.find? _ _ hfind)
    exact congrArg (·.1) hagain

theorem foreign?_field {unit : Nat} {f : FieldRef} (h : rowIn? unit f.definition = none) :
    (Import.field f).foreign? unit = some f.foreign := by
  simp [Import.foreign?, Import.member?, h]

theorem foreign?_method {unit : Nat} {m : MethodRef} (h : rowIn? unit m.definition = none) :
    (Import.method m).foreign? unit = some m.foreign := by
  simp [Import.foreign?, Import.member?, h]

/-- Where digests tell the names of two owners and two members apart, fields, properties and
methods with the same parameters have one identity, are equal, and share a token, exactly if the
two places are mixed up. -/
theorem members_merged_iff_mixed {p q : MemberPath} (h : Clear p q) :
    (∀ f g : FieldRef, f.path = p → g.path = q →
      (f.identity = g.identity ↔ Mixed p q) ∧ ((f == g) = true ↔ Mixed p q) ∧
      ∀ unit before between, rowIn? unit f.definition = none → rowIn? unit g.definition = none →
        (SharesToken unit before between (.field f) (.field g) ↔ Mixed p q)) ∧
    (∀ f g : PropertyRef, f.path = p → g.path = q →
      (f.identity = g.identity ↔ Mixed p q) ∧ ((f == g) = true ↔ Mixed p q)) ∧
    (∀ f g : MethodRef, f.path = p → g.path = q → f.params = g.params →
      (f.identity = g.identity ↔ Mixed p q) ∧ ((f == g) = true ↔ Mixed p q) ∧
      ∀ unit before between, rowIn? unit f.definition = none → rowIn? unit g.definition = none →
        (SharesToken unit before between (.method f) (.method g) ↔ Mixed p q)) := by
  refine ⟨?_, ?_, ?_⟩
  · rintro f g rfl rfl
    have hid := FieldRef.identity_eq_iff h
    refine ⟨hid, FieldRef.beq_iff.trans hid, fun unit before between hf hg => ?_⟩
    exact (sharesToken_iff before between (foreign?_field hf) (foreign?_field hg)).trans hid
  · rintro f g rfl rfl
    have hid := PropertyRef.identity_eq_iff h
    exact ⟨hid, PropertyRef.beq_iff.trans hid⟩
  · rintro f g rfl rfl hparams
    have hid := MethodRef.identity_eq_iff h hparams
    refine ⟨hid, MethodRef.beq_iff.trans hid, fun unit before between hf hg => ?_⟩
    exact (sharesToken_iff before between (foreign?_method hf) (foreign?_method hg)).trans hid

/-! ### Owner and name exchanged -/

/-- A field of a type of a finished assembly. -/
def libraryField (owner name : String) : FieldRef where
  declaring := libraryType owner
  name := .ofString name
  type := libraryType "System.Int32"
  attributes := default
  definition := none

theorem clear_exchanged :
    Clear (libraryField "Width" "Height").path (libraryField "Height" "Width").path :=
  ⟨rfl, rfl, by decide +kernel⟩

/-- A field `Height` of `Width` and a field `Width` of `Height` are taken for one. -/
theorem members_merged_exchanged :
    Clear (libraryField "Width" "Height").path (libraryField "Height" "Width").path ∧
      (libraryField "Width" "Height" == libraryField "Height" "Width") = true :=
  have hfields := (members_merged_iff_mixed clear_exchanged).1 _ _ rfl rfl
  ⟨clear_exchanged, hfields.2.1.mpr (.exchanged "Width" "Height")⟩

/-- Owner and name do not always tell members apart, even where digests tell the names apart. -/
theorem members_not_always_apart :
    ¬ ∀ f g : FieldRef, Clear f.path g.path →
      (f.declaring.fullName, f.name.text) ≠ (g.declaring.fullName, g.name.text) →
      f.identity ≠ g.identity := by
  intro hall
  have hmixed : Mixed (libraryField "Width" "Height").path (libraryField "Height" "Width").path :=
    .exchanged "Width" "Height"
  exact hall _ _ clear_exchanged (by decide) ((FieldRef.identity_eq_iff clear_exchanged).mpr hmixed)

end MarkupLowering

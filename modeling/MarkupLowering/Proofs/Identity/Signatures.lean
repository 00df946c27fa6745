import Mathlib.Logic.ExistsUnique
import Mathlib.Tactic.ByContra
import MarkupLowering.Member

/-!
# MarkupLowering.Proofs.Identity.Signatures

**Signatures that differ in one component** have different identities, however long they are.

The factor between two components is odd, so it has an inverse modulo 2^64 and each step of the
fold can be undone. Hence what a list was folded into can be read off the result (`foldFrom_inj`),
and so can any one component once the others are known (`foldFrom_component_inj`).
`single_difference_kept` draws the conclusion for overloads, constructors and generic instances.

Nothing of the kind holds for two differences: they can make up for each other.
-/

namespace MarkupLowering

/-! ### Lists that differ once -/

/-- Two lists of one length that differ at exactly one position. -/
def DifferOnce {α : Type} (xs ys : List α) : Prop :=
  xs.length = ys.length ∧ ∃! i : Nat, xs[i]? ≠ ys[i]?

namespace DifferOnce

variable {α : Type} {xs ys : List α} {x y : α}

/-- Either the heads differ and nothing else, or the difference is further on. -/
theorem uncons (h : DifferOnce (x :: xs) (y :: ys)) :
    x ≠ y ∧ xs = ys ∨ x = y ∧ DifferOnce xs ys := by
  obtain ⟨hlength, k, hk, honly⟩ := h
  cases k with
  | zero =>
    refine Or.inl ⟨by simpa using hk, List.ext_getElem? fun i => ?_⟩
    by_contra hi
    exact absurd (honly (i + 1) hi) (Nat.succ_ne_zero i)
  | succ k =>
    have hhead : x = y := by
      by_contra hne
      exact absurd (honly 0 (by simpa using hne)) (Nat.succ_ne_zero k).symm
    refine Or.inr ⟨hhead, Nat.succ.inj hlength, k, hk, fun i hi => ?_⟩
    exact Nat.succ.inj (honly (i + 1) hi)

theorem cons (z : α) (h : DifferOnce xs ys) : DifferOnce (z :: xs) (z :: ys) := by
  obtain ⟨hlength, k, hk, honly⟩ := h
  refine ⟨congrArg Nat.succ hlength, k + 1, hk, fun i hi => ?_⟩
  cases i with
  | zero => exact absurd rfl hi
  | succ i => rw [honly i hi]

/-- The difference stands between what the lists have in common. -/
theorem exists_split (h : DifferOnce xs ys) :
    ∃ before x y after, x ≠ y ∧ xs = before ++ x :: after ∧ ys = before ++ y :: after := by
  induction xs generalizing ys with
  | nil =>
    cases ys with
    | nil => exact absurd rfl h.2.choose_spec.1
    | cons y ys => cases h.1
  | cons x xs ih =>
    cases ys with
    | nil => cases h.1
    | cons y ys =>
      rcases h.uncons with ⟨hne, rfl⟩ | ⟨rfl, htail⟩
      · exact ⟨[], x, y, xs, hne, rfl, rfl⟩
      · obtain ⟨before, c, d, after, hne, rfl, rfl⟩ := ih htail
        exact ⟨x :: before, c, d, after, hne, rfl, rfl⟩

theorem of_ne (before after : List α) (h : x ≠ y) :
    DifferOnce (before ++ x :: after) (before ++ y :: after) := by
  induction before with
  | nil =>
    refine ⟨rfl, 0, by simpa using h, fun i hi => ?_⟩
    cases i with
    | zero => rfl
    | succ i => exact absurd rfl hi
  | cons z before ih => exact ih.cons z

end DifferOnce

/-! ### Folds can be undone -/

namespace Identity

/-- The factor between components has an inverse. -/
theorem step_mul_inverse : step * 0xe038215cab88743 = 1 := by decide

theorem mul_step_inj {a b : UInt64} : a * step = b * step ↔ a = b := by
  constructor
  · intro h
    have hinv := congrArg (· * 0xe038215cab88743) h
    simp only [UInt64.mul_assoc, step_mul_inverse, UInt64.mul_one] at hinv
    exact hinv
  · rintro rfl
    rfl

/-- What a signature is folded into can be read off the result. -/
theorem foldFrom_inj (components : List Identity) {i : Nat} {a b : UInt64} :
    foldFrom i a components = foldFrom i b components ↔ a = b := by
  induction components generalizing i a b with
  | nil => rfl
  | cons c cs ih => rw [foldFrom_cons, foldFrom_cons, ih, UInt64.add_left_inj, mul_step_inj]

/-- A component can be read off the result, if the others are known. -/
theorem foldFrom_component_inj (before after : List Identity) {i : Nat} {a : UInt64}
    {c d : Identity} :
    foldFrom i a (before ++ c :: after) = foldFrom i a (before ++ d :: after) ↔ c = d := by
  rw [foldFrom_append, foldFrom_append, foldFrom_cons, foldFrom_cons, foldFrom_inj,
    UInt64.add_right_inj, UInt64.xor_right_inj, Identity.mk.injEq]

theorem foldSignature_ne {cs ds : List Identity} (h : DifferOnce cs ds) (seed : UInt64) :
    foldSignature seed cs ≠ foldSignature seed ds := by
  obtain ⟨before, c, d, after, hne, rfl, rfl⟩ := h.exists_split
  rw [foldSignature, foldSignature, ne_eq, foldFrom_component_inj]
  exact hne

theorem ofMethod_ne {cs ds : List Identity} (h : DifferOnce cs ds) (owner : Identity)
    (name : Ident) : ofMethod owner name cs ≠ ofMethod owner name ds := by
  rw [ofMethod, ofMethod, ne_eq, Identity.mk.injEq]
  exact foldSignature_ne h _

theorem ofConstructor_ne {cs ds : List Identity} (h : DifferOnce cs ds) (owner : Identity)
    (isStatic : Bool) : ofConstructor owner cs isStatic ≠ ofConstructor owner ds isStatic := by
  rw [ofConstructor, ofConstructor, ne_eq, Identity.mk.injEq]
  exact foldSignature_ne h _

theorem ofInstance_ne {cs ds : List Identity} (h : DifferOnce cs ds) (definition : Identity) :
    ofInstance definition cs ≠ ofInstance definition ds := by
  rw [ofInstance, ofInstance, ne_eq, Identity.mk.injEq]
  exact foldSignature_ne h _

end Identity

/-! ### The main statement -/

open Identity

/-- A signature keeps any single difference, of the seed or of one component, for any number of
components. So neither identities nor handles are shared by overloads of one method, by
constructors of one type, or by instances of one generic type, whose signatures differ in exactly
one component. -/
theorem single_difference_kept :
    (∀ (seed seed' : UInt64) (cs : List Identity),
      foldSignature seed cs = foldSignature seed' cs ↔ seed = seed') ∧
    (∀ cs ds : List Identity, DifferOnce cs ds →
      (∀ seed, foldSignature seed cs ≠ foldSignature seed ds) ∧
      (∀ owner name, ofMethod owner name cs ≠ ofMethod owner name ds) ∧
      (∀ owner isStatic, ofConstructor owner cs isStatic ≠ ofConstructor owner ds isStatic) ∧
      ∀ definition, ofInstance definition cs ≠ ofInstance definition ds) ∧
    (∀ m k : MethodRef, m.declaring.identity = k.declaring.identity → m.name = k.name →
      DifferOnce (m.params.map TypeRef.identity) (k.params.map TypeRef.identity) →
      m.identity ≠ k.identity) ∧
    (∀ c d : ConstructorRef, c.declaring.identity = d.declaring.identity →
      c.isStatic = d.isStatic →
      DifferOnce (c.params.map TypeRef.identity) (d.params.map TypeRef.identity) →
      c.identity ≠ d.identity) ∧
    ∀ (definition : TypeRef) (args args' : List TypeRef) (id id' : Nat),
      DifferOnce (args.map TypeRef.identity) (args'.map TypeRef.identity) →
      (TypeRef.generic definition args id).identity ≠
        (TypeRef.generic definition args' id').identity := by
  refine ⟨fun _ _ cs => foldFrom_inj cs, ?_, ?_, ?_, ?_⟩
  · intro cs ds h
    exact ⟨foldSignature_ne h, ofMethod_ne h, ofConstructor_ne h, ofInstance_ne h⟩
  · intro m k hdeclaring hname h
    rw [MethodRef.identity, MethodRef.identity, hdeclaring, hname]
    exact ofMethod_ne h _ _
  · intro c d hdeclaring hstatic h
    rw [ConstructorRef.identity, ConstructorRef.identity, hdeclaring, hstatic]
    exact ofConstructor_ne h _ _
  · intro definition args args' id id' h
    rw [TypeRef.identity, TypeRef.identity, TypeRef.identities_eq_map, TypeRef.identities_eq_map]
    exact ofInstance_ne h _

/-- A type that drawing takes. -/
def drawingType (name : String) : TypeRef :=
  .named (.ofString name) .classType (.assembly "Lib") false none none 0

/-- An overload of `Lib.Canvas::Draw`, whose second of three parameters is of the type given. -/
def drawOverload (shape : String) : MethodRef where
  declaring := drawingType "Lib.Canvas"
  name := .ofString "Draw"
  returns := drawingType "System.Void"
  params := [drawingType "Lib.Pen", drawingType shape, drawingType "Lib.Brush"]
  attributes := default
  definition := none

theorem drawOverload_differOnce :
    DifferOnce ((drawOverload "Lib.Line").params.map TypeRef.identity)
      ((drawOverload "Lib.Oval").params.map TypeRef.identity) :=
  .of_ne [(drawingType "Lib.Pen").identity] [(drawingType "Lib.Brush").identity]
    (by decide +kernel)

/-- A constructor with the parameters of a method. -/
def constructorLike (m : MethodRef) : ConstructorRef := ⟨m.declaring, m.params, false, none⟩

/-- Lines and ovals are drawn by different methods. The same types also make different
constructors, and different instances of any generic type. -/
theorem single_difference_kept_lineOval :
    DifferOnce ((drawOverload "Lib.Line").params.map TypeRef.identity)
      ((drawOverload "Lib.Oval").params.map TypeRef.identity) ∧
    (drawOverload "Lib.Line").identity ≠ (drawOverload "Lib.Oval").identity ∧
    (constructorLike (drawOverload "Lib.Line")).identity ≠
      (constructorLike (drawOverload "Lib.Oval")).identity ∧
    (∀ definition, (TypeRef.generic definition (drawOverload "Lib.Line").params 0).identity ≠
      (TypeRef.generic definition (drawOverload "Lib.Oval").params 1).identity) ∧
    ∀ owner name,
      ofMethod owner name ((drawOverload "Lib.Line").params.map TypeRef.identity) ≠
        ofMethod owner name ((drawOverload "Lib.Oval").params.map TypeRef.identity) := by
  obtain ⟨-, hlists, hmethods, hconstructors, hinstances⟩ := single_difference_kept
  exact ⟨drawOverload_differOnce, hmethods _ _ rfl rfl drawOverload_differOnce,
    hconstructors _ _ rfl rfl drawOverload_differOnce,
    fun definition => hinstances definition _ _ 0 1 drawOverload_differOnce,
    (hlists _ _ drawOverload_differOnce).2.1⟩

end MarkupLowering

import MarkupLowering.Error

/-!
# MarkupLowering.LabelTable

The **labels of one method body**.

Marking a label stages it; the next instruction binds all staged labels. A label may be marked
again, which moves every branch to it. Labels still staged when the body ends lose their binding.
-/

namespace MarkupLowering

/-- Labels and what they are bound to. -/
structure LabelTable where
  /-- The instruction of each label, by its id. -/
  bindings : Array (Option Nat) := #[]
  /-- Labels that wait for the next instruction. -/
  staged : List Label := []
  deriving Inhabited

namespace LabelTable

def empty : LabelTable := {}

/-- A new label, bound to nothing. -/
def define (t : LabelTable) : Label × LabelTable :=
  (⟨t.bindings.size⟩, { t with bindings := t.bindings.push none })

/-- Whether the table defined a label. -/
def knows (t : LabelTable) (l : Label) : Bool := l.id < t.bindings.size

/-- Stages a label. -/
def stage (t : LabelTable) (l : Label) : LabelTable :=
  if t.staged.contains l then t else { t with staged := t.staged ++ [l] }

/-- Gives every staged label the same binding and stages none. -/
def settle (t : LabelTable) (binding : Option Nat) : LabelTable :=
  { bindings := t.staged.foldl (fun bs l => bs.setIfInBounds l.id binding) t.bindings
    staged := [] }

/-- Binds every staged label to an instruction. -/
def bindStaged (t : LabelTable) (instruction : Nat) : LabelTable := t.settle (some instruction)

/-- Takes every staged label's binding away. -/
def unbindStaged (t : LabelTable) : LabelTable := t.settle none

/-- The instruction that a label is bound to. -/
def resolve (t : LabelTable) (l : Label) : Option Nat := (t.bindings[l.id]?).join

/-! ### Lemmas -/

theorem knows_iff {t : LabelTable} {l : Label} : t.knows l = true ↔ l.id < t.bindings.size := by
  simp [knows]

@[simp] theorem bindings_stage (t : LabelTable) (l : Label) :
    (t.stage l).bindings = t.bindings := by
  unfold stage
  split <;> rfl

theorem mem_staged_stage {t : LabelTable} {l k : Label} :
    k ∈ (t.stage l).staged ↔ k ∈ t.staged ∨ k = l := by
  unfold stage
  split
  · rename_i h
    have hl : l ∈ t.staged := by simpa using h
    exact ⟨Or.inl, fun hk => hk.elim id fun e => e ▸ hl⟩
  · simp

@[simp] theorem staged_settle (t : LabelTable) (b : Option Nat) : (t.settle b).staged = [] := rfl

/-- Giving some labels a binding changes theirs only. -/
theorem getElem?_setAll (ls : List Label) (bs : Array (Option Nat)) (b : Option Nat) (i : Nat) :
    (ls.foldl (fun bs l => bs.setIfInBounds l.id b) bs)[i]? =
      if i < bs.size ∧ ⟨i⟩ ∈ ls then some b else bs[i]? := by
  induction ls generalizing bs with
  | nil => simp
  | cons l ls ih =>
    rw [List.foldl_cons, ih, Array.size_setIfInBounds, Array.getElem?_setIfInBounds]
    by_cases hi : i < bs.size
    · by_cases hl : l.id = i
      · obtain rfl : l = ⟨i⟩ := by cases l; simp_all
        simp [hi]
      · have hne : (⟨i⟩ : Label) ≠ l := fun e => hl (by rw [← e])
        simp [hi, hl, hne]
    · simp [hi]
      omega

/-- Settling gives every staged label the binding and leaves the others as they were. -/
theorem resolve_settle (t : LabelTable) (b : Option Nat) (l : Label) :
    (t.settle b).resolve l = if t.knows l = true ∧ l ∈ t.staged then b else t.resolve l := by
  unfold resolve settle
  rw [getElem?_setAll]
  by_cases h : l.id < t.bindings.size ∧ l ∈ t.staged
  · rw [if_pos h, if_pos ⟨knows_iff.mpr h.1, h.2⟩]
    rfl
  · rw [if_neg h, if_neg fun hk => h ⟨knows_iff.mp hk.1, hk.2⟩]

end LabelTable

end MarkupLowering

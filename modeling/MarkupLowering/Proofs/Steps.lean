import MarkupLowering.Atomic

/-!
# MarkupLowering.Proofs.Steps

Taking steps on a state **apart**.

* A step that succeeded splits into the successes it is made of (`bind_inv` and its companions),
  so proofs about lowering and emission open a `do` block one line at a time.
* A property of states that a step keeps, **however it ends** (`Keeps`), is kept by what is built
  from such steps. A failing step may leave a changed state behind, so success alone says too
  little about the states that can be reached.
* Two steps are **in step** with respect to a relation of states (`InStep`) if they return the same
  from related states and lead to related ones. This, too, holds of what is built from such steps.
-/

namespace MarkupLowering

variable {ε σ α β : Type}

/-! ### Inverting success -/

/-- The workhorse: a sequence succeeds through an intermediate state. -/
theorem bind_inv {m : EStateM ε σ α} {f : α → EStateM ε σ β} {s s' : σ} {b : β}
    (h : (m >>= f) s = .ok b s') : ∃ a s₁, m s = .ok a s₁ ∧ f a s₁ = .ok b s' := by
  simp only [Bind.bind, EStateM.bind] at h
  split at h
  · rename_i a s₁ hm
    exact ⟨a, s₁, hm, h⟩
  · cases h

theorem pure_inv {a b : α} {s s' : σ} (h : (pure a : EStateM ε σ α) s = .ok b s') :
    b = a ∧ s' = s := by
  injection h with ha hs
  exact ⟨ha.symm, hs.symm⟩

/-- A sequence fails in its first part or in its second. -/
theorem bind_error {m : EStateM ε σ α} {f : α → EStateM ε σ β} {s s' : σ} {e : ε}
    (h : (m >>= f) s = .error e s') :
    m s = .error e s' ∨ ∃ a s₁, m s = .ok a s₁ ∧ f a s₁ = .error e s' := by
  simp only [Bind.bind, EStateM.bind] at h
  split at h
  · rename_i a s₁ hm
    exact Or.inr ⟨a, s₁, hm, h⟩
  · cases h
    exact Or.inl ‹_›

/-- Reading the state first is a function of the state. -/
theorem get_bind (f : σ → EStateM ε σ α) (s : σ) : (get >>= f) s = f s s := rfl

/-- Changing the state first. -/
theorem modify_bind (g : σ → σ) (f : PUnit → EStateM ε σ α) (s : σ) :
    (modify g >>= f) s = f ⟨⟩ (g s) := rfl

/-! ### Properties kept on every exit -/

/-- The state that a result carries. -/
def Result.state : EStateM.Result ε σ α → σ
  | .ok _ s => s
  | .error _ s => s

@[simp] theorem Result.state_error (e : ε) (s : σ) :
    Result.state (.error e s : EStateM.Result ε σ α) = s := rfl

/-- The error of a result. -/
def Result.error? : EStateM.Result ε σ α → Option ε
  | .ok _ _ => none
  | .error e _ => some e

theorem Result.eq_error {r : EStateM.Result ε σ α} {e : ε} (h : Result.error? r = some e) :
    r = .error e (Result.state r) := by
  cases r with
  | ok a s => cases h
  | error e' s =>
    cases h
    rfl

theorem Result.eq_ok {r : EStateM.Result ε σ α} (h : Result.error? r = none) :
    ∃ a, r = .ok a (Result.state r) := by
  cases r with
  | ok a s => exact ⟨a, rfl⟩
  | error e s => cases h

/-- What a result returns. -/
def Result.outcome : EStateM.Result ε σ α → Except ε α
  | .ok a _ => .ok a
  | .error e _ => .error e

/-- The step keeps a property of the state, whether it succeeds or fails. -/
def Keeps (I : σ → Prop) (m : EStateM ε σ α) : Prop := ∀ s, I s → I (Result.state (m s))

namespace Keeps

variable {I : σ → Prop}

theorem ok {m : EStateM ε σ α} {s s' : σ} {a : α} (h : Keeps I m) (hs : I s)
    (hm : m s = .ok a s') : I s' := by
  have hkeeps := h s hs
  rw [hm] at hkeeps
  exact hkeeps

theorem pure (a : α) : Keeps I (Pure.pure a : EStateM ε σ α) := fun _ h => h

theorem throw (e : ε) : Keeps I (MonadExcept.throw e : EStateM ε σ α) := fun _ h => h

theorem bind {m : EStateM ε σ α} {f : α → EStateM ε σ β} (hm : Keeps I m)
    (hf : ∀ a, Keeps I (f a)) : Keeps I (m >>= f) := by
  intro s hs
  have h := hm s hs
  simp only [Bind.bind, EStateM.bind]
  cases hr : m s with
  | ok a s₁ =>
    rw [hr] at h
    exact hf a s₁ h
  | error e s₁ =>
    rw [hr] at h
    exact h

/-- A step that depends on the state it starts from. -/
theorem get_bind {f : σ → EStateM ε σ α} (hf : ∀ s, I s → I (Result.state (f s s))) :
    Keeps I (get >>= f) := fun s hs => hf s hs

end Keeps

/-! ### Two runs in step -/

/-- Two results that return the same, or the same error, with related states. -/
inductive Result.Same (R : σ → σ → Prop) : EStateM.Result ε σ α → EStateM.Result ε σ α → Prop
  | ok (a : α) {s s' : σ} : R s s' → Same R (.ok a s) (.ok a s')
  | error (e : ε) {s s' : σ} : R s s' → Same R (.error e s) (.error e s')

theorem Result.Same.ok_inv {R : σ → σ → Prop} {a b : α} {s s' : σ}
    (h : Same R (.ok a s : EStateM.Result ε σ α) (.ok b s')) : a = b ∧ R s s' := by
  cases h with
  | ok _ h => exact ⟨rfl, h⟩

theorem Result.Same.outcome_eq {R : σ → σ → Prop} {r r' : EStateM.Result ε σ α}
    (h : Same R r r') : outcome r' = outcome r ∧ R (state r) (state r') := by
  cases h with
  | ok _ h | error _ h => exact ⟨rfl, h⟩

/-- Two steps that return the same from related states, and lead to related states. -/
def InStep (R : σ → σ → Prop) (m m' : EStateM ε σ α) : Prop :=
  ∀ s s', R s s' → Result.Same R (m s) (m' s')

namespace InStep

variable {R : σ → σ → Prop}

protected theorem pure (a : α) : InStep R (Pure.pure a : EStateM ε σ α) (Pure.pure a) :=
  fun _ _ h => .ok a h

protected theorem throw (e : ε) : InStep R (throw e : EStateM ε σ α) (throw e) :=
  fun _ _ h => .error e h

theorem bind {m m' : EStateM ε σ α} {f f' : α → EStateM ε σ β} (h : InStep R m m')
    (hf : ∀ a, InStep R (f a) (f' a)) : InStep R (m >>= f) (m' >>= f') := by
  intro s s' hs
  have hfirst := h s s' hs
  simp only [Bind.bind, EStateM.bind]
  generalize m s = r at hfirst
  generalize m' s' = r' at hfirst
  cases hfirst with
  | ok a hs₁ => exact hf a _ _ hs₁
  | error e hs₁ => exact .error e hs₁

/-- Steps are in step if they are when their values are returned in some form. -/
theorem of_andPure {m m' : EStateM ε σ α} {g : α → β} (hg : ∀ a b, g a = g b → a = b)
    (h : InStep R (do let a ← m; Pure.pure (g a)) (do let a ← m'; Pure.pure (g a))) :
    InStep R m m' := by
  intro s s' hs
  have hboth := h s s' hs
  simp only [Bind.bind, EStateM.bind] at hboth
  cases hm : m s with
  | ok a s₁ =>
    cases hm' : m' s' with
    | ok b s₁' =>
      rw [hm, hm'] at hboth
      obtain ⟨hvalue, hs₁⟩ := hboth.ok_inv
      rw [hg a b hvalue]
      exact .ok b hs₁
    | error e s₁' =>
      rw [hm, hm'] at hboth
      cases hboth
  | error e s₁ =>
    cases hm' : m' s' with
    | ok b s₁' =>
      rw [hm, hm'] at hboth
      cases hboth
    | error e' s₁' =>
      rw [hm, hm'] at hboth
      cases hboth with
      | error _ hs₁ => exact .error e hs₁

end InStep

end MarkupLowering

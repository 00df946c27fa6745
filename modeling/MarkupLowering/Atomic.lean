/-!
# MarkupLowering.Atomic

Steps on a state that may fail. In `EStateM` a failing step may leave a changed state behind; an
**atomic** step does not, and a **total** step never fails. A step that is atomic up to its last
possible failure is atomic (`Atomic.bind_total`).
-/

namespace MarkupLowering

variable {ε σ α β : Type}

/-- When the step fails, the state is as it was. -/
def Atomic (m : EStateM ε σ α) : Prop := ∀ s e s', m s = .error e s' → s' = s

/-- The step does not fail. -/
def Total (m : EStateM ε σ α) : Prop := ∀ s e s', m s ≠ .error e s'

theorem Total.atomic {m : EStateM ε σ α} (h : Total m) : Atomic m :=
  fun s e s' hm => absurd hm (h s e s')

theorem total_pure (a : α) : Total (pure a : EStateM ε σ α) := fun _ _ _ h => by cases h

theorem atomic_pure (a : α) : Atomic (pure a : EStateM ε σ α) := (total_pure a).atomic

theorem total_get : Total (get : EStateM ε σ σ) := fun _ _ _ h => by cases h

theorem total_modify (f : σ → σ) : Total (modify f : EStateM ε σ PUnit) := fun _ _ _ h => by cases h

theorem atomic_throw (e : ε) : Atomic (throw e : EStateM ε σ α) := by
  intro s e' s' h
  injection h with _ hs
  exact hs.symm

theorem Total.bind {m : EStateM ε σ α} {f : α → EStateM ε σ β} (hm : Total m)
    (hf : ∀ a, Total (f a)) : Total (m >>= f) := by
  intro s e s' h
  simp only [Bind.bind, EStateM.bind] at h
  split at h
  · exact hf _ _ _ _ h
  · rename_i hs
    exact hm _ _ _ hs

/-- After an atomic step, steps that do not fail keep it atomic. -/
theorem Atomic.bind_total {m : EStateM ε σ α} {f : α → EStateM ε σ β} (hm : Atomic m)
    (hf : ∀ a, Total (f a)) : Atomic (m >>= f) := by
  intro s e s' h
  simp only [Bind.bind, EStateM.bind] at h
  split at h
  · exact absurd h (hf _ _ _ _)
  · rename_i hs
    injection h with he hs'
    subst he hs'
    exact hm _ _ _ hs

/-- A check that changes nothing may stand in front of an atomic step. -/
theorem Atomic.bind_of_pure {m : EStateM ε σ α} {f : α → EStateM ε σ β} (hm : Atomic m)
    (hp : ∀ s a s', m s = .ok a s' → s' = s) (hf : ∀ a, Atomic (f a)) : Atomic (m >>= f) := by
  intro s e s' h
  simp only [Bind.bind, EStateM.bind] at h
  split at h
  · rename_i a s₁ hs
    rw [hp _ _ _ hs] at h
    exact hf a _ _ _ h
  · rename_i hs
    injection h with he hs'
    subst he hs'
    exact hm _ _ _ hs

end MarkupLowering

/-!
# Runs that mirror each other

Two computations run side by side, from states that are related in some way. If each of their steps
comes to the same result on both sides and to related states again, then so do the computations.

## Main definitions

* `Mirrors` — two computations with the same result, from related states to related states
-/

namespace ClientTypes

variable {σ α β ι : Type} {R : σ → σ → Prop}

/-- From related states both computations come to the same result and to related states. -/
def Mirrors (R : σ → σ → Prop) (m₁ m₂ : StateM σ α) : Prop :=
  ∀ s₁ s₂, R s₁ s₂ → (m₁.run s₁).1 = (m₂.run s₂).1 ∧ R (m₁.run s₁).2 (m₂.run s₂).2

namespace Mirrors

variable {m₁ m₂ : StateM σ α}

theorem pure (a : α) : Mirrors R (Pure.pure a) (Pure.pure a) := fun _ _ h => ⟨rfl, h⟩

theorem bind {f₁ f₂ : α → StateM σ β} (h : Mirrors R m₁ m₂) (hf : ∀ a, Mirrors R (f₁ a) (f₂ a)) :
    Mirrors R (m₁ >>= f₁) (m₂ >>= f₂) := by
  intro s₁ s₂ hs
  obtain ⟨heq, hs'⟩ := h s₁ s₂ hs
  rw [StateT.run_bind, StateT.run_bind]
  change (((f₁ (m₁.run s₁).1).run _).1 = _) ∧ R ((f₁ (m₁.run s₁).1).run _).2 _
  rw [heq]
  exact hf _ _ _ hs'

theorem map (f : α → β) (h : Mirrors R m₁ m₂) : Mirrors R (f <$> m₁) (f <$> m₂) := by
  intro s₁ s₂ hs
  obtain ⟨heq, hs'⟩ := h s₁ s₂ hs
  exact ⟨congrArg f heq, hs'⟩

/-- A look at the state, at something that related states have in common. -/
theorem read {g₁ g₂ : σ → α} (h : ∀ s₁ s₂, R s₁ s₂ → g₁ s₁ = g₂ s₂) :
    Mirrors R (get >>= fun s => Pure.pure (g₁ s)) (get >>= fun s => Pure.pure (g₂ s)) :=
  fun s₁ s₂ hs => ⟨h s₁ s₂ hs, hs⟩

theorem update {f₁ f₂ : σ → σ} (h : ∀ s₁ s₂, R s₁ s₂ → R (f₁ s₁) (f₂ s₂)) :
    Mirrors R (modify f₁) (modify f₂) :=
  fun s₁ s₂ hs => ⟨rfl, h s₁ s₂ hs⟩

/-- The same choice on both sides. -/
theorem ite {p₁ p₂ : Prop} [Decidable p₁] [Decidable p₂] {n₁ n₂ : StateM σ α} (hp : p₁ ↔ p₂)
    (h : Mirrors R m₁ m₂) (h' : Mirrors R n₁ n₂) :
    Mirrors R (if p₁ then m₁ else n₁) (if p₂ then m₂ else n₂) := by
  by_cases hp₁ : p₁
  · rwa [if_pos hp₁, if_pos (hp.1 hp₁)]
  · rwa [if_neg hp₁, if_neg (mt hp.2 hp₁)]

theorem mapM {f₁ f₂ : ι → StateM σ α} (is : List ι) (h : ∀ i ∈ is, Mirrors R (f₁ i) (f₂ i)) :
    Mirrors R (is.mapM f₁) (is.mapM f₂) := by
  induction is with
  | nil => exact pure []
  | cons i is ih =>
    rw [List.mapM_cons, List.mapM_cons]
    refine bind (h i (by simp)) fun a => ?_
    exact bind (ih fun j hj => h j (by simp [hj])) fun as => pure (a :: as)

end Mirrors

end ClientTypes

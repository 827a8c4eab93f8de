import ClientTypes.Proofs.Law

/-!
# Two runs side by side

Two computations run from two states and end with related results. The runs do not share a state;
each keeps the same law on its own side. The rules follow those of `Law.Keeps`.

## Main definitions

* `Law.Twin` — two computations that keep a law and have related results
-/

namespace ClientTypes

namespace Law

variable {σ α β γ δ : Type} {L : Law σ} {pre₁ pre₂ : σ → Prop}

/-- From states with the invariant and their preconditions, both computations keep the law, and
`ok` relates their results in the states where they end. -/
def Twin (L : Law σ) (pre₁ pre₂ : σ → Prop) (m₁ : StateM σ α) (m₂ : StateM σ β)
    (ok : α → β → σ → σ → Prop) : Prop :=
  ∀ s₁ s₂, L.inv s₁ → L.inv s₂ → pre₁ s₁ → pre₂ s₂ →
    (L.inv (m₁.run s₁).2 ∧ L.le s₁ (m₁.run s₁).2) ∧ (L.inv (m₂.run s₂).2 ∧ L.le s₂ (m₂.run s₂).2) ∧
      ok (m₁.run s₁).1 (m₂.run s₂).1 (m₁.run s₁).2 (m₂.run s₂).2

namespace Twin

variable {m₁ : StateM σ α} {m₂ : StateM σ β} {ok : α → β → σ → σ → Prop} {R : α → β → Prop}

theorem weaken {ok' : α → β → σ → σ → Prop} (h : L.Twin pre₁ pre₂ m₁ m₂ ok)
    (hok : ∀ a b s₁ s₂, L.inv s₁ → L.inv s₂ → ok a b s₁ s₂ → ok' a b s₁ s₂) :
    L.Twin pre₁ pre₂ m₁ m₂ ok' := by
  intro s₁ s₂ hs₁ hs₂ hp₁ hp₂
  obtain ⟨h₁, h₂, h⟩ := h s₁ s₂ hs₁ hs₂ hp₁ hp₂
  exact ⟨h₁, h₂, hok _ _ _ _ h₁.1 h₂.1 h⟩

/-- Each side on its own, and a relation between what is known of either. -/
theorem of_keeps {ok₁ : α → σ → Prop} {ok₂ : β → σ → Prop} (h₁ : L.Keeps pre₁ m₁ ok₁)
    (h₂ : L.Keeps pre₂ m₂ ok₂)
    (hok : ∀ a b s₁ s₂, L.inv s₁ → L.inv s₂ → ok₁ a s₁ → ok₂ b s₂ → ok a b s₁ s₂) :
    L.Twin pre₁ pre₂ m₁ m₂ ok := by
  intro s₁ s₂ hs₁ hs₂ hp₁ hp₂
  obtain ⟨hi₁, hle₁, ha⟩ := h₁ s₁ hs₁ hp₁
  obtain ⟨hi₂, hle₂, hb⟩ := h₂ s₂ hs₂ hp₂
  exact ⟨⟨hi₁, hle₁⟩, ⟨hi₂, hle₂⟩, hok _ _ _ _ hi₁ hi₂ ha hb⟩

theorem pure {a : α} {b : β} (h : R a b) :
    L.Twin pre₁ pre₂ (Pure.pure a) (Pure.pure b) fun a b _ _ => R a b :=
  fun s₁ s₂ hs₁ hs₂ _ _ => ⟨⟨hs₁, L.refl s₁⟩, ⟨hs₂, L.refl s₂⟩, h⟩

/-- One step after another on both sides. -/
theorem bind {f₁ : α → StateM σ γ} {f₂ : β → StateM σ δ} {ok' : γ → δ → σ → σ → Prop}
    (hpre₁ : L.Stable pre₁) (hpre₂ : L.Stable pre₂)
    (h : L.Twin pre₁ pre₂ m₁ m₂ fun a b _ _ => R a b)
    (hf : ∀ a b, R a b → L.Twin pre₁ pre₂ (f₁ a) (f₂ b) ok') :
    L.Twin pre₁ pre₂ (m₁ >>= f₁) (m₂ >>= f₂) ok' := by
  intro s₁ s₂ hs₁ hs₂ hp₁ hp₂
  obtain ⟨⟨hi₁, hle₁⟩, ⟨hi₂, hle₂⟩, hab⟩ := h s₁ s₂ hs₁ hs₂ hp₁ hp₂
  obtain ⟨⟨hi₁', hle₁'⟩, ⟨hi₂', hle₂'⟩, hok⟩ :=
    hf _ _ hab _ _ hi₁ hi₂ (hpre₁ hi₁ hle₁ hp₁) (hpre₂ hi₂ hle₂ hp₂)
  exact ⟨⟨hi₁', L.trans hle₁ hle₁'⟩, ⟨hi₂', L.trans hle₂ hle₂'⟩, hok⟩

/-- A step on both sides, and then a look at the states where it ends. -/
theorem bind_read {f₁ : α → σ → γ} {f₂ : β → σ → δ} {T : γ → δ → Prop}
    (h : L.Twin pre₁ pre₂ m₁ m₂ ok)
    (hf : ∀ a b s₁ s₂, L.inv s₁ → L.inv s₂ → ok a b s₁ s₂ → T (f₁ a s₁) (f₂ b s₂)) :
    L.Twin pre₁ pre₂ (m₁ >>= fun a => get >>= fun s => Pure.pure (f₁ a s))
      (m₂ >>= fun b => get >>= fun s => Pure.pure (f₂ b s)) fun c d _ _ => T c d := by
  intro s₁ s₂ hs₁ hs₂ hp₁ hp₂
  obtain ⟨h₁, h₂, hok⟩ := h s₁ s₂ hs₁ hs₂ hp₁ hp₂
  exact ⟨h₁, h₂, hf _ _ _ _ h₁.1 h₂.1 hok⟩

theorem map {f₁ : α → γ} {f₂ : β → δ} {ok' : γ → δ → σ → σ → Prop}
    (h : L.Twin pre₁ pre₂ m₁ m₂ ok)
    (hf : ∀ a b s₁ s₂, ok a b s₁ s₂ → ok' (f₁ a) (f₂ b) s₁ s₂) :
    L.Twin pre₁ pre₂ (f₁ <$> m₁) (f₂ <$> m₂) ok' := by
  intro s₁ s₂ hs₁ hs₂ hp₁ hp₂
  obtain ⟨h₁, h₂, hok⟩ := h s₁ s₂ hs₁ hs₂ hp₁ hp₂
  exact ⟨h₁, h₂, hf _ _ _ _ hok⟩

/-- The same list on both sides. -/
theorem mapM {ι : Type} {f₁ : ι → StateM σ α} {f₂ : ι → StateM σ β} (hpre₁ : L.Stable pre₁)
    (hpre₂ : L.Stable pre₂) (is : List ι)
    (h : ∀ i ∈ is, L.Twin pre₁ pre₂ (f₁ i) (f₂ i) fun a b _ _ => R a b) :
    L.Twin pre₁ pre₂ (is.mapM f₁) (is.mapM f₂) fun as bs _ _ => List.Forall₂ R as bs := by
  induction is with
  | nil => exact pure .nil
  | cons i is ih =>
    rw [List.mapM_cons, List.mapM_cons]
    refine bind hpre₁ hpre₂ (h i (by simp)) fun a b hab => ?_
    refine bind hpre₁ hpre₂ (ih fun j hj => h j (by simp [hj])) fun as bs hs => ?_
    exact pure (.cons hab hs)

end Twin

end Law

end ClientTypes

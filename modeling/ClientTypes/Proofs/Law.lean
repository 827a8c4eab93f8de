import Mathlib.Data.List.Forall2

/-!
# Laws of stateful computations

A law is an invariant of a state together with an order in which the state only grows. A
computation keeps it if it takes every state with the invariant to a larger one with the invariant.
Facts that survive growth are stable; what holds of the result of one step is then still known
after the next ones, so that the rules below chain without repeating anything.

## Main definitions

* `Law` — an invariant and an order of growth
* `Law.Stable` — facts that survive growth
* `Law.Keeps` — a computation that keeps a law, with a precondition and what holds of its result
* `Law.Yields` — the same without a precondition, and whatever the state of the result
-/

namespace ClientTypes

theorem exists_of_mem_right {α β : Type} {R : α → β → Prop} {as : List α} {bs : List β}
    (h : List.Forall₂ R as bs) {b : β} (hb : b ∈ bs) : ∃ a ∈ as, R a b := by
  induction h with
  | nil => simp at hb
  | @cons a b' _ _ hab _ ih =>
    rcases List.mem_cons.1 hb with rfl | hb
    · exact ⟨a, by simp, hab⟩
    · obtain ⟨x, hx, hxb⟩ := ih hb
      exact ⟨x, List.mem_cons_of_mem a hx, hxb⟩

theorem exists_of_mem_left {α β : Type} {R : α → β → Prop} {as : List α} {bs : List β}
    (h : List.Forall₂ R as bs) {a : α} (ha : a ∈ as) : ∃ b ∈ bs, R a b :=
  exists_of_mem_right h.flip ha

/-- An invariant of a state, and an order in which the state only grows. -/
structure Law (σ : Type) where
  inv : σ → Prop
  le : σ → σ → Prop
  refl : ∀ s, le s s
  trans : ∀ {s t u}, le s t → le t u → le s u

namespace Law

variable {σ α β : Type} {L : Law σ} {pre pre' : σ → Prop}

/-- Facts that survive growth. -/
def Stable (L : Law σ) (p : σ → Prop) : Prop := ∀ ⦃s t⦄, L.inv t → L.le s t → p s → p t

theorem Stable.and {p q : σ → Prop} (hp : L.Stable p) (hq : L.Stable q) :
    L.Stable fun s => p s ∧ q s :=
  fun _ _ ht hle h => ⟨hp ht hle h.1, hq ht hle h.2⟩

theorem stable_const (p : Prop) : L.Stable fun _ => p := fun _ _ _ _ h => h

/-- From a state with the invariant and `pre` the computation ends in a larger state with the
invariant, and with a result that is `ok` there. -/
def Keeps (L : Law σ) (pre : σ → Prop) (act : StateM σ α) (ok : α → σ → Prop) : Prop :=
  ∀ s, L.inv s → pre s →
    L.inv (act.run s).2 ∧ L.le s (act.run s).2 ∧ ok (act.run s).1 (act.run s).2

namespace Keeps

variable {act : StateM σ α} {ok : α → σ → Prop}

theorem mono {ok' : α → σ → Prop} (h : L.Keeps pre act ok) (hpre : ∀ s, pre' s → pre s)
    (hok : ∀ a s, L.inv s → ok a s → ok' a s) : L.Keeps pre' act ok' := by
  intro s hs hp
  obtain ⟨hinv, hle, h⟩ := h s hs (hpre s hp)
  exact ⟨hinv, hle, hok _ _ hinv h⟩

theorem weaken {ok' : α → σ → Prop} (h : L.Keeps pre act ok)
    (hok : ∀ a s, L.inv s → ok a s → ok' a s) : L.Keeps pre act ok' :=
  h.mono (fun _ hs => hs) hok

/-- Two facts about one result. -/
theorem and {ok' : α → σ → Prop} (h : L.Keeps pre act ok) (h' : L.Keeps pre act ok') :
    L.Keeps pre act fun a s => ok a s ∧ ok' a s := by
  intro s hs hp
  obtain ⟨hinv, hle, hok⟩ := h s hs hp
  exact ⟨hinv, hle, hok, (h' s hs hp).2.2⟩

/-- What held before a computation holds after it, if it is stable. -/
theorem under (h : L.Keeps pre act ok) {p : σ → Prop} (hp : L.Stable p) :
    L.Keeps (fun s => pre s ∧ p s) act fun a s => ok a s ∧ p s := by
  intro s hs hpr
  obtain ⟨hinv, hle, h⟩ := h s hs hpr.1
  exact ⟨hinv, hle, h, hp hinv hle hpr.2⟩

theorem pure {a : α} (h : ∀ s, L.inv s → pre s → ok a s) : L.Keeps pre (Pure.pure a) ok :=
  fun s hs hp => ⟨hs, L.refl s, h s hs hp⟩

/-- One step after another. The precondition is stable, so the second step may rely on it too. -/
theorem bind {f : α → StateM σ β} {ok' : β → σ → Prop} (hpre : L.Stable pre)
    (h : L.Keeps pre act ok) (hf : ∀ a, L.Keeps (fun s => pre s ∧ ok a s) (f a) ok') :
    L.Keeps pre (act >>= f) ok' := by
  intro s hs hp
  obtain ⟨hinv, hle, hok⟩ := h s hs hp
  obtain ⟨hinv', hle', hok'⟩ := hf _ _ hinv ⟨hpre hinv hle hp, hok⟩
  exact ⟨hinv', L.trans hle hle', hok'⟩

theorem map {f : α → β} {ok' : β → σ → Prop} (h : L.Keeps pre act ok)
    (hf : ∀ a s, L.inv s → ok a s → ok' (f a) s) : L.Keeps pre (f <$> act) ok' := by
  intro s hs hp
  obtain ⟨hinv, hle, hok⟩ := h s hs hp
  exact ⟨hinv, hle, hf _ _ hinv hok⟩

/-- A look at the state changes nothing, and what follows may use what was seen. -/
theorem read {f : σ → StateM σ β} {ok : β → σ → Prop}
    (h : ∀ s₀, L.Keeps (fun s => pre s ∧ s = s₀) (f s₀) ok) : L.Keeps pre (get >>= f) ok :=
  fun s hs hp => h s s hs ⟨hp, rfl⟩

/-- One computation for each member of a list. Each result is related to its member, and stays so
while the next ones are computed. -/
theorem mapM {f : α → StateM σ β} {ok : α → β → σ → Prop} (hpre : L.Stable pre)
    (hok : ∀ a b, L.Stable (ok a b)) (as : List α) (h : ∀ a ∈ as, L.Keeps pre (f a) (ok a)) :
    L.Keeps pre (as.mapM f) fun bs s => List.Forall₂ (ok · · s) as bs := by
  induction as with
  | nil => exact pure fun _ _ _ => .nil
  | cons a as ih =>
    rw [List.mapM_cons]
    refine bind hpre (h a (by simp)) fun b => ?_
    have hrest := (ih fun x hx => h x (by simp [hx])).under (hok a b)
    refine bind (hpre.and (hok a b)) hrest fun bs => ?_
    exact pure fun s _ hs => .cons hs.2.2 hs.2.1

/-- The same where what holds of a result does not depend on its member. -/
theorem mapM_forall {f : α → StateM σ β} {ok : β → σ → Prop} (hpre : L.Stable pre)
    (hok : ∀ b, L.Stable (ok b)) (as : List α) (h : ∀ a ∈ as, L.Keeps pre (f a) ok) :
    L.Keeps pre (as.mapM f) fun bs s => ∀ b ∈ bs, ok b s := by
  refine (mapM hpre (fun _ => hok) as h).weaken fun bs s _ hbs b hb => ?_
  obtain ⟨a, -, hab⟩ := exists_of_mem_right hbs hb
  exact hab

end Keeps

/-! ## Results that do not depend on the state -/

/-- From any state with the invariant the computation keeps the law, and its result has a
property. -/
def Yields (L : Law σ) (act : StateM σ α) (p : α → Prop) : Prop :=
  L.Keeps (fun _ => True) act fun a _ => p a

namespace Yields

variable {act : StateM σ α} {p : α → Prop} {q : β → Prop}

theorem pure {a : α} (h : p a) : L.Yields (Pure.pure a) p := Keeps.pure fun _ _ _ => h

theorem bind {f : α → StateM σ β} (h : L.Yields act p) (hf : ∀ a, p a → L.Yields (f a) q) :
    L.Yields (act >>= f) q :=
  Keeps.bind (stable_const True) h fun a s hs hp => hf a hp.2 s hs trivial

theorem map {f : α → β} (h : L.Yields act p) (hf : ∀ a, p a → q (f a)) : L.Yields (f <$> act) q :=
  Keeps.map h fun a _ _ => hf a

theorem read {f : σ → α} (h : ∀ s, L.inv s → p (f s)) :
    L.Yields (get >>= fun s => Pure.pure (f s)) p :=
  Keeps.read fun s => Keeps.pure fun _ hs hp => h s (hp.2 ▸ hs)

theorem mapM {f : α → StateM σ β} (as : List α) (h : ∀ a ∈ as, L.Yields (f a) q) :
    L.Yields (as.mapM f) fun bs => ∀ b ∈ bs, q b :=
  Keeps.mapM_forall (stable_const True) (fun b => stable_const (q b)) as h

end Yields

end Law

end ClientTypes

/-!
# Distinct and sorted lists

Collections whose answers are listed in a fixed order: the first entry of each key in the order of
appearance, and text without repetitions in ascending order.

## Main definitions

* `distinctOn` — keeps the first entry of each key
* `sortedSet` — distinct text in ascending order
-/

namespace ClientTypes

variable {α κ : Type} [DecidableEq κ]

/-- The entries whose key no earlier entry has. -/
def distinctOn (key : α → κ) : List α → List α
  | [] => []
  | x :: xs => x :: (distinctOn key xs).filter (key · ≠ key x)

theorem distinctOn_sublist (key : α → κ) (xs : List α) : (distinctOn key xs).Sublist xs := by
  induction xs with
  | nil => exact .slnil
  | cons x xs ih => exact ((List.filter_sublist).trans ih).cons_cons x

theorem mem_of_mem_distinctOn {key : α → κ} {xs : List α} {x : α} (h : x ∈ distinctOn key xs) :
    x ∈ xs :=
  (distinctOn_sublist key xs).subset h

@[simp] theorem mem_map_distinctOn {key : α → κ} {xs : List α} {k : κ} :
    k ∈ (distinctOn key xs).map key ↔ k ∈ xs.map key := by
  induction xs with
  | nil => simp [distinctOn]
  | cons x xs ih =>
    simp only [distinctOn, List.map_cons, List.mem_cons, ← ih]
    by_cases h : k = key x
    · simp [h]
    · simp only [h, false_or, List.mem_map, List.mem_filter, ne_eq, decide_not,
        Bool.not_eq_eq_eq_not, Bool.not_true, decide_eq_false_iff_not]
      constructor
      · rintro ⟨a, ⟨ha, -⟩, rfl⟩
        exact ⟨a, ha, rfl⟩
      · rintro ⟨a, ha, rfl⟩
        exact ⟨a, ⟨ha, h⟩, rfl⟩

theorem nodup_map_distinctOn (key : α → κ) (xs : List α) : ((distinctOn key xs).map key).Nodup := by
  induction xs with
  | nil => simp [distinctOn]
  | cons x xs ih =>
    simp only [distinctOn, List.map_cons, List.nodup_cons]
    refine ⟨by simp, ?_⟩
    exact ih.sublist ((List.filter_sublist).map key)

theorem map_distinctOn {β : Type} {key : α → κ} {key' : β → κ} {f : α → β}
    (h : ∀ x, key' (f x) = key x) (xs : List α) :
    (distinctOn key xs).map f = distinctOn key' (xs.map f) := by
  induction xs with
  | nil => rfl
  | cons x xs ih =>
    have hfilter (ys : List α) : (ys.filter (key · ≠ key x)).map f =
        (ys.map f).filter (key' · ≠ key' (f x)) := by
      rw [List.filter_map]
      simp [Function.comp_def, h]
    rw [distinctOn, List.map_cons, hfilter, ih]
    rfl

theorem filter_distinctOn (key : α → κ) (q : κ → Bool) (xs : List α) :
    (distinctOn key xs).filter (fun x => q (key x)) =
      distinctOn key (xs.filter fun x => q (key x)) := by
  induction xs with
  | nil => rfl
  | cons x xs ih =>
    rw [distinctOn, List.filter_cons, List.filter_cons]
    cases hq : q (key x) with
    | true =>
      simp only [if_true, distinctOn, ← ih, List.filter_filter]
      simp only [Bool.and_comm]
    | false =>
      simp only [Bool.false_eq_true, if_false, ← ih, List.filter_filter]
      refine List.filter_congr fun y _ => ?_
      by_cases hy : key y = key x <;> simp [hy, hq]

/-- The distinct members of a list of text in ascending order. -/
def sortedSet (xs : List String) : List String :=
  (distinctOn id xs).mergeSort fun a b => decide (a ≤ b)

@[simp] theorem mem_sortedSet {xs : List String} {x : String} : x ∈ sortedSet xs ↔ x ∈ xs := by
  rw [sortedSet, List.mem_mergeSort]
  simpa using @mem_map_distinctOn _ _ _ id xs x

theorem pairwise_le_sortedSet (xs : List String) : (sortedSet xs).Pairwise (· ≤ ·) := by
  have h : (sortedSet xs).Pairwise fun a b => decide (a ≤ b) := List.pairwise_mergeSort
    (fun a b c hab hbc => by simpa using String.le_trans (by simpa using hab) (by simpa using hbc))
    (fun a b => by simpa using String.le_total a b) (distinctOn id xs)
  exact h.imp (by simp)

theorem nodup_sortedSet (xs : List String) : (sortedSet xs).Nodup := by
  have h := nodup_map_distinctOn id xs
  rw [List.map_id] at h
  exact (List.mergeSort_perm _ _).nodup_iff.2 h

/-- In ascending order and without repetitions: each text is less than all later ones. -/
theorem pairwise_lt_of_le {xs : List String} (hle : xs.Pairwise (· ≤ ·)) (hnodup : xs.Nodup) :
    xs.Pairwise (· < ·) :=
  (hle.and hnodup).imp fun ⟨hle, hne⟩ =>
    String.not_le.1 fun hge => hne (String.le_antisymm hle hge)

theorem pairwise_lt_sortedSet (xs : List String) : (sortedSet xs).Pairwise (· < ·) :=
  pairwise_lt_of_le (pairwise_le_sortedSet xs) (nodup_sortedSet xs)

/-- Where no key is repeated, each one is looked up as what it is listed with. -/
theorem lookup_eq_some_iff_mem {β : Type} {entries : List (κ × β)}
    (h : (entries.map (·.1)).Nodup) {k : κ} {b : β} :
    entries.lookup k = some b ↔ (k, b) ∈ entries := by
  induction entries with
  | nil => simp
  | cons e es ih =>
    obtain ⟨a, x⟩ := e
    rw [List.map_cons, List.nodup_cons] at h
    by_cases ha : k = a
    · subst ha
      have hk : (k, b) ∉ es := fun hmem => h.1 (List.mem_map.2 ⟨_, hmem, rfl⟩)
      simp [hk, eq_comm]
    · have hne : (k == a) = false := by simpa using ha
      simp [List.lookup_cons, hne, ha, ih h.2]

end ClientTypes

import Mathlib.Data.Finset.Card
import Mathlib.Data.List.Find
import Mathlib.Data.List.MinMax
import ClientTypes.Proofs.Registry.Finalize

/-!
# The definition that prevails

Definitions are offered to a registry one after another, those of different names in any order. What
is stored under a name in the end depends on the offers of that name only: the first opaque one
prevails, and where none is opaque the first one that is as complete as any.

## Main definitions

* `Definition.prevailing?` — which of the offers of one name is stored

The main statement is `Registry.stored_answered_counted`.
-/

namespace ClientTypes

/-- The first entry that none exceeds is the first of the greatest. -/
theorem find?_forall_le_eq_argmax {α : Type} (f : α → Nat) (xs : List α) :
    xs.find? (fun x => ∀ y ∈ xs, f y ≤ f x) = xs.argmax f := by
  induction xs using List.reverseRecOn with
  | nil => rfl
  | append_singleton xs a ih =>
    rw [List.argmax_concat, List.find?_append]
    cases hm : xs.argmax f with
    | none =>
      obtain rfl := List.argmax_eq_none.1 hm
      simp
    | some m =>
      have hle : ∀ x ∈ xs, f x ≤ f m := fun x hx => List.le_of_mem_argmax hx hm
      by_cases hlt : f m < f a
      · -- The last entry exceeds all others.
        have hnone : xs.find? (fun x => ∀ y ∈ xs ++ [a], f y ≤ f x) = none := by
          rw [List.find?_eq_none]
          intro x hx hall
          have hax : f a ≤ f x := of_decide_eq_true hall a (by simp)
          exact absurd (hle x hx) (by omega)
        have hlast : ∀ x ∈ xs, f x ≤ f a := fun x hx => (hle x hx).trans hlt.le
        rw [hnone]
        simpa [hlt] using hlast
      · -- It exceeds none that no other one exceeds.
        have hsame : xs.find? (fun x => ∀ y ∈ xs ++ [a], f y ≤ f x) =
            xs.find? fun x => ∀ y ∈ xs, f y ≤ f x := by
          refine List.find?_congr fun x _ => decide_eq_decide.2 ⟨fun h y hy => ?_, fun h y hy => ?_⟩
          · exact h y (List.mem_append_left [a] hy)
          · rcases List.mem_append.1 hy with hy | hy
            · exact h y hy
            · have hmx := h m (List.argmax_mem hm)
              rw [List.mem_singleton.1 hy]
              omega
        rw [hsame, ih, hm]
        simp [hlt]

/-! ## Offers of one name -/

namespace Definition

/-- Of definitions that are offered under one name the first opaque one prevails, or else the first
of those that are most complete. -/
def prevailing? (offers : List Definition) : Option Definition :=
  (offers.find? (·.isOpaque)).or
    (offers.find? fun d => ∀ e ∈ offers, e.completeness ≤ d.completeness)

/-- One more offer prevails over one that is not opaque if it is opaque itself or more complete. -/
theorem prevailing?_concat (offers : List Definition) (d : Definition) :
    prevailing? (offers ++ [d]) = match prevailing? offers with
      | none => some d
      | some e =>
        if e.isOpaque = false ∧ (d.isOpaque ∨ e.completeness < d.completeness) then some d
        else some e := by
  simp only [prevailing?, find?_forall_le_eq_argmax completeness, List.argmax_concat,
    List.find?_append]
  cases hfirst : offers.find? (·.isOpaque) with
  | some e =>
    have he : e.isOpaque = true := by simpa using List.find?_some hfirst
    simp [he]
  | none =>
    cases hm : offers.argmax completeness with
    | none => cases hd : d.isOpaque <;> simp [hd]
    | some e =>
      have he : e.isOpaque = false := by
        simpa using List.find?_eq_none.1 hfirst e (List.argmax_mem hm)
      cases hd : d.isOpaque <;> simp [hd, he, ← apply_ite]

theorem mem_of_prevailing? {offers : List Definition} {d : Definition}
    (h : prevailing? offers = some d) : d ∈ offers := by
  rcases Option.or_eq_some_iff.1 h with h | ⟨-, h⟩
  · exact List.mem_of_find?_eq_some h
  · exact List.mem_of_find?_eq_some h

theorem prevailing?_eq_none_iff {offers : List Definition} :
    prevailing? offers = none ↔ offers = [] := by
  rw [prevailing?, find?_forall_le_eq_argmax, Option.or_eq_none_iff, List.argmax_eq_none]
  exact ⟨fun h => h.2, fun h => by simp [h]⟩

end Definition

namespace Registry

variable {r : Registry} {d : Definition} {offered : List Definition} {q : QName}

/-! ## Answers to offers -/

/-- What is offered replaces a definition if it is stored in the end and was not before. -/
theorem outcome_replaced_iff_stored : r.outcome d = .replaced ↔
    r.contains d.name ∧ r.get? d.name ≠ some d ∧ (r.merge d).get? d.name = some d := by
  constructor
  · intro h
    obtain ⟨e, he, hclear, hmore⟩ := outcome_replaced_iff.1 h
    refine ⟨by simp [contains, he], fun hd => ?_, by simp [get?_merge, h]⟩
    obtain rfl : e = d := Option.some.inj (he.symm.trans hd)
    simp [hclear] at hmore
  · rintro ⟨hcontains, hne, hstored⟩
    cases h : r.outcome d with
    | inserted => simp [outcome_inserted_iff.1 h] at hcontains
    | replaced => rfl
    | kept =>
      rw [merge_of_kept h] at hstored
      exact absurd hstored hne

/-- A definition is kept if the one offered leaves it as it is. -/
theorem outcome_kept_iff_stays : r.outcome d = .kept ↔
    r.contains d.name ∧ (r.merge d).get? d.name = r.get? d.name := by
  constructor
  · intro h
    obtain ⟨e, he, -⟩ := outcome_kept_iff.1 h
    exact ⟨by simp [contains, he], by rw [merge_of_kept h]⟩
  · rintro ⟨hcontains, hsame⟩
    cases h : r.outcome d with
    | inserted => simp [outcome_inserted_iff.1 h] at hcontains
    | replaced =>
      obtain ⟨-, hne, hstored⟩ := outcome_replaced_iff_stored.1 h
      exact absurd (hsame ▸ hstored) hne
    | kept => rfl

/-- After an offer its name is defined by what prevails over the definition before. -/
theorem get?_merge_self (r : Registry) (d : Definition) :
    (r.merge d).get? d.name = match r.get? d.name with
      | none => some d
      | some e =>
        if e.isOpaque = false ∧ (d.isOpaque ∨ e.completeness < d.completeness) then some d
        else some e := by
  have hkept := outcome_kept_iff (r := r) (d := d)
  rw [get?_merge]
  cases he : r.get? d.name with
  | none => simp [hkept, he]
  | some e => cases hop : e.isOpaque <;> cases hd : d.isOpaque <;> simp [hkept, he, hop, hd]

/-- What is stored under a name is what prevails among the offers of that name. -/
theorem get?_foldl_merge (offered : List Definition) (q : QName) :
    (offered.foldl merge {}).get? q = Definition.prevailing? (offered.filter (·.name = q)) := by
  induction offered using List.reverseRecOn with
  | nil => rfl
  | append_singleton offered d ih =>
    rw [List.foldl_concat, List.filter_append]
    by_cases hq : q = d.name
    · subst hq
      rw [get?_merge_self, ih, ← Definition.prevailing?_concat]
      simp
    · have hne : d.name ≠ q := fun h => hq h.symm
      rw [get?_merge_of_ne hq, ih]
      simp [hne]

/-- What is stored has been offered. -/
theorem mem_offered_of_get? (h : (offered.foldl merge {}).get? q = some d) : d ∈ offered := by
  rw [get?_foldl_merge] at h
  exact List.mem_of_mem_filter (Definition.mem_of_prevailing? h)

theorem mem_offered (h : d ∈ (offered.foldl merge {}).definitions) : d ∈ offered := by
  exact mem_offered_of_get? ((unique_foldl_merge .empty offered).get?_eq_some_iff.2 ⟨h, rfl⟩)

theorem get?_foldl_merge_eq_none_iff :
    (offered.foldl merge {}).get? q = none ↔ ∀ d ∈ offered, d.name ≠ q := by
  rw [get?_foldl_merge, Definition.prevailing?_eq_none_iff, List.filter_eq_nil_iff]
  simp

/-- A registry defines the names under which something has been offered. -/
theorem contains_foldl_merge :
    (offered.foldl merge {}).contains q ↔ ∃ d ∈ offered, d.name = q := by
  rw [contains, Option.isSome_iff_ne_none, ne_eq, get?_foldl_merge_eq_none_iff]
  simp

/-- A registry is as large as the number of its names. -/
theorem Unique.size_eq (h : r.Unique) : r.size = (r.definitions.map (·.name)).toFinset.card := by
  rw [List.toFinset_card_of_nodup h, List.length_map, size]

theorem size_foldl_merge (offered : List Definition) :
    (offered.foldl merge {}).size = (offered.map (·.name)).toFinset.card := by
  rw [(unique_foldl_merge .empty offered).size_eq]
  congr 1
  ext q
  simp [← contains_iff, contains_foldl_merge]

/-- Whatever definitions have been offered to a registry, a name without an offer has none, and
under every other name the one is stored that prevails among the offers of that name. The next offer
is inserted if it is the first of its name; it replaces a definition if it is stored from then on
and was not before, and otherwise the definition stays. There are as many definitions as names. -/
theorem stored_answered_counted (offered : List Definition) :
    let r := offered.foldl merge {}
    (∀ q, r.get? q = none ↔ ∀ d ∈ offered, d.name ≠ q) ∧
    (∀ q, r.get? q = Definition.prevailing? (offered.filter (·.name = q))) ∧
    (∀ d, r.outcome d = .inserted ↔ ∀ e ∈ offered, e.name ≠ d.name) ∧
    (∀ d, r.outcome d = .replaced ↔
      (∃ e ∈ offered, e.name = d.name) ∧ r.get? d.name ≠ some d ∧
        (r.merge d).get? d.name = some d) ∧
    (∀ d, r.outcome d = .kept ↔
      (∃ e ∈ offered, e.name = d.name) ∧ (r.merge d).get? d.name = r.get? d.name) ∧
    r.size = (offered.map (·.name)).toFinset.card := by
  refine ⟨fun q => get?_foldl_merge_eq_none_iff, get?_foldl_merge offered, fun d => ?_, fun d => ?_,
    fun d => ?_, size_foldl_merge offered⟩
  · rw [outcome_inserted_iff, ← Bool.not_eq_true, contains_foldl_merge]
    simp
  · rw [outcome_replaced_iff_stored, contains_foldl_merge]
  · rw [outcome_kept_iff_stays, contains_foldl_merge]

end Registry

end ClientTypes

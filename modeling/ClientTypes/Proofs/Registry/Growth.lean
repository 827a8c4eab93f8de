import ClientTypes.Resolve.Chain

/-!
# Growth of a registry

During a pass a registry only grows: names once defined stay defined, an opaque definition stays as
it is, and what has been expanded stays so.

## Main definitions

* `Registry.Extends` — a later state of the same registry
* `Chain.Extends` — a later state of a chain, at a point of the same namespace, direction and
  nesting
-/

namespace ClientTypes

namespace Registry

/-- A later state of the same registry. -/
structure Extends (r r' : Registry) : Prop where
  contains : ∀ {q}, r.contains q → r'.contains q
  isOpaque : ∀ {q d}, r.get? q = some d → d.isOpaque → r'.get? q = some d
  typeIds : r.typeIds ⊆ r'.typeIds
  expanded : r.expanded ⊆ r'.expanded

theorem Extends.refl (r : Registry) : r.Extends r := ⟨id, fun h _ => h, fun _ => id, fun _ => id⟩

theorem Extends.trans {r r' r'' : Registry} (h : r.Extends r') (h' : r'.Extends r'') :
    r.Extends r'' where
  contains hq := h'.contains (h.contains hq)
  isOpaque hq hd := h'.isOpaque (h.isOpaque hq hd) hd
  typeIds := List.Subset.trans h.typeIds h'.typeIds
  expanded := List.Subset.trans h.expanded h'.expanded

theorem contains_iff {r : Registry} {q : QName} :
    r.contains q ↔ ∃ d ∈ r.definitions, d.name = q := by
  simp [contains, get?, List.find?_isSome]

/-! ## Offers -/

theorem outcome_inserted_iff {r : Registry} {d : Definition} :
    r.outcome d = .inserted ↔ r.contains d.name = false := by
  unfold outcome contains
  cases r.get? d.name with
  | none => simp
  | some e =>
    simp only [Option.isSome_some, Bool.true_eq_false, iff_false]
    (repeat' split) <;> simp

/-- What replaces a definition is opaque or more complete, and that definition is not opaque. -/
theorem outcome_replaced_iff {r : Registry} {d : Definition} :
    r.outcome d = .replaced ↔ ∃ e, r.get? d.name = some e ∧ e.isOpaque = false ∧
      (d.isOpaque ∨ e.completeness < d.completeness) := by
  unfold outcome
  cases r.get? d.name with
  | none => simp
  | some e => cases he : e.isOpaque <;> cases d.isOpaque <;> simp [he]

/-- A definition stays if it is opaque, or knows as much as one that is not opaque. -/
theorem outcome_kept_iff {r : Registry} {d : Definition} :
    r.outcome d = .kept ↔ ∃ e, r.get? d.name = some e ∧
      (e.isOpaque ∨ d.isOpaque = false ∧ d.completeness ≤ e.completeness) := by
  unfold outcome
  cases r.get? d.name with
  | none => simp
  | some e => cases he : e.isOpaque <;> cases d.isOpaque <;> simp [he]

/-- A definition that is kept, and is not opaque, is as complete as the one offered. -/
theorem completeness_le_of_kept {r : Registry} {d e : Definition} (h : r.get? d.name = some e)
    (he : e.isOpaque = false) (hk : r.outcome d = .kept) : d.completeness ≤ e.completeness := by
  obtain ⟨e', he', hkept⟩ := outcome_kept_iff.1 hk
  obtain rfl : e = e' := Option.some.inj (h.symm.trans he')
  exact (hkept.resolve_left (by simp [he])).2

/-- An offer matters to its own name only. -/
theorem get?_merge_of_ne {r : Registry} {d : Definition} {q : QName} (h : q ≠ d.name) :
    (r.merge d).get? q = r.get? q := by
  rw [get?_merge, if_neg fun hc => h hc.1]

theorem merge_of_kept {r : Registry} {d : Definition} (h : r.outcome d = .kept) :
    r.merge d = r := by
  unfold merge
  rw [h]

@[simp] theorem contains_merge {r : Registry} {d : Definition} {q : QName} :
    (r.merge d).contains q ↔ q = d.name ∨ r.contains q := by
  by_cases hq : q = d.name
  · subst hq
    by_cases hk : r.outcome d = .kept
    · have hc : r.contains d.name = true := by
        cases h : r.contains d.name with
        | true => rfl
        | false => simp [outcome_inserted_iff.2 h] at hk
      simpa [contains, get?_merge, hk] using hc
    · simp [contains, get?_merge, hk]
  · simp [contains, get?_merge, hq]

theorem mem_definitions_of_mem_merge {r : Registry} {d e : Definition}
    (h : e ∈ (r.merge d).definitions) : e = d ∨ e ∈ r.definitions := by
  unfold merge at h
  split at h
  · simpa [or_comm] using h
  · obtain ⟨e', he', rfl⟩ := List.mem_map.1 h
    split
    · exact .inl rfl
    · exact .inr he'
  · exact .inr h

/-- What holds of the definitions so far and of the one offered holds of all of them. -/
theorem forall_mem_merge {P : Definition → Prop} {r : Registry} {d : Definition}
    (h : ∀ e ∈ r.definitions, P e) (hd : P d) : ∀ e ∈ (r.merge d).definitions, P e := by
  intro e he
  rcases mem_definitions_of_mem_merge he with rfl | he
  · exact hd
  · exact h e he

theorem mem_typeIds_merge {r : Registry} {d : Definition} {id : TypeId} :
    id ∈ (r.merge d).typeIds ↔ (id = d.typeId ∧ r.contains d.name = false) ∨ id ∈ r.typeIds := by
  rw [← outcome_inserted_iff]
  unfold merge
  cases r.outcome d with
  | inserted =>
    by_cases hd : d.typeId ∈ r.typeIds
    · simp only [hd, if_true, and_true]
      exact ⟨.inr, fun h => h.elim (fun h => h ▸ hd) fun h => h⟩
    · simp [hd, or_comm]
  | replaced | kept => simp

@[simp] theorem expanded_merge (r : Registry) (d : Definition) :
    (r.merge d).expanded = r.expanded := by
  unfold merge
  split <;> rfl

/-- An opaque definition is there to stay. -/
theorem get?_merge_of_isOpaque {r : Registry} {d e : Definition} {q : QName}
    (h : r.get? q = some e) (he : e.isOpaque) : (r.merge d).get? q = some e := by
  rw [get?_merge, if_neg]
  · exact h
  · rintro ⟨rfl, hk⟩
    simp [outcome, h, he] at hk

/-- After an opaque definition has been offered, its name has one. -/
theorem exists_isOpaque_get?_merge {r : Registry} {d : Definition} (hd : d.isOpaque) :
    ∃ e, (r.merge d).get? d.name = some e ∧ e.isOpaque := by
  rw [get?_merge]
  by_cases hk : r.outcome d = .kept
  · obtain ⟨e, he, hop | ⟨hd', -⟩⟩ := outcome_kept_iff.1 hk
    · exact ⟨e, by rwa [if_neg (by simp [hk])], hop⟩
    · simp [hd] at hd'
  · exact ⟨d, by simp [hk], hd⟩

theorem extends_merge (r : Registry) (d : Definition) : r.Extends (r.merge d) where
  contains hq := contains_merge.2 (.inr hq)
  isOpaque := get?_merge_of_isOpaque
  typeIds _ hid := mem_typeIds_merge.2 (.inr hid)
  expanded := by simp

/-! ## Expansions -/

@[simp] theorem definitions_markExpanded (r : Registry) (id : TypeId) (dir : Direction) :
    (r.markExpanded id dir).definitions = r.definitions := by
  unfold markExpanded
  split <;> rfl

@[simp] theorem typeIds_markExpanded (r : Registry) (id : TypeId) (dir : Direction) :
    (r.markExpanded id dir).typeIds = r.typeIds := by
  unfold markExpanded
  split <;> rfl

@[simp] theorem get?_markExpanded (r : Registry) (id : TypeId) (dir : Direction) (q : QName) :
    (r.markExpanded id dir).get? q = r.get? q := by
  simp [get?]

@[simp] theorem contains_markExpanded (r : Registry) (id : TypeId) (dir : Direction) (q : QName) :
    (r.markExpanded id dir).contains q = r.contains q := by
  simp [contains]

@[simp] theorem mem_expanded_markExpanded {r : Registry} {id i : TypeId} {dir d : Direction} :
    (i, d) ∈ (r.markExpanded id dir).expanded ↔ (i = id ∧ d = dir) ∨ (i, d) ∈ r.expanded := by
  unfold markExpanded
  split
  · next h =>
    rw [isExpanded, List.contains_iff_mem] at h
    exact ⟨.inr, fun hi => hi.elim (fun ⟨hi, hd⟩ => hi ▸ hd ▸ h) fun hi => hi⟩
  · simp [or_comm]

theorem extends_markExpanded (r : Registry) (id : TypeId) (dir : Direction) :
    r.Extends (r.markExpanded id dir) where
  contains := by simp
  isOpaque h _ := by simpa using h
  typeIds := by simp
  expanded _ h := mem_expanded_markExpanded.2 (.inr h)

end Registry

namespace Chain

/-- A later state of a chain, at a point of the same namespace, direction and nesting. -/
structure Extends (c c' : Chain) : Prop where
  ns : c'.ns = c.ns
  direction : c'.direction = c.direction
  processing : c'.processing = c.processing
  imports : c.imports ⊆ c'.imports
  registry : c.registry.Extends c'.registry

theorem Extends.refl (c : Chain) : c.Extends c := ⟨rfl, rfl, rfl, fun _ => id, .refl _⟩

theorem Extends.trans {c c' c'' : Chain} (h : c.Extends c') (h' : c'.Extends c'') :
    c.Extends c'' where
  ns := h'.ns.trans h.ns
  direction := h'.direction.trans h.direction
  processing := h'.processing.trans h.processing
  imports := List.Subset.trans h.imports h'.imports
  registry := h.registry.trans h'.registry

theorem mem_imports_note {name : QName} {c : Chain} {ns : String} :
    ns ∈ (note name c).imports ↔ (ns = name.ns ∧ ns ≠ c.ns) ∨ ns ∈ c.imports := by
  unfold note
  split
  · next h =>
    constructor
    · exact .inr
    · rintro (⟨rfl, hne⟩ | h')
      · exact h.resolve_left hne
      · exact h'
  · next h =>
    simp only [not_or] at h
    simp only [List.mem_append, List.mem_singleton]
    constructor
    · rintro (h' | rfl)
      · exact .inr h'
      · exact .inl ⟨rfl, h.1⟩
    · rintro (⟨h', -⟩ | h')
      · exact .inr h'
      · exact .inl h'

theorem extends_note (name : QName) (c : Chain) : c.Extends (note name c) := by
  refine ⟨?_, ?_, ?_, fun ns h => mem_imports_note.2 (.inr h), ?_⟩
  all_goals unfold note; split
  all_goals first | rfl | exact .refl _

@[simp] theorem registry_note (name : QName) (c : Chain) : (note name c).registry = c.registry := by
  unfold note
  split <;> rfl

@[simp] theorem processing_note (name : QName) (c : Chain) :
    (note name c).processing = c.processing :=
  (extends_note name c).processing

theorem extends_offer (d : Definition) (c : Chain) : c.Extends (offer d c) :=
  ⟨rfl, rfl, rfl, fun _ => id, c.registry.extends_merge d⟩

end Chain

end ClientTypes

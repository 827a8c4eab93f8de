import Mathlib.Data.List.Sort
import Mathlib.Data.List.Perm.Subperm
import ClientTypes.Namespace.Aliases
import ClientTypes.Proofs.Text.Identifier

/-!
# Every namespace has an alias of its own

Widening changes how many segments a namespace goes by and nothing else, so that each namespace
comes out of it once. Numbering then hands out one name after another, each one free when it is
handed out: of more names than are in use at least one is.

## Main definitions

* `NamespaceAliases.numbered` — the names that numbering tries behind the first one
* `NamespaceAliases.Spells` — the words that a namespace may be given

The main statement is `assign_total_unique_valid`.
-/

namespace ClientTypes

namespace NamespaceAliases

variable {used : List String} {base : String} {widths : Widths} {namespaces : List String}
  {ns ns' word : String}

/-- The word is made of the last segments of the namespace, with or without a number behind them. -/
def Spells (word ns : String) : Prop :=
  ∃ width, word = candidate ns width ∨ ∃ n, 2 ≤ n ∧ word = candidate ns width ++ toString n

/-! ## Free names -/

/-- The names `base2`, `base3`, … up to a number of them. -/
def numbered (base : String) (count : Nat) : List String :=
  (List.range count).map fun i => base ++ toString (i + 2)

theorem nodup_numbered (base : String) (count : Nat) : (base :: numbered base count).Nodup := by
  have hinj : Function.Injective fun i : Nat => base ++ toString (i + 2) :=
    fun _ _ h => Nat.add_right_cancel (Text.append_toString_injective base h)
  refine List.nodup_cons.2 ⟨fun hmem => ?_, List.nodup_range.map hinj⟩
  obtain ⟨i, -, hi⟩ := List.mem_map.1 hmem
  exact Text.append_toString_ne base (i + 2) hi

/-- One name more than are in use is tried, so that one of them is free. -/
theorem exists_free (used : List String) (base : String) :
    ∃ name ∈ base :: numbered base used.length, name ∉ used := by
  by_contra hall
  have hsub : base :: numbered base used.length ⊆ used :=
    fun name hname => by_contra fun hfree => hall ⟨name, hname, hfree⟩
  have hle := ((nodup_numbered base used.length).subperm hsub).length_le
  simp only [numbered, List.length_cons, List.length_map, List.length_range] at hle
  omega

/-- A fresh name is one of those tried, and free. -/
theorem fresh_spec (used : List String) (base : String) :
    fresh used base ∈ base :: numbered base used.length ∧ fresh used base ∉ used := by
  obtain ⟨name, hname, hfree⟩ := exists_free used base
  have hsome : ((base :: numbered base used.length).find? (· ∉ used)).isSome := by
    rw [List.find?_isSome]
    exact ⟨name, hname, by simpa using hfree⟩
  obtain ⟨found, hfound⟩ := Option.isSome_iff_exists.1 hsome
  have hfresh : fresh used base = found := by
    unfold fresh
    exact congrArg (·.getD base) hfound
  rw [hfresh]
  exact ⟨List.mem_of_find?_eq_some hfound, by simpa using List.find?_some hfound⟩

/-- A name stays as it is unless it is in use; then it gets a number. -/
theorem fresh_cases (used : List String) (base : String) : fresh used base = base ∨
    base ∈ used ∧ ∃ n, 2 ≤ n ∧ fresh used base = base ++ toString n := by
  by_cases hbase : base ∈ used
  · obtain ⟨htried, hfree⟩ := fresh_spec used base
    rcases List.mem_cons.1 htried with heq | hmem
    · rw [heq] at hfree
      exact absurd hbase hfree
    · obtain ⟨i, -, hi⟩ := List.mem_map.1 hmem
      exact .inr ⟨hbase, i + 2, by omega, hi.symm⟩
  · exact .inl (by simp [fresh, hbase])

theorem bindable_fresh (used : List String) (h : Text.Bindable base) :
    Text.Bindable (fresh used base) := by
  rcases fresh_cases used base with heq | ⟨-, n, -, heq⟩
  · rw [heq]
    exact h
  · rw [heq]
    exact h.number n

/-! ## Namespaces -/

theorem map_fst_widenOnce (widths : Widths) : (widenOnce widths).map (·.1) = widths.map (·.1) := by
  unfold widenOnce
  rw [List.map_map]
  refine List.map_congr_left fun entry _ => ?_
  obtain ⟨ns, w⟩ := entry
  simp only [Function.comp_apply]
  split <;> rfl

/-- Widening neither drops nor adds a namespace. -/
theorem map_fst_widen (widths : Widths) : (widen widths).map (·.1) = widths.map (·.1) := by
  fun_induction widen widths with
  | case1 widths wider hsame => rfl
  | case2 widths wider hwider ih => exact ih.trans (map_fst_widenOnce widths)

theorem map_fst_number (used : List String) (widths : Widths) :
    (number used widths).map (·.1) = widths.map (·.1) := by
  induction widths generalizing used with
  | nil => rfl
  | cons entry widths ih => simp [number, ih]

/-- The namespaces of an assignment are those of the collection, each once and in order. -/
theorem map_fst_assign (namespaces : List String) :
    (assign namespaces).entries.map (·.1) = sortedSet namespaces := by
  unfold assign
  rw [map_fst_number, map_fst_widen, List.map_map]
  exact List.map_id _

theorem nodup_map_fst_assign (namespaces : List String) :
    ((assign namespaces).entries.map (·.1)).Nodup := by
  rw [map_fst_assign]
  exact nodup_sortedSet namespaces

theorem get?_assign : (assign namespaces).get? ns = some word ↔
    (ns, word) ∈ (assign namespaces).entries :=
  lookup_eq_some_iff_mem (nodup_map_fst_assign namespaces)

/-- A namespace has an alias if and only if it is in the collection. -/
theorem exists_get?_assign : (∃ word, (assign namespaces).get? ns = some word) ↔
    ns ∈ namespaces := by
  rw [← mem_sortedSet, ← map_fst_assign]
  simp [get?_assign]

/-- Collections of the same namespaces have the same aliases. -/
theorem assign_congr {namespaces' : List String} (h : ∀ n, n ∈ namespaces ↔ n ∈ namespaces') :
    assign namespaces = assign namespaces' := by
  have hsorted : sortedSet namespaces = sortedSet namespaces' :=
    (pairwise_lt_sortedSet namespaces).eq_of_mem_iff (pairwise_lt_sortedSet namespaces')
      (by simpa using h)
  rw [assign, assign, hsorted]

/-! ## Aliases -/

/-- Numbering hands out every name once, and none that was in use before. -/
theorem nodup_number (used : List String) (widths : Widths) :
    ((number used widths).map (·.2)).Nodup ∧ ∀ entry ∈ number used widths, entry.2 ∉ used := by
  induction widths generalizing used with
  | nil => simp [number]
  | cons entry widths ih =>
    obtain ⟨ns, w⟩ := entry
    have hfree := (fresh_spec used (candidate ns w)).2
    obtain ⟨hnodup, hrest⟩ := ih (fresh used (candidate ns w) :: used)
    refine ⟨List.nodup_cons.2 ⟨fun hmem => ?_, hnodup⟩, fun e he => ?_⟩
    · obtain ⟨e, he, heq⟩ := List.mem_map.1 hmem
      exact hrest e he (heq ▸ List.mem_cons_self)
    · rcases List.mem_cons.1 he with rfl | he
      · exact hfree
      · exact fun hused => hrest e he (List.mem_cons_of_mem _ hused)

theorem bindable_number (used : List String) (widths : Widths) :
    ∀ entry ∈ number used widths, Text.Bindable entry.2 := by
  induction widths generalizing used with
  | nil => simp [number]
  | cons entry widths ih =>
    intro e he
    rcases List.mem_cons.1 he with rfl | he
    · exact bindable_fresh used (Text.bindable_sanitize _)
    · exact ih _ e he

/-- An alias is a word that an import may bind. -/
theorem bindable_of_get?_assign (h : (assign namespaces).get? ns = some word) :
    Text.Bindable word :=
  bindable_number [] _ (ns, word) (get?_assign.1 h)

theorem spells_number (used : List String) (widths : Widths) :
    ∀ entry ∈ number used widths, Spells entry.2 entry.1 := by
  induction widths generalizing used with
  | nil => simp [number]
  | cons entry widths ih =>
    obtain ⟨ns, w⟩ := entry
    intro e he
    rcases List.mem_cons.1 he with rfl | he
    · exact ⟨w, (fresh_cases used (candidate ns w)).imp_right And.right⟩
    · exact ih _ e he

/-- An alias spells its namespace. -/
theorem spells_of_get?_assign (h : (assign namespaces).get? ns = some word) : Spells word ns :=
  spells_number [] _ (ns, word) (get?_assign.1 h)

theorem lowered_candidate (h : Text.Lowered ns) (width : Nat) :
    Text.Lowered (candidate ns width) := by
  have hsegments : ∀ segment ∈ (Text.segments ns).drop ((Text.segments ns).length - width),
      Text.Lowered segment :=
    fun _ hsegment => h.of_mem_segments (List.mem_of_mem_drop hsegment)
  exact (Text.Lowered.intercalate (by decide) hsegments).sanitize

theorem Spells.lowered (hspells : Spells word ns) (h : Text.Lowered ns) : Text.Lowered word := by
  obtain ⟨width, rfl | ⟨n, -, rfl⟩⟩ := hspells
  · exact lowered_candidate h width
  · exact (lowered_candidate h width).number n

/-- No two namespaces have the same alias. -/
theorem eq_of_get?_assign (h : (assign namespaces).get? ns = some word)
    (h' : (assign namespaces).get? ns' = some word) : ns = ns' := by
  have hnodup : ((assign namespaces).entries.map (·.2)).Nodup := (nodup_number [] _).1
  exact congrArg Prod.fst (List.inj_on_of_nodup_map hnodup (get?_assign.1 h) (get?_assign.1 h') rfl)

/-- Of any collection of namespaces each one gets exactly one alias, and nothing else gets any. No
two namespaces share an alias, and every alias is a word that an import may bind. -/
theorem assign_total_unique_valid (namespaces : List String) :
    let aliases := assign namespaces
    (aliases.entries.map (·.1)).Nodup ∧
    (∀ ns, ns ∈ namespaces ↔ ∃ word, aliases.get? ns = some word) ∧
    (∀ ns word, aliases.get? ns = some word ↔ (ns, word) ∈ aliases.entries) ∧
    (∀ ns ns' word, aliases.get? ns = some word → aliases.get? ns' = some word → ns = ns') ∧
    ∀ ns word, aliases.get? ns = some word → Text.Bindable word := by
  refine ⟨nodup_map_fst_assign namespaces, fun ns => exists_get?_assign.symm,
    fun ns word => get?_assign, fun ns ns' word => eq_of_get?_assign, fun ns word h => ?_⟩
  exact bindable_number [] _ (ns, word) (get?_assign.1 h)

end NamespaceAliases

end ClientTypes

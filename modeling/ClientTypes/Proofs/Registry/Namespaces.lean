import ClientTypes.Proofs.Descriptor.Mentions
import ClientTypes.Proofs.Namespace.Aliases
import ClientTypes.Proofs.Registry.Finalize

/-!
# Namespaces of a table

A table is filed by namespace. Its namespaces are those of its definitions, each once; filing all
definitions under them gives back every definition once. What is recorded as imported by a namespace
is what the bodies filed under it mention of other namespaces, and an alias is assigned to exactly
the namespaces that are filed or imported.

The main statements are `Unique.flatMap_inNamespace_perm`, `mem_imports` and `exists_alias_iff`.
-/

namespace ClientTypes

namespace Registry

variable {r : Registry} {ns n : String} {foreign : List String}

/-! ## Definitions in order -/

/-- The definitions are in strict order: by namespace, then by name. -/
theorem Unique.pairwise_lt_finalize (h : r.Unique) :
    r.finalize.definitions.Pairwise fun d e =>
      d.name.ns < e.name.ns ∨ d.name.ns = e.name.ns ∧ d.name.name < e.name.name := by
  have hnames : (r.finalize.definitions.map (·.name)).Nodup :=
    (r.definitions_finalize_perm.map _).nodup_iff.2 h
  refine (r.pairwise_le_finalize.and (List.pairwise_map.1 hnames)).imp ?_
  rintro d e ⟨hle, hne⟩
  rcases QName.le_iff.1 hle with hns | ⟨hns, hname⟩
  · exact .inl hns
  · refine .inr ⟨hns, String.not_le.1 fun hge => hne ?_⟩
    exact QName.le_antisymm hle (QName.le_iff.2 (.inr ⟨hns.symm, hge⟩))

theorem Unique.mem_finalize_iff (h : r.Unique) {d : Definition} :
    d ∈ r.finalize.definitions ↔ r.get? d.name = some d := by
  simp [h.get?_eq_some_iff]

/-! ## Filing -/

theorem namespaces_finalize (r : Registry) :
    r.finalize.namespaces = distinctOn id (r.finalize.definitions.map (·.name.ns)) := by
  simp [finalize, Table.namespaces, Function.comp_def]

/-- The namespaces are those that own a definition. -/
theorem mem_namespaces :
    ns ∈ r.finalize.namespaces ↔ ∃ d ∈ r.finalize.definitions, d.name.ns = ns := by
  rw [namespaces_finalize, ← List.map_id (distinctOn _ _), mem_map_distinctOn]
  simp

theorem nodup_namespaces (r : Registry) : r.finalize.namespaces.Nodup := by
  have hnodup := nodup_map_distinctOn id (r.finalize.definitions.map (·.name.ns))
  rwa [List.map_id, ← namespaces_finalize] at hnodup

theorem pairwise_lt_namespaces (r : Registry) : r.finalize.namespaces.Pairwise (· < ·) := by
  have hle : (r.finalize.definitions.map (·.name.ns)).Pairwise (· ≤ ·) := by
    refine List.pairwise_map.2 (r.pairwise_le_finalize.imp fun hle => ?_)
    rcases QName.le_iff.1 hle with hns | ⟨hns, -⟩
    · exact String.not_lt.1 (String.lt_asymm hns)
    · exact hns ▸ String.le_refl _
  refine pairwise_lt_of_le ?_ r.nodup_namespaces
  rw [namespaces_finalize]
  exact hle.sublist (distinctOn_sublist id _)

/-- Filing the definitions under the namespaces neither loses nor repeats one. -/
theorem Unique.flatMap_inNamespace_perm (h : r.Unique) :
    (r.finalize.namespaces.flatMap r.finalize.inNamespace).Perm r.finalize.definitions := by
  have hnodup : r.finalize.definitions.Nodup :=
    r.definitions_finalize_perm.nodup_iff.2 (List.Nodup.of_map _ h)
  have hfiled : (r.finalize.namespaces.flatMap r.finalize.inNamespace).Nodup := by
    refine List.nodup_flatMap.2 ⟨fun ns _ => hnodup.filter _, ?_⟩
    refine r.nodup_namespaces.imp fun hne d hd hd' => ?_
    exact hne ((Table.mem_inNamespace.1 hd).2.symm.trans (Table.mem_inNamespace.1 hd').2)
  refine (List.perm_ext_iff_of_nodup hfiled hnodup).2 fun d => ?_
  simp only [List.mem_flatMap, Table.mem_inNamespace, mem_namespaces]
  constructor
  · rintro ⟨ns, -, hd, -⟩
    exact hd
  · exact fun hd => ⟨d.name.ns, ⟨d, hd, rfl⟩, hd, rfl⟩

/-! ## Imports -/

/-- The imports of a namespace are recorded if it owns a definition. -/
theorem importsOf?_eq_some_iff : r.finalize.importsOf? ns = some foreign ↔
    ns ∈ r.finalize.namespaces ∧
      foreign = sortedSet ((r.finalize.inNamespace ns).flatMap (·.foreignNamespaces)) := by
  rw [Table.importsOf?, lookup_eq_some_iff_mem r.nodup_namespaces, namespaces_finalize]
  simp only [finalize, List.mem_map, Prod.mk.injEq, Table.inNamespace]
  constructor
  · rintro ⟨_, hns, rfl, rfl⟩
    exact ⟨hns, rfl⟩
  · rintro ⟨hns, rfl⟩
    exact ⟨ns, hns, rfl, rfl⟩

/-- Imported is what a body of the namespace mentions of another one. -/
theorem mem_imports (h : r.finalize.importsOf? ns = some foreign) : n ∈ foreign ↔
    n ≠ ns ∧ ∃ d ∈ r.finalize.inNamespace ns, ∃ q, d.body.Mentions q ∧ q.ns = n := by
  rw [(importsOf?_eq_some_iff.1 h).2]
  simp only [mem_sortedSet, List.mem_flatMap, Definition.mem_foreignNamespaces,
    Body.mem_references]
  constructor
  · rintro ⟨d, hd, hne, hq⟩
    exact ⟨(Table.mem_inNamespace.1 hd).2 ▸ hne, d, hd, hq⟩
  · rintro ⟨hne, d, hd, hq⟩
    exact ⟨d, hd, (Table.mem_inNamespace.1 hd).2.symm ▸ hne, hq⟩

/-! ## Aliases -/

/-- A namespace has an alias if it owns a definition or is imported by one that does. -/
theorem exists_alias_iff : (∃ word, r.finalize.aliases.get? n = some word) ↔
    n ∈ r.finalize.namespaces ∨
      ∃ ns foreign, r.finalize.importsOf? ns = some foreign ∧ n ∈ foreign := by
  rw [namespaces_finalize]
  simp only [importsOf?_eq_some_iff, namespaces_finalize]
  refine NamespaceAliases.exists_get?_assign.trans ?_
  simp only [finalize, List.mem_append, List.mem_flatMap, List.mem_map]
  refine or_congr .rfl ?_
  constructor
  · rintro ⟨_, ⟨ns, hns, rfl⟩, hn⟩
    exact ⟨ns, _, ⟨hns, rfl⟩, hn⟩
  · rintro ⟨ns, _, ⟨hns, rfl⟩, hn⟩
    exact ⟨_, ⟨ns, hns, rfl⟩, hn⟩

/-- The aliases are those of the namespaces of definitions and of what their bodies refer to. -/
theorem aliases_finalize (r : Registry) : r.finalize.aliases = NamespaceAliases.assign
    (r.definitions.flatMap fun d => (d.name :: d.body.references).map (·.ns)) := by
  refine NamespaceAliases.assign_congr fun n =>
    NamespaceAliases.exists_get?_assign.symm.trans (exists_alias_iff.trans ?_)
  rw [mem_namespaces, List.mem_flatMap]
  constructor
  · rintro (⟨d, hd, rfl⟩ | ⟨ns, foreign, himports, hn⟩)
    · exact ⟨d, mem_definitions_finalize.1 hd, List.mem_cons_self⟩
    · obtain ⟨-, d, hd, q, hq, rfl⟩ := (mem_imports himports).1 hn
      have hmem := mem_definitions_finalize.1 (Table.mem_inNamespace.1 hd).1
      exact ⟨d, hmem, List.mem_map_of_mem (List.mem_cons_of_mem _ (Body.mem_references.2 hq))⟩
  · rintro ⟨d, hd, hn⟩
    have hd := mem_definitions_finalize.2 hd
    obtain ⟨q, hq, rfl⟩ := List.mem_map.1 hn
    by_cases hne : q.ns = d.name.ns
    · exact .inl ⟨d, hd, hne.symm⟩
    · obtain rfl | hq := List.mem_cons.1 hq
      · exact absurd rfl hne
      · have himports := importsOf?_eq_some_iff.2 ⟨mem_namespaces.2 ⟨d, hd, rfl⟩, rfl⟩
        refine .inr ⟨d.name.ns, _, himports, (mem_imports himports).2 ⟨hne, d, ?_, q, ?_, rfl⟩⟩
        · exact Table.mem_inNamespace.2 ⟨hd, rfl⟩
        · exact Body.mem_references.1 hq

end Registry

end ClientTypes

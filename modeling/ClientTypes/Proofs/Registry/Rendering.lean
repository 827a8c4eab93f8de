import ClientTypes.Proofs.Descriptor.Writes
import ClientTypes.Proofs.Registry.Namespaces

/-!
# Finished tables are faithful

Closing a registry loses nothing, and what a table records beside its definitions agrees with their
bodies. A namespace is rendered in blocks: its import lines, then its definitions. Every import line
binds one word, the alias of a namespace that a body mentions, and wherever a body names something
of another namespace the word before the dot is bound by exactly one of the lines.

## Main definitions

* `Table.bindings`, `Table.importLine` — the import lines of a namespace
* `Table.Faithful`, `Table.Qualified` — a table stands for a registry, and so does its text

The main statement is `Registry.faithful_finalize`.
-/

namespace ClientTypes

namespace Table

/-- The scope that a namespace is rendered in. -/
def scope (t : Table) (ns : String) : Scope := ⟨ns, t.aliases⟩

/-- The word that each import line of a namespace binds, and the namespace that the line is for. -/
def bindings (t : Table) (ns : String) : List (String × String) :=
  ((t.importsOf? ns).getD []).map fun foreign => ((t.scope ns).qualifier foreign, foreign)

/-- The line that binds a word for a namespace. -/
def importLine (binding : String × String) : String :=
  "import type * as " ++ binding.1 ++ " from \"" ++ binding.2 ++ "\";\n"

/-- The import lines as a block, if there are any, and a block for each definition. -/
def blocks (t : Table) (ns : String) : List String :=
  (if t.bindings ns = [] then [] else [String.join ((t.bindings ns).map importLine)]) ++
    (t.inNamespace ns).map (·.render (t.scope ns))

theorem foldl_blocks {out : String} (hout : out ≠ "") (ds : List Definition) (scope : Scope) :
    ds.foldl (fun out d => (if out.isEmpty then out else out ++ "\n") ++ d.render scope) out =
      "\n".intercalate (out :: ds.map (·.render scope)) := by
  -- once something is written, every definition gets a blank line before it
  induction ds generalizing out with
  | nil => simp
  | cons d ds ih =>
    have hempty : out.isEmpty = false := by simpa using hout
    rw [List.foldl_cons, hempty, if_neg Bool.false_ne_true, ih (by simp [hout])]
    simp [String.intercalate_cons_append, String.intercalate_cons_cons]

theorem render_ne_empty (scope : Scope) (d : Definition) : d.render scope ≠ "" := by
  obtain ⟨name, typeId, body, doc⟩ := d
  cases body <;> simp [Definition.render]

theorem importLine_ne_empty (binding : String × String) : importLine binding ≠ "" := by
  unfold importLine
  rw [ne_eq, String.append_eq_empty_iff]
  rintro ⟨-, h⟩
  exact absurd h (by decide)

theorem join_map_importLine (t : Table) (ns : String) :
    String.join ((t.bindings ns).map importLine) =
      String.join (((t.importsOf? ns).getD []).map fun foreign =>
        "import type * as " ++ (t.scope ns).qualifier foreign ++ " from \"" ++ foreign ++
          "\";\n") := by
  rw [bindings, List.map_map]
  rfl

/-- A namespace is rendered as its blocks, with a blank line between one and the next. -/
theorem renderNamespace_eq (t : Table) (ns : String) :
    t.renderNamespace ns = "\n".intercalate (t.blocks ns) := by
  have hfold : t.renderNamespace ns = (t.inNamespace ns).foldl
      (fun out d => (if out.isEmpty then out else out ++ "\n") ++ d.render (t.scope ns))
      (String.join ((t.bindings ns).map importLine)) := by
    rw [join_map_importLine]
    rfl
  rw [hfold, blocks]
  cases t.bindings ns with
  | nil =>
    cases t.inNamespace ns with
    | nil => rfl
    | cons d ds => simpa using foldl_blocks (render_ne_empty (t.scope ns) d) ds (t.scope ns)
  | cons binding rest =>
    have hlines : String.join ((binding :: rest).map importLine) ≠ "" := by
      rw [List.map_cons, String.join_cons, ne_eq, String.append_eq_empty_iff]
      exact fun h => importLine_ne_empty binding h.1
    exact foldl_blocks hlines (t.inNamespace ns) (t.scope ns)

end Table

/-! ## Words of import lines -/

namespace Registry

variable {r : Registry} {ns n word : String} {d : Definition} {q : QName}

theorem qualifier_of_alias (h : r.finalize.aliases.get? n = some word) :
    (r.finalize.scope ns).qualifier n = word := by
  simp [Scope.qualifier, Table.scope, h]

/-- The import lines of a namespace that owns a definition. -/
theorem mem_bindings {binding : String × String} : binding ∈ r.finalize.bindings ns ↔
    ∃ foreign, r.finalize.importsOf? ns = some foreign ∧ binding.2 ∈ foreign ∧
      r.finalize.aliases.get? binding.2 = some binding.1 := by
  obtain ⟨word, n⟩ := binding
  cases himports : r.finalize.importsOf? ns with
  | none => simp [Table.bindings, himports]
  | some foreign =>
    simp only [Table.bindings, himports, Option.getD_some, List.mem_map, Prod.mk.injEq,
      Option.some.injEq, exists_eq_left']
    have halias (hn : n ∈ foreign) : ∃ word, r.finalize.aliases.get? n = some word :=
      exists_alias_iff.2 (.inr ⟨ns, foreign, himports, hn⟩)
    constructor
    · rintro ⟨_, hn, hword, rfl⟩
      obtain ⟨word', hword'⟩ := halias hn
      rw [qualifier_of_alias hword'] at hword
      exact ⟨hn, hword ▸ hword'⟩
    · rintro ⟨hn, hword⟩
      exact ⟨n, hn, qualifier_of_alias hword, rfl⟩

theorem nodup_bindings (r : Registry) (ns : String) : (r.finalize.bindings ns).Nodup := by
  unfold Table.bindings
  cases himports : r.finalize.importsOf? ns with
  | none => simp
  | some foreign =>
    refine List.Nodup.map_on (fun n _ n' _ h => congrArg Prod.snd h) ?_
    rw [Option.getD_some, (importsOf?_eq_some_iff.1 himports).2]
    exact nodup_sortedSet _

/-- Of the import lines exactly one binds the alias of an imported namespace. -/
theorem filter_bindings (h : (word, n) ∈ r.finalize.bindings ns) :
    (r.finalize.bindings ns).filter (·.1 = word) = [(word, n)] := by
  obtain ⟨-, -, -, halias⟩ := mem_bindings.1 h
  refine List.perm_singleton.1 ?_
  refine (List.perm_ext_iff_of_nodup ((r.nodup_bindings ns).filter _) (List.nodup_singleton _)).2 ?_
  rintro ⟨word', n'⟩
  simp only [List.mem_filter, decide_eq_true_eq, List.mem_singleton, Prod.mk.injEq]
  constructor
  · rintro ⟨hmem, rfl⟩
    obtain ⟨-, -, -, halias'⟩ := mem_bindings.1 hmem
    exact ⟨rfl, NamespaceAliases.eq_of_get?_assign halias' halias⟩
  · rintro ⟨rfl, rfl⟩
    exact ⟨h, rfl⟩

/-- What a body mentions of another namespace is written behind the word of its import line. -/
theorem exists_binding (hd : d ∈ r.finalize.inNamespace ns) (hq : d.body.Mentions q)
    (hne : q.ns ≠ ns) : ∃ word, (word, q.ns) ∈ r.finalize.bindings ns ∧
      (r.finalize.scope ns).name q = word ++ "." ++ q.name := by
  obtain ⟨hmem, hns⟩ := Table.mem_inNamespace.1 hd
  have himports := importsOf?_eq_some_iff.2 ⟨mem_namespaces.2 ⟨d, hmem, hns⟩, rfl⟩
  have hforeign := (mem_imports himports).2 ⟨hne, d, hd, q, hq, rfl⟩
  obtain ⟨word, hword⟩ := exists_alias_iff.2 (.inr ⟨ns, _, himports, hforeign⟩)
  refine ⟨word, mem_bindings.2 ⟨_, himports, hforeign, hword⟩, ?_⟩
  have hname : (r.finalize.scope ns).name q =
      (r.finalize.scope ns).qualifier q.ns ++ "." ++ q.name := if_neg hne
  rw [hname, qualifier_of_alias hword]

end Registry

/-! ## Faithful tables -/

/-- The text of a namespace is the import lines and the definitions, and they fit. -/
structure Table.Qualified (t : Table) (ns : String) : Prop where
  /-- The text consists of its blocks. -/
  text : t.renderNamespace ns = "\n".intercalate (t.blocks ns)
  /-- Whatever the scope, a definition names what its body mentions and nothing else. -/
  names : ∀ d ∈ t.inNamespace ns, Writes (fun scope => d.render scope) d.body.references ∧
    ∀ q, q ∈ d.body.references ↔ d.body.Mentions q
  /-- A name of another namespace stands behind the alias that exactly one line binds. -/
  bound : ∀ d ∈ t.inNamespace ns, ∀ q, d.body.Mentions q → q.ns ≠ ns →
    ∃ word, t.aliases.get? q.ns = some word ∧ (t.scope ns).name q = word ++ "." ++ q.name ∧
      (t.bindings ns).filter (·.1 = word) = [(word, q.ns)]
  /-- Every line binds the alias of another namespace that some body mentions. -/
  used : ∀ word n, (word, n) ∈ t.bindings ns → t.aliases.get? n = some word ∧ n ≠ ns ∧
    ∃ d ∈ t.inNamespace ns, ∃ q, d.body.Mentions q ∧ q.ns = n

/-- A table stands for a registry. -/
structure Table.Faithful (t : Table) (r : Registry) : Prop where
  /-- The definitions are in strict order: by namespace, then by name. -/
  sorted : t.definitions.Pairwise fun d e =>
    d.name.ns < e.name.ns ∨ d.name.ns = e.name.ns ∧ d.name.name < e.name.name
  /-- They are those of the registry. -/
  definitions : ∀ d, d ∈ t.definitions ↔ r.get? d.name = some d
  /-- A name is looked up as in the registry. -/
  lookup : ∀ q, t.get? q = r.get? q
  /-- The namespaces are those that own a definition, in ascending order. -/
  owned : t.namespaces.Pairwise (· < ·) ∧
    ∀ ns, ns ∈ t.namespaces ↔ ∃ d ∈ t.definitions, d.name.ns = ns
  /-- Filing the definitions under the namespaces neither loses nor repeats one. -/
  filed : (t.namespaces.flatMap t.inNamespace).Perm t.definitions ∧
    ∀ ns d, d ∈ t.inNamespace ns ↔ d ∈ t.definitions ∧ d.name.ns = ns
  /-- Imports are recorded for the namespaces that own a definition. -/
  recorded : ∀ ns, (t.importsOf? ns).isSome ↔ ns ∈ t.namespaces
  /-- They are the other namespaces that the bodies mention, in ascending order. -/
  imported : ∀ ns foreign, t.importsOf? ns = some foreign → foreign.Pairwise (· < ·) ∧
    ∀ n, n ∈ foreign ↔ n ≠ ns ∧ ∃ d ∈ t.inNamespace ns, ∃ q, d.body.Mentions q ∧ q.ns = n
  /-- The namespaces with an alias are those that own a definition or are imported. -/
  aliased : ∀ n, (∃ word, t.aliases.get? n = some word) ↔
    n ∈ t.namespaces ∨ ∃ ns foreign, t.importsOf? ns = some foreign ∧ n ∈ foreign
  /-- The text of each namespace fits its imports. -/
  qualified : ∀ ns, t.Qualified ns

namespace Registry

variable {r : Registry}

theorem qualified_finalize (r : Registry) (ns : String) : r.finalize.Qualified ns where
  text := Table.renderNamespace_eq r.finalize ns
  names d _ := ⟨d.writes_render, fun q => Body.mem_references⟩
  bound d hd q hq hne := by
    obtain ⟨word, hbinding, hname⟩ := exists_binding hd hq hne
    obtain ⟨-, -, -, halias⟩ := mem_bindings.1 hbinding
    exact ⟨word, halias, hname, filter_bindings hbinding⟩
  used word n h := by
    obtain ⟨foreign, himports, hn, halias⟩ := mem_bindings.1 h
    exact ⟨halias, (mem_imports himports).1 hn⟩

theorem Unique.faithful (h : r.Unique) : r.finalize.Faithful r where
  sorted := h.pairwise_lt_finalize
  definitions d := h.mem_finalize_iff
  lookup := h.get?_finalize
  owned := ⟨r.pairwise_lt_namespaces, fun ns => mem_namespaces⟩
  filed := ⟨h.flatMap_inNamespace_perm, fun ns d => Table.mem_inNamespace⟩
  recorded ns := by
    simp [Option.isSome_iff_exists, importsOf?_eq_some_iff]
  imported ns foreign himports := by
    refine ⟨?_, fun n => mem_imports himports⟩
    rw [(importsOf?_eq_some_iff.1 himports).2]
    exact pairwise_lt_sortedSet _
  aliased n := exists_alias_iff
  qualified := r.qualified_finalize

/-- Whatever definitions have been offered to a registry, the table that it is closed into stands
for it. -/
theorem faithful_finalize (offered : List Definition) :
    (offered.foldl merge {}).finalize.Faithful (offered.foldl merge {}) := by
  have hempty : ({} : Registry).Unique := List.nodup_nil
  exact (unique_foldl_merge hempty offered).faithful

end Registry

end ClientTypes

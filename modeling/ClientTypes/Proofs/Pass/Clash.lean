import ClientTypes.Proofs.Pass.Covered
import ClientTypes.Proofs.Pass.References
import ClientTypes.Proofs.Registry.Naming

/-!
# Words that a pass binds

Aliases are made from the paths of namespaces, and definitions are called like the types that they
come from. Neither looks at the other. So the text of a namespace binds a word twice if and only if
one of its types is called like the alias of a namespace that it imports.

## Main definitions

* `Project.SetsApart` — no type of a namespace is called like an alias of another one

The main statement is `nodup_boundNames`.
-/

namespace ClientTypes

/-- The types of the namespace have names that do not spell the namespaces of other types. -/
def Project.SetsApart (project : Project) (ns : String) : Prop :=
  ∀ id q, project.Names id q → q.ns = ns →
    ∀ id' q', project.Names id' q' → q'.ns ≠ ns → ¬ NamespaceAliases.Spells q.name q'.ns

/-- Capitals in the names set a namespace apart where paths have none. -/
theorem Project.setsApart_of_lowered {project : Project} {ns : String}
    (hnames : ∀ id q, project.Names id q → q.ns = ns → ¬ Text.Lowered q.name)
    (hpaths : ∀ id q, project.Names id q → Text.Lowered q.ns) : project.SetsApart ns :=
  fun id q hq hns id' q' hq' _ hspells =>
    hnames id q hq hns (hspells.lowered (hpaths id' q' hq'))

namespace Pass

variable {p : Pass} {cs : List Contract} {ns : String} {d : Definition} {q : QName}

/-- A definition is called like the type that it comes from. -/
theorem names_of_mem (hd : d ∈ (p.contracts cs {}).2.definitions) :
    p.resolver.project.Names d.typeId d.name := by
  obtain ⟨decl, hdecl, hname, -, -⟩ := (p.rests_unique cs).exists_origin hd
  exact ⟨decl, hdecl, hname⟩

/-- What a definition mentions is the name of some type. -/
theorem exists_names_of_mentions (hd : d ∈ (p.contracts cs {}).2.definitions)
    (hq : d.body.Mentions q) : ∃ id, p.resolver.project.Names id q := by
  obtain ⟨hclosed, -⟩ := p.closed_contracts cs
  have hcontains := hclosed.contains_of_mem_references hd (Body.mem_references.2 hq)
  obtain ⟨e, he⟩ := Option.isSome_iff_exists.1 hcontains
  exact ⟨e.typeId, Registry.name_of_get? he ▸ names_of_mem (Registry.mem_of_get? he)⟩

/-- A definition that is called like an import spells the namespace of another type. -/
theorem exists_spells_of_clash {binding : String × String}
    (hbinding : binding ∈ (p.contracts cs {}).2.finalize.bindings ns)
    (hd : d ∈ (p.contracts cs {}).2.finalize.inNamespace ns) (heq : binding.1 = d.name.name) :
    p.resolver.project.Names d.typeId d.name ∧ d.name.ns = ns ∧
      ∃ id q, p.resolver.project.Names id q ∧ q.ns ≠ ns ∧
        NamespaceAliases.Spells d.name.name q.ns := by
  obtain ⟨word, n⟩ := binding
  obtain ⟨hmem, hns⟩ := Table.mem_inNamespace.1 hd
  refine ⟨names_of_mem (Registry.mem_definitions_finalize.1 hmem), hns, ?_⟩
  obtain ⟨halias, hne, e, he, q, hq, rfl⟩ :=
    (Registry.qualified_finalize _ ns).used word n hbinding
  have hmem' := Registry.mem_definitions_finalize.1 (Table.mem_inNamespace.1 he).1
  obtain ⟨id, hid⟩ := exists_names_of_mentions hmem' hq
  exact ⟨id, q, hid, hne, heq ▸ NamespaceAliases.spells_of_get?_assign halias⟩

end Pass

/-- In the text of a namespace no word is bound twice, unless a definition of the namespace is
called like an import. None is where the names of its types do not spell the namespaces of other
types. -/
theorem nodup_boundNames (project : Project) (config : Config) (contracts : List Contract) :
    let t := (generate project config contracts).table
    ∀ ns,
      ((t.boundNames ns).Nodup ↔
        ∀ binding ∈ t.bindings ns, ∀ d ∈ t.inNamespace ns, binding.1 ≠ d.name.name) ∧
      (project.SetsApart ns → (t.boundNames ns).Nodup) := by
  dsimp only [generate]
  intro ns
  let p := Pass.make project config
  have hiff := (p.unique_contracts contracts).nodup_boundNames_iff ns
  refine ⟨hiff, fun hapart => hiff.2 fun binding hbinding d hd heq => ?_⟩
  obtain ⟨hnames, hns, id, q, hq, hne, hspells⟩ := Pass.exists_spells_of_clash hbinding hd heq
  exact hapart d.typeId d.name hnames hns id q hq hne hspells

/-! ## Money in a shop -/

namespace Prices

-- The runs below are evaluated, down to the tags of fields.
attribute [local semireducible] Tag.lookupChars

def till : Contract where
  name := "Till"
  package := "shop"
  operations := [{ name := "Pay", results := [{ name := "price", type := ⟨"shop.money"⟩ }] }]

/-- The shop has a type for money, which has an amount from the package `money` in it. -/
def project (name : String) : Project where
  path := "shop"
  contracts := [till]
  types :=
    [(⟨"shop.money"⟩, {
        package := some "shop", name := some name
        kind := .struct [{ var := { name := "Amount", type := ⟨"money.Amount"⟩ } }] }),
     (⟨"money.Amount"⟩, { package := some "money", name := some "Amount", kind := .struct [] })]

/-- With a capital the type is set apart from the package. -/
theorem nodup_boundNames_money :
    ((generate (project "Money") {} [till]).table.boundNames "shop").Nodup := by
  obtain ⟨-, h⟩ := nodup_boundNames (project "Money") {} [till] "shop"
  have htypes : ∀ t ∈ (project "Money").types, ∀ q ∈ t.2.qname?,
      Text.Lowered q.ns ∧ ¬ Text.Lowered q.name := by
    decide
  have hnames (id : TypeId) (q : QName) :
      (project "Money").Names id q → Text.Lowered q.ns ∧ ¬ Text.Lowered q.name :=
    fun ⟨_, hdecl, hq⟩ => htypes _ (Project.mem_types_of_type? hdecl) q hq
  exact h (Project.setsApart_of_lowered (fun id q hq _ => (hnames id q hq).2)
    fun id q hq => (hnames id q hq).1)

def pass : Pass := .make (project "money") {}

theorem mem_references_money : ∃ d ∈ (pass.resolved till {}).definitions,
    d.name = ⟨"shop", "money"⟩ ∧ ⟨"money", "Amount"⟩ ∈ d.body.references := by
  decide

theorem aliases_resolved : (pass.resolved till {}).finalize.aliases =
    ⟨[("money", "money"), ("shop", "shop")]⟩ := by
  have hnamespaces : (pass.resolved till {}).definitions.flatMap
      (fun d => (d.name :: d.body.references).map (·.ns)) = ["money", "shop", "money"] := by
    decide
  have hsorted : sortedSet ["money", "shop"] = ["money", "shop"] :=
    List.mergeSort_of_pairwise (by decide)
  have hassign : NamespaceAliases.assign ["money", "shop", "money"] =
      NamespaceAliases.assign ["money", "shop"] :=
    NamespaceAliases.assign_congr (by simp [or_comm])
  rw [Registry.aliases_finalize, hnamespaces, hassign, NamespaceAliases.assign, hsorted,
    NamespaceAliases.widen]
  decide

/-- The shop imports the package as `money` and has a definition of that name. -/
theorem exists_word_bound_twice :
    ¬ ((generate (project "money") {} [till]).table.boundNames "shop").Nodup := by
  have htable : (generate (project "money") {} [till]).table =
      (pass.resolved till {}).finalize :=
    Pass.table_of_registered (by decide)
  have hunique : (pass.resolved till {}).Unique := pass.unique_resolvedAll [till]
  rw [htable, hunique.nodup_boundNames_iff]
  intro h
  obtain ⟨d, hd, hname, hq⟩ := mem_references_money
  have hmem : d ∈ (pass.resolved till {}).finalize.inNamespace "shop" :=
    Table.mem_inNamespace.2 ⟨Registry.mem_definitions_finalize.2 hd, by rw [hname]⟩
  obtain ⟨word, hbinding, -⟩ :=
    Registry.exists_binding hmem (Body.mem_references.1 hq) (by decide)
  obtain ⟨-, -, -, halias⟩ := Registry.mem_bindings.1 hbinding
  rw [aliases_resolved] at halias
  obtain rfl : "money" = word := by simpa [NamespaceAliases.get?] using halias
  exact h _ hbinding d hmem (by rw [hname])

end Prices

end ClientTypes

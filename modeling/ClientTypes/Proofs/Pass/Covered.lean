import ClientTypes.Proofs.Pass.Reached
import ClientTypes.Proofs.Pass.Rest
import ClientTypes.Proofs.Path

/-!
# A pass covers what its contracts need

After a contract has been run, every named type that it needs has a definition: some root has
registered it, or its gap has been filled. Where the roots register all types there are no gaps, and
the table of a pass is that of its roots.

## Main definitions

* `Resolver.Registered` — types that are said to be registered have definitions
* `Pass.Covers` — all that a contract needs is defined
* `Pass.resolvedAll` — the registry that the roots of several contracts leave behind

The main statements are `covers_contracts` and `isSome_get?_of_reachable`.
-/

namespace ClientTypes

namespace Resolver

variable {r : Resolver} {reg : Registry} {id : TypeId} {decl : TypeDecl} {q : QName}

/-- The types that the first definitions of names came from have definitions of their own names. -/
def Registered (r : Resolver) (reg : Registry) : Prop :=
  ∀ id ∈ reg.typeIds, ∀ q, r.project.Names id q → reg.contains q

theorem Registered.merge (h : r.Registered reg) (hd : r.project.type? id = some decl)
    (hq : decl.qname? = some q) (b : Body) : r.Registered (reg.merge (definition id decl q b)) := by
  intro i hi q' hq'
  rw [Registry.contains_merge]
  rcases Registry.mem_typeIds_merge.1 hi with ⟨rfl, -⟩ | hi
  · exact .inl (Option.some.inj ((hq'.qname?_eq hd).symm.trans hq))
  · exact .inr (h i hi q' hq')

theorem steps_registered (r : Resolver) : r.Steps r.Registered where
  hide hc hh hname := hc.registry.merge hh.declared hname _
  back hc ho hname _ _ := hc.registry.merge ho.declared hname _
  complete hsite _ hname _ hc' _ := by
    have h := hc'.registry.merge hsite.opens.declared hname
    intro i hi q hq
    simpa using h _ i (by simpa using hi) q hq

end Resolver

namespace Pass

variable {p : Pass} {I : Registry → Prop} {registry : Registry} {id : TypeId} {decl : TypeDecl}
  {q : QName}

theorem contains_fill (hp : p.Coherent) (h : p.resolver.Rests p.resolver.Registered registry)
    (hd : p.resolver.project.type? id = some decl) (hq : decl.qname? = some q)
    (hs : p.resolver.substitute? decl = none) : (p.fill registry id).contains q := by
  obtain ⟨ns, hns⟩ : ∃ ns, decl.package = some ns := by
    cases hns : decl.package with
    | none => simp [TypeDecl.qname?, hns] at hq
    | some ns => exact ⟨ns, rfl⟩
  have hsub : p.collector.isSubstituted decl = false := by
    rw [hp.shares.isSubstituted, hs]
    rfl
  unfold fill
  split
  · next hid => exact h.registry id (by simpa [Registry.containsType] using hid) q ⟨decl, hd, hq⟩
  · simp only [← hp.project, hd, hns, hsub, Bool.false_eq_true, if_false]
    exact Resolver.contains_of_resolve p.resolver.steps_registered h hd hq hs ns .inbound 0

/-- Every named type that a contract needs has a definition, unless it is substituted. -/
def Covers (p : Pass) (c : Contract) (registry : Registry) : Prop :=
  ∀ id ∈ p.collector.collectContract c, ∀ decl q, p.resolver.project.type? id = some decl →
    decl.qname? = some q → p.resolver.substitute? decl = none → registry.contains q

theorem stable_covers (c : Contract) : (Registry.law I).Stable (p.Covers c) :=
  fun _ _ _ hle h id hid decl q hd hq hs => hle.contains (h id hid decl q hd hq hs)

/-- Filling gaps keeps a registry at rest, and fills them. -/
theorem contains_foldl_fill (hp : p.Coherent) (ids : List TypeId)
    (h : p.resolver.Rests p.resolver.Registered registry) (hid : id ∈ ids)
    (hd : p.resolver.project.type? id = some decl) (hq : decl.qname? = some q)
    (hs : p.resolver.substitute? decl = none) : (ids.foldl p.fill registry).contains q := by
  have hfill (i : TypeId) (registry : Registry)
      (h : p.resolver.Rests p.resolver.Registered registry) :=
    (Resolver.preserves_resolve p.resolver.steps_registered i 0).fill registry h
  induction ids generalizing registry with
  | nil => simp at hid
  | cons i ids ih =>
    obtain ⟨h', -⟩ := hfill i registry h
    rcases List.mem_cons.1 hid with rfl | hid
    · have hext := (keeps_foldl_fill (fun j (_ : j ∈ ids) => hfill j) _ h').2
      exact hext.contains (contains_fill hp h hd hq hs)
    · exact ih h' hid

theorem covers_contract (hp : p.Coherent) (c : Contract) :
    (Registry.law (p.resolver.Rests p.resolver.Registered)).Keeps (fun _ => True) (p.contract c)
      fun _ => p.Covers c := by
  intro registry hreg _
  have hI := p.resolver.steps_registered
  obtain ⟨hreg', hle, -⟩ := rests_contract hI c registry hreg trivial
  obtain ⟨hresolved, -⟩ := rests_resolved hI c hreg
  exact ⟨hreg', hle, fun id hid decl q hd hq hs =>
    contains_foldl_fill hp _ hresolved hid hd hq hs⟩

/-- After a pass every named type that some contract needs has a definition. -/
theorem covers_contracts (hp : p.Coherent) {cs : List Contract} {c : Contract} (hc : c ∈ cs) :
    p.Covers c (p.contracts cs {}).2 := by
  obtain ⟨-, -, hcovers⟩ := Law.Keeps.mapM (Law.stable_const True)
    (fun c (_ : ResolvedContract) => stable_covers c) cs (fun c _ => covers_contract hp c) {}
    (.empty _ (by simp [Resolver.Registered])) trivial
  rw [contracts_eq_mapM]
  obtain ⟨_, -, h⟩ := exists_of_mem_left hcovers hc
  exact h

/-! ## Passes without gaps -/

theorem foldl_fill_of_registered {ids : List TypeId} (h : ∀ id ∈ ids, registry.containsType id) :
    ids.foldl p.fill registry = registry := by
  induction ids with
  | nil => rfl
  | cons id ids ih =>
    have hfill : p.fill registry id = registry := by
      unfold fill
      rw [if_pos (h id (by simp))]
    rw [List.foldl_cons, hfill]
    exact ih fun i hi => h i (by simp [hi])

/-- Where its operations have registered all types, a contract leaves no gap. -/
theorem contract_of_registered (hp : p.Coherent) {c : Contract}
    (h : ∀ t ∈ p.resolver.project.types, (p.resolved c registry).containsType t.1) :
    (p.contract c registry).2 = p.resolved c registry := by
  refine foldl_fill_of_registered fun id hid => ?_
  have hcol := (Collector.mem_collectContract.1 hid).1
  unfold Collector.collects at hcol
  rw [hp.shares.project] at hcol
  split at hcol
  · simp at hcol
  · next decl hd => exact h (id, decl) (Project.mem_types_of_type? hd)

/-- The registry when the operations of several contracts have been resolved. -/
def resolvedAll (p : Pass) (cs : List Contract) (registry : Registry) : Registry :=
  cs.foldl (fun registry c => p.resolved c registry) registry

theorem rests_resolvedAll (hI : p.resolver.Steps I) (cs : List Contract)
    (h : p.resolver.Rests I registry) : p.resolver.Rests I (p.resolvedAll cs registry) := by
  induction cs generalizing registry with
  | nil => exact h
  | cons c cs ih => exact ih (rests_resolved hI c h).1

theorem unique_resolvedAll (p : Pass) (cs : List Contract) : (p.resolvedAll cs {}).Unique :=
  (rests_resolvedAll p.resolver.steps_unique cs (.empty _ .empty)).registry

/-- Where all types are registered, contracts leave no gaps. -/
theorem contracts_of_registered (hp : p.Coherent) (hI : p.resolver.Steps I)
    (hrests : p.resolver.Rests I registry)
    (h : ∀ t ∈ p.resolver.project.types, registry.containsType t.1) (cs : List Contract) :
    (p.contracts cs registry).2 = p.resolvedAll cs registry := by
  induction cs generalizing registry with
  | nil => rfl
  | cons c cs ih =>
    obtain ⟨hrests', hext⟩ := rests_resolved hI c hrests
    have h' : ∀ t ∈ p.resolver.project.types, (p.resolved c registry).containsType t.1 := by
      intro t ht
      have hmem : t.1 ∈ registry.typeIds := List.contains_iff_mem.1 (h t ht)
      exact List.contains_iff_mem.2 (hext.typeIds hmem)
    have hcons : (p.contracts (c :: cs) registry).2 =
        (p.contracts cs (p.contract c registry).2).2 := rfl
    rw [hcons, contract_of_registered hp h']
    exact ih hrests' h'

section

variable {project : Project} {config : Config} {c : Contract} {cs : List Contract}
  (h : ∀ t ∈ project.types, ((make project config).resolved c {}).containsType t.1)

include h

/-- Where the first contract registers all types, the table is what the roots have registered. -/
theorem table_of_registered : (generate project config (c :: cs)).table =
    ((make project config).resolvedAll (c :: cs) {}).finalize := by
  let p := make project config
  have hp : p.Coherent := coherent_make project config
  have hrests := (rests_resolved p.resolver.steps_true c (.empty _ trivial)).1
  have hcontracts :
      (p.contracts cs (p.contract c {}).2).2 = p.resolvedAll cs (p.resolved c {}) := by
    rw [contract_of_registered hp h]
    exact contracts_of_registered hp p.resolver.steps_true hrests h cs
  exact congrArg Registry.finalize hcontracts

theorem exists_definition_of_registered {P : Definition → Prop}
    (hP : ∃ d ∈ ((make project config).resolvedAll (c :: cs) {}).definitions, P d) :
    ∃ d ∈ (generate project config (c :: cs)).table.definitions, P d := by
  obtain ⟨d, hd, hPd⟩ := hP
  rw [table_of_registered h]
  exact ⟨d, Registry.mem_definitions_finalize.2 hd, hPd⟩

theorem exists_get?_of_registered {P : Definition → Prop} {q : QName}
    (hP : ∃ d ∈ ((make project config).resolvedAll (c :: cs) {}).definitions, d.name = q ∧ P d) :
    ∃ d, (generate project config (c :: cs)).table.get? q = some d ∧ P d := by
  obtain ⟨d, hd, hname, hPd⟩ := hP
  have hunique := (make project config).unique_resolvedAll (c :: cs)
  rw [table_of_registered h]
  exact ⟨d, hunique.get?_finalize_eq_some_iff.2 (hunique.get?_eq_some_iff.2 ⟨hd, hname⟩), hPd⟩

end

end Pass

/-- What a contract is said to need is what the collector returns for it: declared types with names.
Each of them that has no substitute is defined under its own name at the end of the pass. -/
theorem isSome_get?_of_reachable (project : Project) (config : Config)
    (contracts : List Contract) :
    let g := generate project config contracts
    List.Forall₂ (fun contract c =>
      c.reachable = (Collector.make project config).collectContract contract) contracts
      g.contracts ∧
    ∀ c ∈ g.contracts, ∀ id ∈ c.reachable, ∃ decl q, project.type? id = some decl ∧
      decl.qname? = some q ∧
        (config.substitutionTable.get? q.dotted = none → (g.table.get? q).isSome) := by
  have hp : (Pass.make project config).Coherent := Pass.coherent_make project config
  obtain ⟨-, hreachable⟩ := Pass.within_contracts hp contracts
  refine ⟨hreachable, ?_⟩
  intro c hc id hid
  obtain ⟨contract, hcontract, hcollect⟩ := exists_of_mem_right hreachable hc
  rw [hcollect] at hid
  obtain ⟨decl, q, hd, hq, -⟩ :=
    Collector.collects_iff.1 (Collector.mem_collectContract.1 hid).1
  refine ⟨decl, q, hd, hq, ?_⟩
  intro hnone
  have hs : (Pass.make project config).resolver.substitute? decl = none := by
    unfold Resolver.substitute?
    rw [hq]
    exact hnone
  have hdefined := Pass.covers_contracts hp hcontract id hid decl q hd hq hs
  exact Registry.isSome_get?_finalize.2 hdefined

/-! ## A gap behind a hidden field -/

namespace Depot

def stock : Contract where
  name := "Stock"
  package := "depot"
  operations := [{
    name := "Find"
    results := [{ name := "item", type := ⟨"Item"⟩ }, { name := "spare", type := ⟨"Spare"⟩ }] }]

/-- An item hides its part, so that resolution never comes to it. A spare goes by the name of an
item. -/
def project : Project where
  path := "depot"
  contracts := [stock]
  types :=
    [(⟨"Item"⟩, {
        package := some "depot", name := some "Item"
        kind := .struct [{ var := { name := "part", type := ⟨"Part"⟩ } }] }),
     (⟨"Spare"⟩, {
        package := some "depot", name := some "Item"
        kind := .aliasOf { target := some ⟨"Part"⟩ } }),
     (⟨"Part"⟩, { package := some "depot", name := some "Part", kind := .struct [] })]

theorem part_mem_collectContract :
    ⟨"Part"⟩ ∈ (Collector.make project {}).collectContract stock := by
  have hroot : (⟨"Item"⟩, .inbound) ∈ (Collector.make project {}).contractRoots stock := by decide
  have hnext : (⟨"Part"⟩, .inbound) ∈
      (Collector.make project {}).successors (⟨"Item"⟩, .inbound) := by
    decide
  exact Collector.mem_collectContract.2 ⟨by decide, .inbound, _, hroot, .single hnext⟩

/-- The part has a definition all the same. -/
theorem isSome_get?_part :
    ((generate project {} [stock]).table.get? ⟨"depot", "Part"⟩).isSome := by
  obtain ⟨hreachable, hdefined⟩ := isSome_get?_of_reachable project {} [stock]
  obtain ⟨c, hc, hcollect⟩ := exists_of_mem_left hreachable (List.mem_singleton.2 rfl)
  have hid : ⟨"Part"⟩ ∈ c.reachable := by
    rw [hcollect]
    exact part_mem_collectContract
  obtain ⟨decl, q, hd, hq, h⟩ := hdefined c hc ⟨"Part"⟩ hid
  obtain rfl : { package := some "depot", name := some "Part", kind := .struct [] } = decl :=
    Option.some.inj hd
  obtain rfl : ⟨"depot", "Part"⟩ = q := Option.some.inj hq
  exact h rfl

end Depot

end ClientTypes

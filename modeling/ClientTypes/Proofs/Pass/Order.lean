import ClientTypes.Proofs.Pass.Promotion

/-!
# The order of contracts

The contracts of a pass share a registry, and what the first one leaves there the next one reads.
Still the definitions of steady types do not depend on the order in which the contracts are run, and
neither does the set of names that are defined, unless the filling of gaps goes beyond what the
contracts reach.

The main statement is `generate_perm`.
-/

namespace ClientTypes

namespace Resolver

variable {r : Resolver} {a : Aspect} {reg reg₁ reg₂ : Registry} {k : Nat} {q : QName}

/-- Two registries at rest define a name from the same type, and alike if the type is steady. -/
theorem Rests.agree (hdistinct : r.project.Distinct) (h₁ : r.Rests (r.layer (k + 1)) reg₁)
    (h₂ : r.Rests (r.layer (k + 1)) reg₂) {d₁ d₂ : Definition} (hd₁ : reg₁.get? q = some d₁)
    (hd₂ : reg₂.get? q = some d₂) :
    d₁.typeId = d₂.typeId ∧ d₁.doc = d₂.doc ∧
      (r.SteadyAt a k d₁.typeId → a.body d₁.body = a.body d₂.body) := by
  obtain ⟨decl₁, hdecl₁, hq₁, -, hdoc₁⟩ := h₁.exists_origin (Registry.mem_of_get? hd₁)
  obtain ⟨decl₂, hdecl₂, hq₂, -, hdoc₂⟩ := h₂.exists_origin (Registry.mem_of_get? hd₂)
  rw [Registry.name_of_get? hd₁] at hq₁
  rw [Registry.name_of_get? hd₂] at hq₂
  have hnames₁ : r.project.Names d₁.typeId q := ⟨decl₁, hdecl₁, hq₁⟩
  have htype := hdistinct _ _ _ hnames₁ ⟨decl₂, hdecl₂, hq₂⟩
  obtain rfl : decl₁ = decl₂ := Option.some.inj (hdecl₁.symm.trans (htype ▸ hdecl₂))
  refine ⟨htype, hdoc₁.trans hdoc₂.symm, fun hs => ?_⟩
  rcases h₁.done_or_opaque (Registry.mem_of_get? hd₁) hs.even with ⟨hdone₁, hopens⟩ | ⟨hhides, hb₁⟩
  all_goals
    rcases h₂.done_or_opaque (Registry.mem_of_get? hd₂) (htype ▸ hs.even) with
      ⟨hdone₂, hopens₂⟩ | ⟨⟨decl', hhides₂⟩, hb₂⟩
  · obtain ⟨e₁, e₂, he₁, he₂, -, hb⟩ := (agrees hdistinct a k).exists_get? hs (h₁.inv "" .outbound)
      (h₂.inv "" .outbound) hnames₁ hdone₁ (htype ▸ hdone₂)
    obtain rfl : e₁ = d₁ := Option.some.inj (he₁.symm.trans hd₁)
    obtain rfl : e₂ = d₂ := Option.some.inj (he₂.symm.trans hd₂)
    exact hb
  · exact (hopens decl' (htype ▸ hhides₂)).elim
  · obtain ⟨decl', hhides⟩ := hhides
    exact (hopens₂ decl' (htype ▸ hhides)).elim
  · rw [hb₁, hb₂]

end Resolver

namespace Pass

variable {p : Pass}

/-- Unless gaps are filled beyond what contracts reach, a pass defines the names of the types that
some contract needs, apart from the substituted ones. -/
theorem contains_contracts_iff (hp : p.Coherent) {cs : List Contract}
    (hcs : ∀ c ∈ cs, ∀ id, ¬ p.collector.BehindWriter c id) (q : QName) :
    (p.contracts cs {}).2.contains q ↔ ∃ c ∈ cs, ∃ id ∈ p.collector.collectContract c, ∃ decl,
      p.resolver.project.type? id = some decl ∧ decl.qname? = some q ∧
        p.resolver.substitute? decl = none := by
  constructor
  · intro hq
    obtain ⟨d, hd⟩ := Option.isSome_iff_exists.1 hq
    have hmem := Registry.mem_of_get? hd
    obtain ⟨c, hc, hid⟩ := (within_contracts hp cs).1 d hmem
    obtain ⟨decl, hdecl, hname, hs, -⟩ := (p.rests_unique cs).exists_origin hmem
    refine ⟨c, hc, d.typeId, hid.resolve_right (hcs c hc _), decl, hdecl, ?_, hs⟩
    rw [hname, Registry.name_of_get? hd]
  · rintro ⟨c, hc, id, hid, decl, hdecl, hq, hs⟩
    exact covers_contracts hp hc id hid decl q hdecl hq hs

/-- Two passes define a name from the same type, and alike if the type is steady. -/
theorem agree_contracts (hdistinct : p.resolver.project.Distinct) {cs cs' : List Contract}
    {q : QName} {d d' : Definition} (hd : (p.contracts cs {}).2.get? q = some d)
    (hd' : (p.contracts cs' {}).2.get? q = some d') :
    d.typeId = d'.typeId ∧ d.doc = d'.doc ∧
      (p.resolver.Steady .whole d.typeId → d.body = d'.body) := by
  have hrests := p.rests_layer hdistinct
  obtain ⟨htype, hdoc, -⟩ := (hrests cs 1).agree (a := .whole) hdistinct (hrests cs' 1) hd hd'
  refine ⟨htype, hdoc, fun ⟨k, hs⟩ => ?_⟩
  simpa using ((hrests cs (k + 1)).agree hdistinct (hrests cs' (k + 1)) hd hd').2.2 hs

end Pass

/-- The same contracts in another order define a name from the same type, and steady types alike.
They define the same names, unless a contract meets as part of an argument a type that controls how
it is written but not how it is read; and the same table if all types are steady too. -/
theorem generate_perm (project : Project) (config : Config) (hdistinct : project.Distinct)
    {contracts contracts' : List Contract} (hperm : contracts.Perm contracts') :
    let table := (generate project config contracts).table
    let table' := (generate project config contracts').table
    let r := Resolver.make project config
    (∀ q d d', table.get? q = some d → table'.get? q = some d' →
      d.typeId = d'.typeId ∧ d.doc = d'.doc ∧ (r.Steady .whole d.typeId → d.body = d'.body)) ∧
    ((∀ c ∈ contracts, ∀ id, ¬ (Collector.make project config).BehindWriter c id) →
      (∀ q, (table.get? q).isSome = (table'.get? q).isSome) ∧
        ((∀ d ∈ table.definitions, r.Steady .whole d.typeId) → table = table')) := by
  dsimp only [generate]
  let p := Pass.make project config
  have hp : p.Coherent := Pass.coherent_make project config
  have hunique := p.unique_contracts contracts
  have hunique' := p.unique_contracts contracts'
  refine ⟨fun q d d' hd hd' => Pass.agree_contracts (p := p) hdistinct
    (hunique.get?_finalize_eq_some_iff.1 hd) (hunique'.get?_finalize_eq_some_iff.1 hd'),
    fun hcs => ?_⟩
  have hcontains (q : QName) :
      (p.contracts contracts {}).2.contains q ↔ (p.contracts contracts' {}).2.contains q := by
    rw [Pass.contains_contracts_iff hp hcs q,
      Pass.contains_contracts_iff hp (fun c hc => hcs c (hperm.mem_iff.2 hc)) q]
    simp only [hperm.mem_iff]
  refine ⟨fun q => ?_, fun hsteady => ?_⟩
  · rw [Bool.eq_iff_iff, Registry.isSome_get?_finalize, Registry.isSome_get?_finalize]
    exact hcontains q
  · refine Registry.finalize_congr hunique hunique' fun q => ?_
    cases hd : (p.contracts contracts {}).2.get? q with
    | none =>
      symm
      simpa [Registry.contains, hd] using hcontains q
    | some d =>
      obtain ⟨d', hd'⟩ := Option.isSome_iff_exists.1
        ((hcontains q).1 (Option.isSome_iff_exists.2 ⟨d, hd⟩))
      have hs := hsteady d (Registry.mem_definitions_finalize.2 (Registry.mem_of_get? hd))
      obtain ⟨htype, hdoc, hbody⟩ := Pass.agree_contracts (p := p) hdistinct hd hd'
      have hbody' := hbody hs
      have hname := (Registry.name_of_get? hd).trans (Registry.name_of_get? hd').symm
      have heq : d = d' := by
        cases d
        cases d'
        simp_all
      rw [hd', heq]

/-! ## A project without cycles -/

namespace Team

-- The runs below are evaluated, down to the tags of fields.
attribute [local semireducible] Tag.lookupChars

def people : Contract where
  name := "People"
  package := "team"
  operations := [{ name := "Find", results := [{ name := "person", type := ⟨"Person"⟩ }] }]

/-- Members and people have the same table in either order. -/
theorem table_members_people :
    (generate project {} [members, people]).table =
      (generate project {} [people, members]).table := by
  have hwriters : ∀ t ∈ project.types,
      Direction.outbound.isOverriddenBy t.2.capabilities = false := by
    decide
  obtain ⟨-, h⟩ := generate_perm project {} distinct (List.Perm.swap people members [])
  refine (h fun c _ id ⟨writer, decl, hd, hout, _⟩ => ?_).2 fun d _ =>
    Resolver.steady_of_rank rank_lt (by decide) .whole d.typeId
  have := hwriters _ (Project.mem_types_of_type? hd)
  simp [hout] at this

end Team

/-! ## A body that depends on the order -/

namespace Billing

-- The runs below are evaluated, down to the tags of fields.
attribute [local semireducible] Tag.lookupChars

def sending : Contract where
  name := "Sending"
  package := "billing"
  operations := [{ name := "Send", args := [{ name := "invoice", type := ⟨"Invoice"⟩ }] }]

def archive : Contract where
  name := "Archive"
  package := "billing"
  operations := [{ name := "Find", results := [{ name := "invoice", type := ⟨"Invoice"⟩ }] }]

/-- An invoice has a total, and money writes itself. -/
def project : Project where
  path := "billing"
  contracts := [sending, archive]
  types :=
    [(⟨"Invoice"⟩, {
        package := some "billing", name := some "Invoice"
        kind := .struct [{ var := { name := "Total", type := ⟨"Money"⟩ } }] }),
     (⟨"Money"⟩, {
        package := some "billing", name := some "Money", kind := .struct []
        capabilities := { marshalJson := true } })]

theorem exists_opaque_total :
    ∃ d, (generate project {} [sending, archive]).table.get? ⟨"billing", "Invoice"⟩ = some d ∧
      d.body.types.map (·.shape.isOpaque) = [true] :=
  Pass.exists_get?_of_registered (by decide) (by decide)

theorem exists_named_total :
    ∃ d, (generate project {} [archive, sending]).table.get? ⟨"billing", "Invoice"⟩ = some d ∧
      d.body.types.map (·.shape.isOpaque) = [false] :=
  Pass.exists_get?_of_registered (by decide) (by decide)

/-- The total is opaque in an invoice that is sent, and has a name in one that is found. Neither
body is more complete than the other, so that the first one stays. -/
theorem exists_body_ne : project.Distinct ∧ project.contracts.Perm [archive, sending] ∧
    ∃ q d d', (generate project {} project.contracts).table.get? q = some d ∧
      (generate project {} [archive, sending]).table.get? q = some d' ∧ d.body ≠ d'.body := by
  obtain ⟨d, hd, hopaque⟩ := exists_opaque_total
  obtain ⟨d', hd', hnamed⟩ := exists_named_total
  refine ⟨Project.distinct_of_forall (by decide), List.Perm.swap archive sending [],
    ⟨"billing", "Invoice"⟩, d, d', hd, hd', fun hbody => ?_⟩
  rw [hbody, hnamed] at hopaque
  exact absurd hopaque (by decide)

end Billing

end ClientTypes

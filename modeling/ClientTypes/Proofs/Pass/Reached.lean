import ClientTypes.Proofs.Pass.Steps
import ClientTypes.Proofs.Registry.Finalize
import ClientTypes.Proofs.Resolve.Within

/-!
# A pass defines what its contracts reach

The roots of a contract are resolved in the directions in which the collector walks, so that what
they define is collected. The gaps are filled inbound whatever the direction of the walk was. What
that defines is collected too, unless it lies behind a type that the walk met outbound only and
stopped at: one that controls its wire format when it is written, but not when it is read.

## Main definitions

* `Collector.BehindWriter` — behind such a type

The main statement is `typeId_reachable_or_behindWriter`.
-/

namespace ClientTypes

namespace Collector

variable {k : Collector} {c : Contract}

/-- Reached inbound from a type that a contract meets outbound and that controls its wire format
outbound only. -/
def BehindWriter (k : Collector) (c : Contract) (id : TypeId) : Prop :=
  ∃ writer decl, k.project.type? writer = some decl ∧
    Direction.outbound.isOverriddenBy decl.capabilities = true ∧
    Direction.inbound.isOverriddenBy decl.capabilities = false ∧
    k.Meets c (writer, .outbound) ∧ k.Reaches (writer, .inbound) (id, .inbound)

/-- Met in some direction, or behind a type where the outbound walk stopped. -/
def NearlyMeets (k : Collector) (c : Contract) (root : Root) : Prop :=
  (∃ direction, k.Meets c (root.1, direction)) ∨ k.BehindWriter c root.1

/-- Inbound the walk gets no further than outbound, except behind a type that controls its wire
format outbound only. -/
theorem nearlyMeets_next {a b : Root} (ha : k.NearlyMeets c a) (hb : b ∈ k.successors a)
    (hdir : a.2 = .inbound) : k.NearlyMeets c b := by
  obtain ⟨id, direction⟩ := a
  obtain ⟨next, direction'⟩ := b
  obtain rfl : direction = .inbound := hdir
  obtain ⟨decl, hd, hs, ho, hlink, rfl⟩ := mem_successors.1 hb
  rcases ha with ⟨direction | direction, hmeet⟩ | ⟨writer, decl', hd', hout, hin, hmeet, hreach⟩
  · cases hout : Direction.outbound.isOverriddenBy decl.capabilities with
    | true =>
      exact .inr ⟨id, decl, hd, hout, ho, hmeet, .single hb⟩
    | false =>
      exact .inl ⟨.outbound, hmeet.next (mem_successors.2 ⟨decl, hd, hs, hout, hlink, rfl⟩)⟩
  · exact .inl ⟨.inbound, hmeet.next hb⟩
  · exact .inr ⟨writer, decl', hd', hout, hin, hmeet, hreach.tail hb⟩

end Collector

namespace Pass

variable {p : Pass} {ns : String} {dir : Direction} {G : TypeId → Prop}

/-- The definitions of a registry come from types with a property. -/
def Within (G : TypeId → Prop) (registry : Registry) : Prop :=
  ∀ d ∈ registry.definitions, G d.typeId

theorem preserves_within {act : Resolving Descriptor}
    (h : ∀ {registry}, Resolver.Stays registry dir G act) : Preserves (Within G) dir act := by
  intro ns registry hI
  obtain ⟨hoffers, hle, -⟩ := h _ (Chain.offers_start ns) trivial
  exact ⟨fun d hd => (hoffers.mem_definitions hd).elim (hI d) id, hle.registry⟩

/-- The parts of a pass belong to the same project and the same configuration. -/
structure Coherent (p : Pass) : Prop where
  project : p.resolver.project = p.project
  shares : p.resolver.SharesGraph p.collector
  contextTypes : p.collector.contextTypes = p.config.contextTypes
  errorTypes : p.collector.errorTypes = p.config.errorTypes

theorem coherent_make (project : Project) (config : Config) : (Pass.make project config).Coherent :=
  ⟨rfl, ⟨rfl, rfl⟩, rfl, rfl⟩

/-- A contract defines what it collects, and what lies behind a type where it stopped. -/
theorem within_contract (hp : p.Coherent) (c : Contract)
    (hG : ∀ id, id ∈ p.collector.collectContract c ∨ p.collector.BehindWriter c id → G id) :
    (Registry.law (Within G)).Keeps (fun _ => True) (p.contract c)
      (p.Settles (fun _ _ => True) (fun _ _ => True) c) := by
  have hmeets (direction : Direction) (id : TypeId) (h : p.collector.Meets c (id, direction))
      (hcol : p.collector.collects id) : G id :=
    hG id (.inl (Collector.mem_collectContract.2 ⟨hcol, direction, h⟩))
  have hroot {op : Operation} (hop : op ∈ c.operations) {root : Root}
      (h : root ∈ p.collector.operationRoots op) : p.collector.Meets c root :=
    ⟨root, List.mem_flatMap.2 ⟨op, hop, h⟩, .refl⟩
  refine keeps_contract_of_preserves (fun op hop v hv => ?_) (fun op hop v hv => ?_)
    (fun op hop id hid => ?_) fun id hid => ?_
  · refine preserves_within (Resolver.stays_resolveRoot hp.shares (M := p.collector.Meets c)
      (fun _ ha _ hb => ha.next hb) (hmeets _) v fun i hi => hroot hop ?_)
    refine List.mem_append_left _ (List.mem_map.2 ⟨i, List.mem_flatMap.2 ⟨v, ?_, hi⟩, rfl⟩)
    rwa [hp.contextTypes]
  · refine preserves_within (Resolver.stays_resolveRoot hp.shares (M := p.collector.Meets c)
      (fun _ ha _ hb => ha.next hb) (hmeets _) v fun i hi => hroot hop ?_)
    refine List.mem_append_right _ (List.mem_map.2 ⟨i, ?_, rfl⟩)
    refine List.mem_append_left _ (List.mem_append_left _ (List.mem_flatMap.2 ⟨v, ?_, hi⟩))
    rwa [hp.errorTypes]
  · refine preserves_within (Resolver.stays_resolve hp.shares (M := p.collector.Meets c)
      (fun _ ha _ hb => ha.next hb) (hmeets _) id 0 (hroot hop ?_))
    refine List.mem_append_right _ (List.mem_map.2 ⟨id, ?_, rfl⟩)
    rcases List.mem_append.1 hid with hid | hid
    · exact List.mem_append_left _ (List.mem_append_right _ hid)
    · exact List.mem_append_right _ (List.mem_filter.1 hid).1
  · obtain ⟨-, direction, hmeet⟩ := Collector.mem_collectContract.1 hid
    refine preserves_within (Resolver.stays_resolve hp.shares
      (M := fun root => root.2 = .inbound ∧ p.collector.NearlyMeets c root) ?_ ?_ id 0
      ⟨rfl, .inl ⟨direction, hmeet⟩⟩)
    · rintro a ⟨hdir, ha⟩ b hb
      obtain ⟨-, -, -, -, -, hb'⟩ := Collector.mem_successors.1 hb
      exact ⟨hb'.trans hdir, Collector.nearlyMeets_next ha hb hdir⟩
    · rintro i ⟨-, ⟨direction, hmeet⟩ | hbehind⟩ hcol
      · exact hmeets direction i hmeet hcol
      · exact hG i (.inr hbehind)

/-- A pass defines what its contracts collect, and what lies behind types where they stopped. -/
theorem within_contracts (hp : p.Coherent) (cs : List Contract) :
    Within (fun id => ∃ c ∈ cs, id ∈ p.collector.collectContract c ∨ p.collector.BehindWriter c id)
        (p.contracts cs {}).2 ∧
      List.Forall₂ (fun c resolved => resolved.reachable = p.collector.collectContract c) cs
        (p.contracts cs {}).1 := by
  have hempty : Within (fun id => ∃ c ∈ cs, id ∈ p.collector.collectContract c ∨
      p.collector.BehindWriter c id) {} := by
    intro d hd
    simp at hd
  obtain ⟨hwithin, -, hcontracts⟩ := p.keeps_contracts (fun _ => Law.stable_const True)
    (fun _ _ => Law.stable_const True)
    (fun c hc => within_contract hp c fun id hid => ⟨c, hc, hid⟩) hempty
  exact ⟨hwithin, hcontracts.imp fun _ _ h => h.reachable⟩

end Pass

/-- Each definition comes from a type that some contract needs, or from one behind a type that a
contract meets as part of an argument and that controls how it is written but not how it is
read. -/
theorem typeId_reachable_or_behindWriter (project : Project) (config : Config)
    (contracts : List Contract) :
    ∀ d ∈ (generate project config contracts).table.definitions,
      (∃ c ∈ (generate project config contracts).contracts, d.typeId ∈ c.reachable) ∨
        ∃ c ∈ contracts, (Collector.make project config).BehindWriter c d.typeId := by
  obtain ⟨hwithin, hcontracts⟩ :=
    Pass.within_contracts (Pass.coherent_make project config) contracts
  intro d hd
  obtain ⟨c, hc, hid | hbehind⟩ := hwithin d (Registry.mem_definitions_finalize.1 hd)
  · obtain ⟨resolved, hresolved, h⟩ := exists_of_mem_left hcontracts hc
    exact .inl ⟨resolved, hresolved, h ▸ hid⟩
  · exact .inr ⟨c, hc, hbehind⟩

/-! ## A definition that no contract reaches -/

namespace Shop

-- The runs below are evaluated, down to the tags of fields.
attribute [local semireducible] Tag.lookupChars

/-- Takes orders. -/
def orders : Contract where
  name := "Orders"
  package := "shop"
  operations := [{ name := "Place", args := [{ name := "order", type := ⟨"Order"⟩ }] }]

/-- An order hides its amount. The amount writes itself; reading it takes its currency. -/
def project : Project where
  path := "shop"
  contracts := [orders]
  types :=
    [(⟨"Order"⟩, {
        package := some "shop", name := some "Order"
        kind := .struct [{ var := { name := "amount", type := ⟨"Money"⟩ } }] }),
     (⟨"Money"⟩, {
        package := some "shop", name := some "Money"
        kind := .struct [{ var := { name := "Unit", type := ⟨"Currency"⟩ } }]
        capabilities := { marshalJson := true } }),
     (⟨"Currency"⟩, { package := some "shop", name := some "Currency", kind := .struct [] })]

def pass : Pass := .make project {}

theorem collectContract_orders :
    pass.collector.collectContract orders = [⟨"Money"⟩, ⟨"Order"⟩] := by
  have hroots : pass.collector.contractRoots orders = [(⟨"Order"⟩, .outbound)] := by decide
  have horder : pass.collector.successors (⟨"Order"⟩, .outbound) = [(⟨"Money"⟩, .outbound)] := by
    decide
  have hmoney : pass.collector.successors (⟨"Money"⟩, .outbound) = [] := by decide
  have hmet : pass.collector.explore [] [(⟨"Order"⟩, .outbound)] =
      [(⟨"Money"⟩, .outbound), (⟨"Order"⟩, .outbound)] := by
    rw [Collector.explore, if_neg (by decide), horder, List.append_nil, Collector.explore,
      if_neg (by decide), hmoney, List.append_nil, Collector.explore]
  rw [Collector.collectContract, hroots, Collector.collect, hmet, sortedSet,
    List.mergeSort_of_pairwise (by decide)]
  decide

theorem exists_currency_fill :
    ∃ d ∈ ([⟨"Money"⟩, ⟨"Order"⟩].foldl pass.fill (pass.resolved orders {})).definitions,
      d.typeId = ⟨"Currency"⟩ := by
  decide

theorem exists_currency :
    ∃ d ∈ (generate project {} project.contracts).table.definitions, d.typeId = ⟨"Currency"⟩ := by
  obtain ⟨d, hd, hid⟩ := exists_currency_fill
  rw [← collectContract_orders] at hd
  exact ⟨d, Registry.mem_definitions_finalize.2 hd, hid⟩

theorem currency_notMem_reachable :
    ∀ c ∈ (generate project {} project.contracts).contracts, ⟨"Currency"⟩ ∉ c.reachable := by
  intro c hc
  have hreachable : c.reachable = pass.collector.collectContract orders := by
    obtain rfl := List.mem_singleton.1 hc
    rfl
  rw [hreachable, collectContract_orders]
  decide

/-- The currency lies behind the amount, which writes itself. -/
theorem behindWriter_currency :
    ∃ c ∈ project.contracts, (Collector.make project {}).BehindWriter c ⟨"Currency"⟩ := by
  obtain ⟨d, hd, hid⟩ := exists_currency
  rcases typeId_reachable_or_behindWriter project {} project.contracts d hd with ⟨c, hc, hd⟩ | h
  · exact absurd (hid ▸ hd) (currency_notMem_reachable c hc)
  · exact hid ▸ h

/-- The amount is needed outbound, where nothing lies behind it, and is then resolved inbound. So
the currency gets a definition, though no contract reaches it. -/
theorem exists_typeId_unreachable :
    ∃ d ∈ (generate project {} project.contracts).table.definitions,
      ∀ c ∈ (generate project {} project.contracts).contracts, d.typeId ∉ c.reachable := by
  obtain ⟨d, hd, hid⟩ := exists_currency
  exact ⟨d, hd, fun c hc => hid ▸ currency_notMem_reachable c hc⟩

end Shop

end ClientTypes

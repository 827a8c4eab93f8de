import ClientTypes.Proofs.Descriptor.Mentions
import ClientTypes.Proofs.Pass.References
import ClientTypes.Proofs.Pass.Rest
import ClientTypes.Proofs.Path

/-!
# Substituted types stay outside

What a pass defines comes from types that have no substitute, whatever the way in which a type was
met. As everything that a pass refers to is defined, no name that has a substitute is mentioned
either. Collected are types with a substitute only where the policy materializes them.

The main statement is `generate_unsubstituted`.
-/

namespace ClientTypes

namespace Resolver

variable {r : Resolver} {I : Registry → Prop} {reg : Registry} {q : QName}

/-- Between two chains no name with a substitute is defined. -/
theorem Rests.get?_dotted (h : r.Rests I reg) (hq : reg.contains q) :
    r.substitutions.get? q.dotted = none := by
  obtain ⟨d, hd, rfl⟩ := Registry.contains_iff.1 hq
  obtain ⟨decl, -, hname, hsubstitute, -⟩ := h.exists_origin hd
  simpa [substitute?, hname] using hsubstitute

end Resolver

/-- A pass over any contracts neither defines nor mentions a name that has a substitute, in its
definitions and in all descriptors of its operations; and a contract needs a type of such a name
only where the policy materializes types that have one. -/
theorem generate_unsubstituted (project : Project) (config : Config) (contracts : List Contract) :
    let g := generate project config contracts
    let table := config.substitutionTable
    (∀ d ∈ g.table.definitions, table.get? d.name.dotted = none) ∧
    (∀ d ∈ g.table.definitions, ∀ q, d.body.Mentions q → table.get? q.dotted = none) ∧
    (∀ c ∈ g.contracts, ∀ o ∈ c.operations, ∀ d ∈ o.types, ∀ q, d.Mentions q →
      table.get? q.dotted = none) ∧
    ∀ c ∈ g.contracts, ∀ id ∈ c.reachable, ∃ decl q, project.type? id = some decl ∧
      decl.qname? = some q ∧ (table.get? q.dotted = none ∨ config.policy = .materialize) := by
  let p := Pass.make project config
  have hrests : p.resolver.Rests Registry.Unique (p.contracts contracts {}).2 :=
    Pass.rests_contracts p.resolver.steps_unique (by simp [Registry.Unique]) contracts
  obtain ⟨hclosed, hcontracts⟩ := p.closed_contracts contracts
  dsimp only [generate]
  refine ⟨fun d hd => ?_, fun d hd q hq => ?_, fun c hc o ho d hd q hq => ?_, fun c hc id hid => ?_⟩
  · have hmem := Registry.mem_definitions_finalize.1 hd
    exact hrests.get?_dotted (Registry.contains_iff.2 ⟨d, hmem, rfl⟩)
  · have hmem := Registry.mem_definitions_finalize.1 hd
    exact hrests.get?_dotted (hclosed.contains_of_mem_references hmem (Body.mem_references.2 hq))
  · obtain ⟨contract, -, h⟩ := exists_of_mem_right hcontracts hc
    exact hrests.get?_dotted (h.operations o ho d hd q (Descriptor.mem_references.2 hq))
  · obtain ⟨contract, -, h⟩ := exists_of_mem_right hcontracts hc
    rw [h.reachable] at hid
    exact Collector.collects_iff.1 (Collector.mem_collectContract.1 hid).1

/-! ## A substituted type that is needed -/

namespace Diary

/-- Tells the time. -/
def clock : Contract where
  name := "Clock"
  package := "diary"
  operations := [{ name := "Now", results := [{ name := "now", type := ⟨"Time"⟩ }] }]

/-- The time has a standard substitute. -/
def project : Project where
  path := "diary"
  contracts := [clock]
  types := [(⟨"Time"⟩, { package := some "time", name := some "Time", kind := .struct [] })]

/-- Types that have a substitute are materialized. -/
def config : Config := { policy := .materialize }

theorem time_mem_collectContract :
    ⟨"Time"⟩ ∈ (Collector.make project config).collectContract clock := by
  have hroot : (⟨"Time"⟩, .inbound) ∈ (Collector.make project config).contractRoots clock := by
    decide
  exact Collector.mem_collectContract.2 ⟨by decide, .inbound, _, hroot, .refl⟩

/-- The time is needed, but has no definition. -/
theorem exists_reachable_get?_eq_none :
    (config.substitutionTable.get? "time.Time").isSome ∧
    (∃ c ∈ (generate project config [clock]).contracts, ⟨"Time"⟩ ∈ c.reachable) ∧
    (generate project config [clock]).table.get? ⟨"time", "Time"⟩ = none := by
  have hsubstituted : (config.substitutionTable.get? "time.Time").isSome := by decide
  obtain ⟨hdefinitions, -⟩ := generate_unsubstituted project config [clock]
  refine ⟨hsubstituted, ⟨_, List.mem_singleton.2 rfl, time_mem_collectContract⟩, ?_⟩
  refine Option.eq_none_iff_forall_ne_some.2 fun d hd => ?_
  obtain ⟨hmem, hname⟩ := Table.mem_of_search hd
  have hnone := hdefinitions d hmem
  rw [hname] at hnone
  exact absurd hsubstituted (Option.not_isSome_iff_eq_none.2 hnone)

end Diary

end ClientTypes

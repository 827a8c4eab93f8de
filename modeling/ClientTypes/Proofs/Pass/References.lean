import ClientTypes.Proofs.Pass.Steps
import ClientTypes.Proofs.Registry.Finalize
import ClientTypes.Proofs.Resolve.Closed

/-!
# A pass refers to nothing that it does not define

Between two chains no type is being expanded, so every reference in the registry and in the answers
so far is to a definition. It stays one, because definitions are never taken back.

The main statement is `generate_closed`.
-/

namespace ClientTypes

namespace Pass

variable {p : Pass} {ns : String} {direction : Direction}

/-- All names that a descriptor refers to are defined. -/
def Defined (d : Descriptor) (registry : Registry) : Prop :=
  ∀ q ∈ d.references, registry.contains q

/-- A namespace other than a contract's own, with a definition in it. -/
def Foreign (package ns : String) (registry : Registry) : Prop :=
  ns ≠ package ∧ ∃ q, registry.contains q ∧ q.ns = ns

theorem stable_defined {I : Registry → Prop} (d : Descriptor) :
    (Registry.law I).Stable (Defined d) :=
  fun _ _ _ hle h q hq => hle.contains (h q hq)

theorem stable_foreign {I : Registry → Prop} (package ns : String) :
    (Registry.law I).Stable (Foreign package ns) :=
  fun _ _ _ hle ⟨hne, q, hq, hns⟩ => ⟨hne, q, hle.contains hq, hns⟩

/-- A closed registry. -/
def closedLaw (p : Pass) (package : String) : Law PassState :=
  law (p.resolver.Closed []) (Foreign package)

/-- The chain of a root starts from a closed registry and leaves one behind, and what it answers
and imports is defined there. -/
theorem closed_run {act : Resolving Descriptor}
    (h : p.resolver.closedLaw.Answers p.resolver.RefersIn (fun _ => True) act) {registry : Registry}
    (hI : p.resolver.Closed [] registry) :
    let out := act.run { ns, direction, registry }
    p.resolver.Closed [] out.2.registry ∧ registry.Extends out.2.registry ∧
      Defined out.1 out.2.registry ∧ ∀ n ∈ out.2.imports, Foreign ns n out.2.registry := by
  obtain ⟨hinv, hle, hd⟩ := h { ns, direction, registry } ⟨hI, by simp⟩ trivial
  have hprocessing := hle.processing
  have hclosed := hinv.closed
  have himports := hinv.imports
  unfold Resolver.RefersIn at hd
  rw [hprocessing] at hclosed himports hd
  refine ⟨hclosed, hle.registry, ?_, fun n hn => ?_⟩
  · exact Descriptor.all_reference_iff.1 (hd.imp fun s hs q hq => hclosed.contains_of_refers hs hq)
  · obtain ⟨hne, s, q, hs, hq, hns⟩ := himports n hn
    rw [hle.ns] at hne
    exact ⟨hne, q, hclosed.contains_of_refers hs hq, hns⟩

theorem closed_root {act : Resolving Descriptor}
    (h : p.resolver.closedLaw.Answers p.resolver.RefersIn (fun _ => True) act) :
    (p.closedLaw ns).Keeps (fun _ => True) (root ns direction act)
      fun d s => Defined d s.registry :=
  keeps_root (stable_foreign ns) fun _ => closed_run h

theorem closed_fill (id : TypeId) (registry : Registry) (hI : p.resolver.Closed [] registry) :
    p.resolver.Closed [] (p.fill registry id) ∧ registry.Extends (p.fill registry id) := by
  obtain heq | ⟨ns, heq⟩ := p.fill_cases registry id
  · rw [heq]
    exact ⟨hI, .refl _⟩
  · rw [heq]
    obtain ⟨hI', hext, -⟩ := closed_run (p.resolver.answers_resolve id 0) hI
    exact ⟨hI', hext⟩

/-- A contract leaves a closed registry behind, which defines all that the contract refers to. -/
theorem closed_contract (c : Contract) :
    (Registry.law (p.resolver.Closed [])).Keeps (fun _ => True) (p.contract c)
      (p.Settles Defined (Foreign c.package) c) :=
  keeps_contract stable_defined (stable_foreign c.package)
    (fun _ _ => keeps_operation (fun d _ _ ht hle h => stable_defined d ht.1 hle h)
      (fun v _ => closed_root (p.resolver.answers_resolveRoot v))
      (fun v _ => closed_root (p.resolver.answers_resolveRoot v))
      fun id _ => closed_root (p.resolver.answers_resolve id 0))
    fun id _ registry => closed_fill id registry

/-- A pass leaves a closed registry behind, which defines all that its contracts refer to. -/
theorem closed_contracts (p : Pass) (cs : List Contract) :
    p.resolver.Closed [] (p.contracts cs {}).2 ∧
      List.Forall₂
        (fun c resolved => p.Settles Defined (Foreign c.package) c resolved (p.contracts cs {}).2)
        cs (p.contracts cs {}).1 := by
  obtain ⟨hI, -, hcontracts⟩ := p.keeps_contracts stable_defined
    (fun c => stable_foreign c.package) (fun c _ => closed_contract c) (Resolver.Closed.empty _)
  exact ⟨hI, hcontracts⟩

end Pass

/-- In a closed registry the names in a body are defined. -/
theorem Resolver.Closed.contains_of_mem_references {r : Resolver} {reg : Registry}
    (h : r.Closed [] reg) {d : Definition} (hd : d ∈ reg.definitions) {q : QName}
    (hq : q ∈ d.body.references) : reg.contains q :=
  Body.all_reference_iff.1 ((h.bodies d hd).imp fun _ hs _ hq => h.contains_of_refers hs hq) q hq

/-- Every name that a pass refers to is defined, in the operations of its contracts and in its
definitions. What a contract imports is another namespace than its own and owns a definition. -/
theorem generate_closed (project : Project) (config : Config) (contracts : List Contract) :
    let g := generate project config contracts
    (∀ c ∈ g.contracts, ∀ o ∈ c.operations, ∀ d ∈ o.types, ∀ q ∈ d.references,
      (g.table.get? q).isSome) ∧
    (∀ d ∈ g.table.definitions, ∀ q ∈ d.body.references, (g.table.get? q).isSome) ∧
    List.Forall₂ (fun contract c => c.ns = contract.package ∧
      ∀ ns ∈ c.imports, ns ≠ contract.package ∧ g.table.inNamespace ns ≠ []) contracts
      g.contracts := by
  obtain ⟨hI, hcontracts⟩ := (Pass.make project config).closed_contracts contracts
  dsimp only [generate]
  refine ⟨fun c hc o ho d hd q hq => ?_, fun d hd q hq => ?_, hcontracts.imp fun contract c h => ?_⟩
  · rw [Registry.isSome_get?_finalize]
    obtain ⟨contract, -, h⟩ := exists_of_mem_right hcontracts hc
    exact h.operations o ho d hd q hq
  · rw [Registry.isSome_get?_finalize]
    exact hI.contains_of_mem_references (Registry.mem_definitions_finalize.1 hd) hq
  · refine ⟨h.ns, fun ns hns => ?_⟩
    rw [Registry.inNamespace_finalize_ne_nil]
    exact h.imports ns hns

end ClientTypes

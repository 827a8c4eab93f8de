import ClientTypes.Proofs.Reach
import ClientTypes.Proofs.Resolve.Closed

/-!
# Resolution stays within the walk

What resolution expands lies on a path of the collector's walk in the same direction: it visits
only links, and stops wherever the walk stops. So each type whose definition is offered to the
registry is one that the walk meets. The registry of a chain holds nothing but these offers and
what it held at the start.

## Main definitions

* `Resolver.SharesGraph` — a resolver and a collector of the same project and substitutions
* `Registry.absorb` — a registry after offers
* `Chain.Offers` — a chain whose offers come from types with a property

The main statements are `stays_resolve`, `stays_resolveRoot` and `offered_collected`.
-/

namespace ClientTypes

/-! ## Offers -/

namespace Registry

/-- A registry after definitions have been offered to it, the last one of a list first. -/
def absorb (reg : Registry) (offered : List Definition) : Registry :=
  offered.foldr (fun d r => r.merge d) reg

/-- Which types have been expanded does not matter to an offer. -/
theorem merge_with_expanded (reg : Registry) (expanded : List (TypeId × Direction))
    (d : Definition) :
    ({ reg with expanded } : Registry).merge d = { reg.merge d with expanded } := by
  have houtcome : ({ reg with expanded } : Registry).outcome d = reg.outcome d := rfl
  unfold merge
  rw [houtcome]
  cases reg.outcome d <;> rfl

theorem mem_definitions_absorb {reg : Registry} {offered : List Definition} {d : Definition}
    (h : d ∈ (reg.absorb offered).definitions) : d ∈ reg.definitions ∨ d ∈ offered := by
  induction offered with
  | nil => exact .inl h
  | cons e offered ih =>
    rcases mem_definitions_of_mem_merge h with rfl | h
    · exact .inr List.mem_cons_self
    · exact (ih h).imp_right (List.mem_cons_of_mem e)

end Registry

namespace Chain

variable {reg : Registry} {dir : Direction} {G : TypeId → Prop} {c : Chain} {d : Definition}

/-- A chain in a direction that started with a registry. Its own registry is what its offers have
made of that one, and they come from types with a property. -/
structure Offers (reg : Registry) (dir : Direction) (G : TypeId → Prop) (c : Chain) : Prop where
  direction : c.direction = dir
  registry : c.registry = { reg.absorb c.offered with expanded := c.registry.expanded }
  offered : ∀ d ∈ c.offered, G d.typeId

theorem offers_start (ns : String) : Offers reg dir G { ns, direction := dir, registry := reg } :=
  ⟨rfl, rfl, by simp⟩

theorem Offers.mem_definitions (hc : Offers reg dir G c) (hd : d ∈ c.registry.definitions) :
    d ∈ reg.definitions ∨ G d.typeId := by
  rw [hc.registry] at hd
  exact (Registry.mem_definitions_absorb hd).imp_right (hc.offered d)

theorem Offers.offer (hc : Offers reg dir G c) (hd : G d.typeId) :
    Offers reg dir G (c.offer d) := by
  refine ⟨hc.direction, ?_, fun e he => ?_⟩
  · change c.registry.merge d =
      { (reg.absorb c.offered).merge d with expanded := (c.registry.merge d).expanded }
    rw [Registry.expanded_merge, ← Registry.merge_with_expanded, ← hc.registry]
  · rcases List.mem_cons.1 he with rfl | he
    · exact hd
    · exact hc.offered e he

theorem Offers.note (hc : Offers reg dir G c) (name : QName) :
    Offers reg dir G (c.note name) := by
  unfold Chain.note
  split
  · exact hc
  · exact ⟨hc.direction, hc.registry, hc.offered⟩

theorem Offers.markExpanded (hc : Offers reg dir G c) (id : TypeId) :
    Offers reg dir G { c with registry := c.registry.markExpanded id c.direction } := by
  refine ⟨hc.direction, ?_, hc.offered⟩
  have hregistry := hc.registry
  unfold Registry.markExpanded
  split
  · exact hregistry
  · exact congrArg
      (fun r : Registry => { r with expanded := c.registry.expanded ++ [(id, c.direction)] })
      hregistry

theorem Offers.register (hc : Offers reg dir G c) (hd : G d.typeId) :
    Offers reg dir G (c.register d) :=
  (hc.offer hd).note d.name

theorem Offers.complete (hc : Offers reg dir G c) (hd : G d.typeId) :
    Offers reg dir G (c.complete d) :=
  ((hc.offer hd).markExpanded d.typeId).note d.name

end Chain

namespace Resolver

variable {r : Resolver} {k : Collector} {reg : Registry} {dir : Direction} {id : TypeId}
  {decl : TypeDecl} {name : QName} {G : TypeId → Prop}

/-- The two read the same project and the same substitutions. -/
structure SharesGraph (r : Resolver) (k : Collector) : Prop where
  project : k.project = r.project
  substitutions : k.substitutions = r.substitutions

theorem SharesGraph.isSubstituted (h : r.SharesGraph k) (decl : TypeDecl) :
    k.isSubstituted decl = (r.substitute? decl).isSome := by
  unfold Collector.isSubstituted substitute? SubstitutionTable.contains
  rw [h.substitutions]
  cases decl.qname? <;> rfl

/-- A named type that is not substituted counts under either policy. -/
theorem SharesGraph.collects (h : r.SharesGraph k) (hd : r.project.type? id = some decl)
    (hname : decl.qname? = some name) (hs : r.substitute? decl = none) : k.collects id := by
  simp [Collector.collects, h.project, hd, TypeDecl.isNamed, hname, h.isSubstituted, hs]

/-- What an expansion visits is right behind the type. -/
theorem SharesGraph.mem_successors (h : r.SharesGraph k) (ho : r.Opens dir id decl) {i : TypeId}
    (hi : i ∈ r.visits id decl.kind) : (i, dir) ∈ k.successors (id, dir) := by
  refine Collector.mem_successors.2 ⟨decl, ?_, ?_, ?_, visits_subset_links id decl.kind hi, rfl⟩
  · rw [h.project]
    exact ho.declared
  · rw [h.isSubstituted, ho.unsubstituted]
    rfl
  · exact (Bool.or_eq_false_iff.1 ho.opened).1

/-- All that is offered comes from types with a property. -/
def withinLaw (reg : Registry) (dir : Direction) (G : TypeId → Prop) : Law Chain :=
  Chain.law (Chain.Offers reg dir G)

/-- Offers only what comes from types with a property. -/
def Stays (reg : Registry) (dir : Direction) (G : TypeId → Prop) (act : Resolving Descriptor) :
    Prop :=
  (withinLaw reg dir G).Keeps (fun _ => True) act fun _ _ => True

theorem stays_pure {d : Descriptor} : Stays reg dir G (pure d) := .pure fun _ _ _ => trivial

theorem stays_refer : Stays reg dir G (Chain.refer name) :=
  fun c hc _ => ⟨hc.note name, Chain.extends_note name c, trivial⟩

theorem stays_hide (h : decl.qname? ≠ none → G id) : Stays reg dir G (hide id decl) := by
  cases hname : decl.qname? with
  | none =>
    rw [hide_of_unnamed hname]
    exact stays_pure
  | some name =>
    intro c hc _
    rw [run_hide_of_named hname]
    exact ⟨hc.register (h (by simp [hname])), Chain.extends_register _ c, trivial⟩

theorem stays_referBack (h : G id) : Stays reg dir G (referBack id decl name) := by
  intro c hc _
  rw [run_referBack]
  split
  · exact ⟨hc.register h, Chain.extends_register _ c, trivial⟩
  · exact stays_refer c hc trivial

theorem stays_expand {inner : TypeId → Resolving Descriptor}
    (h : ∀ i ∈ r.visits id decl.kind, Stays reg dir G (inner i)) (hG : decl.qname? ≠ none → G id) :
    Stays reg dir G (r.expand inner id decl) := by
  refine .expand (keeps_body (Law.judges_true _) (Law.stable_const True) id decl.kind
    (fun _ _ _ _ => trivial) fun i hi => Law.Keeps.answers (h i hi))
    (fun _ c hc _ => ⟨⟨hc.direction, hc.registry, hc.offered⟩, trivial, fun _ _ hc' _ _ =>
      ⟨⟨hc'.direction, hc'.registry, hc'.offered⟩, trivial⟩⟩)
    fun name hname c hc _ => ⟨⟨hc.direction, hc.registry, hc.offered⟩, trivial,
      fun b c' hc' _ _ => ⟨?_, trivial⟩⟩
  have hleave : Chain.Offers reg dir G (c.leave c') := ⟨hc'.direction, hc'.registry, hc'.offered⟩
  exact hleave.complete (hG (by simp [hname]))

/-- Where the walk of the collector may go, the definitions come from types that it may collect. -/
theorem stays_resolveType {M : Root → Prop} (hshares : r.SharesGraph k)
    (hnext : ∀ a, M a → ∀ b ∈ k.successors a, M b) (hG : ∀ i, M (i, dir) → k.collects i → G i)
    (depth : Nat) (id : TypeId) (h : M (id, dir)) : Stays reg dir G (r.resolveType depth id) := by
  have hnamed (id : TypeId) (h : M (id, dir)) (decl : TypeDecl)
      (hd : r.project.type? id = some decl) (hs : r.substitute? decl = none)
      (hname : decl.qname? ≠ none) : G id := by
    obtain ⟨name, hname⟩ := Option.ne_none_iff_exists'.1 hname
    exact hG id h (hshares.collects hd hname hs)
  have hmeet (expansion : TypeId → TypeDecl → Resolving Descriptor) (id : TypeId) (h : M (id, dir))
      (hexp : ∀ decl, r.Opens dir id decl → Stays reg dir G (expansion id decl)) :
      Stays reg dir G (r.meet expansion id) := by
    refine .meet (fun _ _ _ _ => trivial) (fun _ _ _ _ _ _ _ => trivial) (fun decl => ?_)
      (fun decl name hname => ?_) (fun decl name _ => ?_) (fun _ _ _ _ _ _ _ => trivial)
      fun decl => ?_
    · rintro c hc ⟨-, hh⟩
      exact stays_hide (hnamed id h decl hh.declared hh.unsubstituted) c hc trivial
    · rintro c hc ⟨-, ho, -⟩
      exact stays_referBack (hnamed id h decl ho.declared ho.unsubstituted (by simp [hname])) c hc
        trivial
    · exact stays_refer.mono (fun _ _ => trivial) fun _ _ _ h => h
    · rintro c hc ⟨-, ho, -⟩
      exact hexp decl (hc.direction ▸ ho) c hc trivial
  induction depth generalizing id with
  | zero => exact hmeet _ id h fun _ _ => stays_pure
  | succ depth ih =>
    refine hmeet _ id h fun decl ho => stays_expand (fun i hi => ih i ?_) ?_
    · exact hnext _ h _ (hshares.mem_successors ho hi)
    · exact hnamed id h decl ho.declared ho.unsubstituted

theorem stays_resolve {M : Root → Prop} (hshares : r.SharesGraph k)
    (hnext : ∀ a, M a → ∀ b ∈ k.successors a, M b) (hG : ∀ i, M (i, dir) → k.collects i → G i)
    (id : TypeId) (pointers : Nat) (h : M (id, dir)) : Stays reg dir G (r.resolve id pointers) :=
  Law.Keeps.bind (Law.stable_const True) (stays_resolveType hshares hnext hG _ id h) fun _ =>
    .pure fun _ _ _ => trivial

theorem stays_resolveRoot {M : Root → Prop} (hshares : r.SharesGraph k)
    (hnext : ∀ a, M a → ∀ b ∈ k.successors a, M b) (hG : ∀ i, M (i, dir) → k.collects i → G i)
    (v : Variable) (h : ∀ i ∈ v.ids, M (i, dir)) : Stays reg dir G (r.resolveRoot v) :=
  (answers_resolveVariable (Law.judges_true _).toWeighs (Law.stable_const True) v fun i hi =>
    Law.Keeps.answers (stays_resolveType hshares hnext hG _ i
      (h i (variableVisits_subset v hi)))).weaken fun _ _ _ _ => trivial

/-- What is offered while a variable is resolved in a chain of its own comes from types that a
collector returns for the ids of the variable in the same direction, whatever its policy is. And
nothing else gets into the registry: it is what these offers make of the one at the start, with
more types expanded. -/
theorem offered_collected (project : Project) (config : Config) (policy : Policy)
    (registry : Registry) (ns : String) (direction : Direction) (v : Variable) :
    let chain := (((Resolver.make project config).resolveRoot v).run
      { ns, direction, registry }).2
    (∀ d ∈ chain.offered, d.typeId ∈
      (Collector.make project { config with policy }).collect (v.ids.map (·, direction))) ∧
    chain.registry =
      { registry.absorb chain.offered with expanded := chain.registry.expanded } := by
  let collector := Collector.make project { config with policy }
  let roots : List Root := v.ids.map (·, direction)
  have hshares : (Resolver.make project config).SharesGraph collector := ⟨rfl, rfl⟩
  have hstays : Stays registry direction (· ∈ collector.collect roots)
      ((Resolver.make project config).resolveRoot v) := by
    refine stays_resolveRoot hshares
      (M := fun root => ∃ start ∈ roots, collector.Reaches start root) ?_ ?_ v fun i hi => ?_
    · rintro a ⟨start, hstart, ha⟩ b hb
      exact ⟨start, hstart, ha.tail hb⟩
    · exact fun i hi hcollects => Collector.mem_collect.2 ⟨hcollects, direction, hi⟩
    · exact ⟨(i, direction), List.mem_map_of_mem hi, .refl⟩
  obtain ⟨hoffers, -, -⟩ := hstays { ns, direction, registry } (Chain.offers_start ns) trivial
  exact ⟨hoffers.offered, hoffers.registry⟩

end Resolver

end ClientTypes

import ClientTypes.Proofs.Pass.Steps
import ClientTypes.Proofs.Registry.Finalize
import ClientTypes.Proofs.Resolve.Provenance

/-!
# Between two chains

Between two chains of a pass nothing is being expanded, so that resolution may rely on all that it
keeps. Every definition then comes from a type that has been expanded or that hides its format.

## Main definitions

* `Resolver.Rests` — a registry that a chain can start from

The main statement is `rests_contracts`.
-/

namespace ClientTypes

namespace Resolver

variable {r : Resolver} {I : Registry → Prop} {reg : Registry} {id : TypeId} {decl : TypeDecl}
  {dir : Direction} {q : QName} {c : Chain}

/-- A registry between two chains. -/
structure Rests (r : Resolver) (I : Registry → Prop) (reg : Registry) : Prop where
  closed : r.Closed [] reg
  origin : ∀ d ∈ reg.definitions, ∃ decl, r.Origin [] reg d decl
  opened : ∀ {id dir}, (id, dir) ∈ reg.expanded → ∃ decl, r.Opens dir id decl
  registry : I reg

theorem Rests.empty (r : Resolver) (h : I {}) : r.Rests I {} :=
  ⟨.empty r, by simp, by simp, h⟩

theorem Rests.inv (h : r.Rests I reg) (ns : String) (dir : Direction) :
    r.Inv I { ns, direction := dir, registry := reg } :=
  ⟨⟨h.closed, by simp⟩, ⟨h.origin, h.opened, .nil, by simp⟩, h.registry⟩

theorem Inv.rests (h : r.Inv I c) (hp : c.processing = []) : r.Rests I c.registry :=
  ⟨hp ▸ h.closed.closed, hp ▸ h.grounded.origin, h.grounded.opened, h.registry⟩

/-- At the start of a chain there is room for all expansions. -/
theorem keeps_start (hI : r.Steps I) (id : TypeId) :
    (r.lawOf I).Keeps (fun c => c.processing = []) (r.resolveType r.depthLimit id) (r.Replies id) :=
  (keeps_of_steps hI r.depthLimit id).mono
    (fun c hp => ⟨by simp [hp], by simp [hp, depthLimit]⟩) fun _ _ _ h => h

theorem stable_start : (r.lawOf I).Stable fun c => c.processing = [] :=
  fun _ _ _ hle hp => hle.processing.trans hp

theorem preserves_of_keeps {act : Resolving Descriptor} {ok : Descriptor → Chain → Prop}
    (h : (r.lawOf I).Keeps (fun c => c.processing = []) act ok) :
    Pass.Preserves (r.Rests I) dir act := by
  intro ns reg hreg
  obtain ⟨hinv, hle, -⟩ := h _ (hreg.inv ns dir) rfl
  exact ⟨hinv.rests hle.processing, hle.registry⟩

theorem preserves_resolve (hI : r.Steps I) (id : TypeId) (pointers : Nat) :
    Pass.Preserves (r.Rests I) dir (r.resolve id pointers) := by
  have hkeeps : (r.lawOf I).Keeps (fun c => c.processing = []) (r.resolve id pointers)
      fun _ _ => True :=
    .bind stable_start (keeps_start hI id) fun _ => .pure fun _ _ _ => trivial
  exact preserves_of_keeps hkeeps

theorem preserves_resolveRoot (hI : r.Steps I) (v : Variable) :
    Pass.Preserves (r.Rests I) dir (r.resolveRoot v) :=
  preserves_of_keeps (answers_resolveVariable judges_refersIn_lawOf.toWeighs stable_start v
    fun i _ => (keeps_start hI i).weaken fun _ _ _ hd => hd.refers)

/-! ## Definitions at rest -/

theorem Rests.exists_origin (h : r.Rests I reg) {d : Definition} (hd : d ∈ reg.definitions) :
    ∃ decl, r.project.type? d.typeId = some decl ∧ decl.qname? = some d.name ∧
      r.substitute? decl = none ∧ d.doc = decl.doc :=
  let ⟨decl, h⟩ := h.origin d hd
  ⟨decl, h.declared, h.named, h.unsubstituted, h.doc⟩

/-- A type that both directions treat alike has been expanded, or is opaque. -/
theorem Rests.done_or_opaque (h : r.Rests I reg) {d : Definition} (hd : d ∈ reg.definitions)
    (he : r.Even d.typeId) :
    (Done reg d.typeId ∧ ∀ decl, ¬ r.Hides .outbound d.typeId decl) ∨
      (∃ decl, r.Hides .outbound d.typeId decl) ∧ d.body = .aliasOf .bareOpaque := by
  obtain ⟨decl, horigin⟩ := h.origin d hd
  rcases horigin.reason with hdone | ⟨hmem, -⟩ | ⟨⟨dir, hh⟩, hb⟩
  · refine .inl ⟨hdone, fun decl' hh => ?_⟩
    obtain ⟨dir, hexp⟩ := hdone
    obtain ⟨decl'', ho⟩ := h.opened hexp
    exact ho.not_hides (he.hides (ho.decl_eq hh.declared ▸ hh) dir)
  · simp at hmem
  · exact .inr ⟨⟨decl, he.hides hh .outbound⟩, hb⟩

/-- A named type that is not substituted has a definition once it has been resolved. -/
theorem contains_of_resolve (hI : r.Steps I) (h : r.Rests I reg)
    (hd : r.project.type? id = some decl) (hq : decl.qname? = some q)
    (hs : r.substitute? decl = none) (ns : String) (dir : Direction) (pointers : Nat) :
    ((r.resolve id pointers).run
      { ns, direction := dir, registry := reg }).2.registry.contains q := by
  obtain ⟨hinv, hle, hreply⟩ := keeps_start hI id _ (h.inv ns dir) rfl
  have hrests := hinv.rests hle.processing
  have hrefers := hreply.refers.shape
  unfold RefersIn at hrefers
  rw [show _ = [] from hle.processing] at hrefers
  obtain ⟨d, hd, hq⟩ := exists_answer?_of_named hd hq hs dir
  refine hrests.closed.contains_of_refers hrefers ?_
  rw [hreply.answer d (hle.direction.symm ▸ hd)]
  exact hq

theorem steps_unique (r : Resolver) : r.Steps Registry.Unique where
  hide hc _ _ := hc.registry.merge _
  back hc _ _ _ _ := hc.registry.merge _
  complete _ _ _ _ hc' _ := by
    simpa [Registry.Unique] using hc'.registry.merge _

end Resolver

namespace Pass

variable {p : Pass} {I : Registry → Prop}

theorem rests_contract (hI : p.resolver.Steps I) (c : Contract) :
    (Registry.law (p.resolver.Rests I)).Keeps (fun _ => True) (p.contract c)
      (p.Settles (fun _ _ => True) (fun _ _ => True) c) :=
  keeps_contract_of_preserves (fun _ _ v _ => Resolver.preserves_resolveRoot hI v)
    (fun _ _ v _ => Resolver.preserves_resolveRoot hI v)
    (fun _ _ id _ => Resolver.preserves_resolve hI id 0)
    fun id _ => Resolver.preserves_resolve hI id 0

/-- The operations of a contract keep a registry at rest. -/
theorem rests_resolved (hI : p.resolver.Steps I) (c : Contract) {registry : Registry}
    (h : p.resolver.Rests I registry) :
    p.resolver.Rests I (p.resolved c registry) ∧ registry.Extends (p.resolved c registry) := by
  obtain ⟨hs, hext, -⟩ := keeps_operations (fun _ => Law.stable_const True)
    (fun op _ => keeps_operation_of_preserves
      (fun v _ => Resolver.preserves_resolveRoot hI v)
      (fun v _ => Resolver.preserves_resolveRoot hI v)
      fun id _ => Resolver.preserves_resolve hI id 0) (PassState.mk registry []) ⟨h, by simp⟩
    trivial
  exact ⟨hs.1, hext⟩

/-- A pass ends at rest. -/
theorem rests_contracts (hI : p.resolver.Steps I) (h : I {}) (cs : List Contract) :
    p.resolver.Rests I (p.contracts cs {}).2 :=
  (keeps_contracts (fun _ => Law.stable_const True) (fun _ _ => Law.stable_const True)
    (fun c _ => rests_contract hI c) (Resolver.Rests.empty _ h)).1

theorem rests_layer (p : Pass) (hdistinct : p.resolver.project.Distinct) (cs : List Contract)
    (k : Nat) : p.resolver.Rests (p.resolver.layer k) (p.contracts cs {}).2 :=
  rests_contracts (Resolver.steps_layer hdistinct k) (p.resolver.layer_empty k) cs

theorem rests_unique (p : Pass) (cs : List Contract) :
    p.resolver.Rests Registry.Unique (p.contracts cs {}).2 :=
  rests_contracts p.resolver.steps_unique .empty cs

theorem unique_contracts (p : Pass) (cs : List Contract) : (p.contracts cs {}).2.Unique :=
  (p.rests_unique cs).registry

end Pass

end ClientTypes

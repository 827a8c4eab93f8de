import ClientTypes.Proofs.Resolve.Meet

/-!
# Where definitions come from

A definition carries the id, the name and the documentation of a declared type. There are three
reasons for it to be there: the type has been expanded; or it is being expanded and stands without
members until then; or it hides its format in some direction.

## Main definitions

* `Resolver.Origin` — a definition of a declared type, and the reason why it is there
* `Resolver.Grounded` — every definition of a chain has such an origin, and types are expanded only
  where they may be

There is one lemma for each change that resolution makes to a chain.
-/

namespace ClientTypes

namespace Resolver

variable {r : Resolver} {P : List TypeId} {reg reg' : Registry} {id : TypeId} {decl : TypeDecl}
  {name : QName} {dir : Direction} {c : Chain}

/-- The type has been expanded in some direction. -/
def Done (reg : Registry) (id : TypeId) : Prop := ∃ dir, (id, dir) ∈ reg.expanded

theorem not_done_empty (id : TypeId) : ¬ Done {} id := by
  rintro ⟨dir, hdir⟩
  simp at hdir

/-- A definition comes from a declared type that has been expanded, that is being expanded and has
no members yet, or that hides its format and is opaque. -/
structure Origin (r : Resolver) (P : List TypeId) (reg : Registry) (d : Definition)
    (decl : TypeDecl) : Prop where
  declared : r.project.type? d.typeId = some decl
  named : decl.qname? = some d.name
  unsubstituted : r.substitute? decl = none
  doc : d.doc = decl.doc
  reason : Done reg d.typeId ∨ (d.typeId ∈ P ∧ decl.kind.stub? = some d.body) ∨
    (∃ dir, r.Hides dir d.typeId decl) ∧ d.body = .aliasOf .bareOpaque

/-- The definitions of a chain have such an origin; what has been expanded may be; and what is being
expanded is declared and does not repeat. -/
structure Grounded (r : Resolver) (c : Chain) : Prop where
  origin : ∀ d ∈ c.registry.definitions, ∃ decl, r.Origin c.processing c.registry d decl
  opened : ∀ {id dir}, (id, dir) ∈ c.registry.expanded → ∃ decl, r.Opens dir id decl
  nodup : c.processing.Nodup
  declared : ∀ id ∈ c.processing, (r.project.type? id).isSome

theorem Done.of_extends (h : reg.Extends reg') (hd : Done reg id) : Done reg' id := by
  obtain ⟨dir, hd⟩ := hd
  exact ⟨dir, h.expanded hd⟩

theorem Origin.move {P' : List TypeId} {d : Definition} (h : r.Origin P reg d decl)
    (hreg : reg.Extends reg') (hP : d.typeId ∈ P → d.typeId ∈ P' ∨ Done reg' d.typeId) :
    r.Origin P' reg' d decl := by
  refine ⟨h.declared, h.named, h.unsubstituted, h.doc, ?_⟩
  rcases h.reason with hd | ⟨hmem, hb⟩ | hh
  · exact .inl (hd.of_extends hreg)
  · rcases hP hmem with hmem | hd
    · exact .inr (.inl ⟨hmem, hb⟩)
    · exact .inl hd
  · exact .inr (.inr hh)

theorem Grounded.note (hc : r.Grounded c) (name : QName) : r.Grounded (c.note name) := by
  constructor
  · simpa using hc.origin
  · intro id dir hi
    exact hc.opened (by simpa using hi)
  · simpa using hc.nodup
  · simpa using hc.declared

theorem Grounded.offer (hc : r.Grounded c) {d : Definition}
    (hd : r.Origin c.processing c.registry d decl) : r.Grounded (c.offer d) := by
  have hext := c.registry.extends_merge d
  refine ⟨fun e he => ?_, ?_, hc.nodup, hc.declared⟩
  · rcases Registry.mem_definitions_of_mem_merge he with rfl | he
    · exact ⟨decl, hd.move hext .inl⟩
    · obtain ⟨decl', he⟩ := hc.origin e he
      exact ⟨decl', he.move hext .inl⟩
  · intro i dir hi
    exact hc.opened (by simpa [Chain.offer] using hi)

theorem Grounded.inside (hc : r.Grounded c) (hd : (r.project.type? id).isSome)
    (hmem : id ∉ c.processing) : r.Grounded (c.inside id) := by
  refine ⟨fun d hd => ?_, hc.opened, List.nodup_cons.2 ⟨hmem, hc.nodup⟩, fun i hi => ?_⟩
  · obtain ⟨decl, hd⟩ := hc.origin d hd
    exact ⟨decl, hd.move (.refl _) fun hi => .inl (List.mem_cons_of_mem _ hi)⟩
  · rcases List.mem_cons.1 hi with rfl | hi
    · exact hd
    · exact hc.declared i hi

theorem Grounded.enter (hc : r.Grounded c) (ns : String) (hd : (r.project.type? id).isSome)
    (hmem : id ∉ c.processing) : r.Grounded (c.enter id ns) :=
  ⟨(hc.inside hd hmem).origin, (hc.inside hd hmem).opened, (hc.inside hd hmem).nodup,
    (hc.inside hd hmem).declared⟩

/-- No definition waits for a type without a name. -/
theorem Grounded.outside {c' : Chain} (hc : r.Grounded c) (hc' : r.Grounded c')
    (hle : (c.inside id).Extends c') (hd : r.project.type? id = some decl)
    (hname : decl.qname? = none) : r.Grounded (c.outside c') := by
  refine ⟨fun d hmem => ?_, hc'.opened, hc.nodup, hc.declared⟩
  obtain ⟨decl', h⟩ := hc'.origin d hmem
  refine ⟨decl', h.move (.refl _) fun hi => ?_⟩
  rw [hle.processing] at hi
  rcases List.mem_cons.1 hi with hi | hi
  · obtain rfl : decl' = decl := Option.some.inj (h.declared.symm.trans (hi ▸ hd))
    exact absurd (hname.symm.trans h.named) (by simp)
  · exact .inl hi

theorem Grounded.complete {c' : Chain} (hc : r.Grounded c) (hc' : r.Grounded c')
    (hle : (c.enter id name.ns).Extends c') (ho : r.Opens c.direction id decl)
    (hname : decl.qname? = some name) (b : Body) :
    r.Grounded ((c.leave c').complete (definition id decl name b)) := by
  have hext := Chain.extends_complete (definition id decl name b) (c.leave c')
  have hdone : Done ((c.leave c').complete (definition id decl name b)).registry id :=
    ⟨_, Chain.mem_expanded_complete _ _⟩
  refine ⟨fun d hmem => ?_, fun {i dir} hi => ?_, ?_, ?_⟩
  · rw [hext.processing]
    rw [Chain.registry_complete, Registry.definitions_markExpanded] at hmem
    rcases Registry.mem_definitions_of_mem_merge hmem with rfl | hmem
    · exact ⟨decl, ho.declared, hname, ho.unsubstituted, rfl, .inl hdone⟩
    · obtain ⟨decl', h⟩ := hc'.origin d hmem
      refine ⟨decl', h.move hext.registry fun hi => ?_⟩
      rw [hle.processing] at hi
      rcases List.mem_cons.1 hi with hi | hi
      · exact .inr (hi ▸ hdone)
      · exact .inl hi
  · rw [Chain.registry_complete, Registry.mem_expanded_markExpanded] at hi
    rcases hi with ⟨rfl, rfl⟩ | hi
    · exact ⟨decl, (show c'.direction = c.direction from hle.direction) ▸ ho⟩
    · rw [Registry.expanded_merge] at hi
      exact hc'.opened hi
  · rw [hext.processing]
    exact hc.nodup
  · rw [hext.processing]
    exact hc.declared

end Resolver

end ClientTypes

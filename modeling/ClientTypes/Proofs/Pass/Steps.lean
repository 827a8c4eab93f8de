import ClientTypes.Proofs.Law
import ClientTypes.Proofs.Registry.Growth
import ClientTypes.Pass

/-!
# From roots to passes

A pass is a sequence of chains that share a registry. What every chain keeps, the pass keeps; what
the chains of a contract answer still holds of the registry that the pass ends with.

## Main definitions

* `ResolvedOperation.types` — every descriptor that an operation is made of
* `Pass.law` — a law of the registry, and a fact about each imported namespace
* `Registry.law` — the same between contracts

The main statements are `keeps_operation` and `keeps_contracts`.
-/

namespace ClientTypes

/-- Every descriptor that a resolved operation is made of. -/
def ResolvedOperation.types (o : ResolvedOperation) : List Descriptor :=
  o.params.map (·.type) ++ o.results.map (·.type) ++ o.errors ++ o.exchange.fields.map (·.type)

/-- The law of registries with a given invariant. -/
def Registry.law (I : Registry → Prop) : Law Registry := ⟨I, Registry.Extends, .refl, .trans⟩

namespace Pass

variable {p : Pass} {I : Registry → Prop} {J : String → Registry → Prop} {ns : String}

/-- The registry keeps an invariant, and every imported namespace has a property. -/
def law (I : Registry → Prop) (J : String → Registry → Prop) : Law PassState where
  inv s := I s.registry ∧ ∀ ns ∈ s.imports, J ns s.registry
  le s t := s.registry.Extends t.registry
  refl s := .refl s.registry
  trans := .trans

/-- What a chain of its own does to the registry. -/
theorem keeps_root {α : Type} {direction : Direction} {act : Resolving α} {P : α → Registry → Prop}
    (hJ : ∀ n, (Registry.law I).Stable (J n))
    (h : ∀ registry, I registry →
      let out := act.run { ns, direction, registry }
      I out.2.registry ∧ registry.Extends out.2.registry ∧ P out.1 out.2.registry ∧
        ∀ n ∈ out.2.imports, J n out.2.registry) :
    (law I J).Keeps (fun _ => True) (root ns direction act) fun a s => P a s.registry := by
  intro s hs _
  obtain ⟨hI, hext, hok, himports⟩ := h s.registry hs.1
  refine ⟨⟨hI, fun n hn => ?_⟩, hext, hok⟩
  rcases List.mem_append.1 hn with hn | hn
  · exact hJ n hI hext (hs.2 n hn)
  · exact himports n hn

/-! ## Operations -/

/-- What holds of the answers to all roots of an operation holds of all that it is made of. -/
theorem keeps_operation {L : Law PassState} {ok : Descriptor → PassState → Prop} {op : Operation}
    (hok : ∀ d, L.Stable (ok d))
    (hargs : ∀ v ∈ op.payloadArgs p.config.contextTypes,
      L.Keeps (fun _ => True) (root ns .outbound (p.resolver.resolveRoot v)) ok)
    (hresults : ∀ v ∈ op.payloadResults p.config.errorTypes,
      L.Keeps (fun _ => True) (root ns .inbound (p.resolver.resolveRoot v)) ok)
    (herrors : ∀ id ∈ errorIds op,
      L.Keeps (fun _ => True) (root ns .inbound (p.resolver.resolve id 0)) ok) :
    L.Keeps (fun _ => True) (p.operation ns op) fun o s => ∀ d ∈ o.types, ok d s := by
  have htrue : L.Stable fun _ => True := Law.stable_const True
  have hall (ds : List Descriptor) : L.Stable fun s => ∀ d ∈ ds, ok d s :=
    fun _ _ ht hle h d hd => hok d ht hle (h d hd)
  unfold operation
  refine .bind htrue (.mapM_forall htrue hok _ hargs) fun args => ?_
  refine .bind (htrue.and (hall args)) ((Law.Keeps.mapM_forall htrue hok _ hresults).under
    (hall args)) fun results => ?_
  have hknown := (htrue.and (hall args)).and ((hall results).and (hall args))
  refine .bind hknown (Law.Keeps.mono (.mapM_forall htrue hok _ herrors) (fun _ _ => trivial)
    fun _ _ _ h => h) fun errors => .pure ?_
  rintro s - ⟨⟨-, hresults, hargs⟩, herrors⟩ d hd
  simp only [ResolvedOperation.types, List.mem_append, List.mem_map, Exchange.fields,
    Exchange.build] at hd
  rcases hd with ((⟨x, hx, rfl⟩ | ⟨x, hx, rfl⟩) | hd) | ⟨f, hf | hf, rfl⟩
  · exact hargs _ (Resolver.type_mem_of_mem_nameParams hx)
  · exact hresults _ (Resolver.type_mem_of_mem_nameParams hx)
  · exact herrors d hd
  · exact hargs _ (Exchange.type_mem_of_mem_slotFields hf)
  · exact hresults _ (Exchange.type_mem_of_mem_slotFields hf)

/-- What all operations of a contract keep, they keep one after another. -/
theorem keeps_operations {L : Law PassState} {ok : Descriptor → PassState → Prop} {c : Contract}
    (hok : ∀ d, L.Stable (ok d))
    (h : ∀ op ∈ c.operations, L.Keeps (fun _ => True) (p.operation c.package op)
      fun o s => ∀ d ∈ o.types, ok d s) :
    L.Keeps (fun _ => True) (c.operations.mapM (p.operation c.package))
      fun os s => ∀ o ∈ os, ∀ d ∈ o.types, ok d s := by
  have hall (o : ResolvedOperation) : L.Stable fun s => ∀ d ∈ o.types, ok d s :=
    fun _ _ ht hle hs d hd => hok d ht hle (hs d hd)
  exact .mapM_forall (Law.stable_const True) hall c.operations h

/-! ## Contracts -/

variable {ok : Descriptor → Registry → Prop}

/-- The registry when the operations of a contract have been resolved. -/
def resolved (p : Pass) (c : Contract) (registry : Registry) : Registry :=
  ((c.operations.mapM (p.operation c.package)).run { registry }).2.registry

/-- What a contract is made of, and its imports, as they relate to a registry. -/
structure Settles (p : Pass) (ok : Descriptor → Registry → Prop) (J : String → Registry → Prop)
    (c : Contract) (resolved : ResolvedContract) (registry : Registry) : Prop where
  ns : resolved.ns = c.package
  reachable : resolved.reachable = p.collector.collectContract c
  operations : ∀ o ∈ resolved.operations, ∀ d ∈ o.types, ok d registry
  imports : ∀ ns ∈ resolved.imports, J ns registry

theorem stable_settles (hok : ∀ d, (Registry.law I).Stable (ok d))
    (hJ : ∀ n, (Registry.law I).Stable (J n)) (c : Contract) (resolved : ResolvedContract) :
    (Registry.law I).Stable (p.Settles ok J c resolved) :=
  fun _ _ ht hle h => ⟨h.ns, h.reachable, fun o ho d hd => hok d ht hle (h.operations o ho d hd),
    fun n hn => hJ n ht hle (h.imports n hn)⟩

/-- A gap is left alone, or filled by resolving the type inbound in its own namespace. -/
theorem fill_cases (p : Pass) (registry : Registry) (id : TypeId) :
    p.fill registry id = registry ∨ ∃ ns, p.fill registry id =
      ((p.resolver.resolve id 0).run { ns, direction := .inbound, registry }).2.registry := by
  unfold fill
  split
  · exact .inl rfl
  · split
    · exact .inl rfl
    · split
      · exact .inl rfl
      · next ns _ =>
        split
        · exact .inl rfl
        · exact .inr ⟨ns, rfl⟩

theorem keeps_foldl_fill {ids : List TypeId}
    (h : ∀ id ∈ ids, ∀ registry, I registry →
      I (p.fill registry id) ∧ registry.Extends (p.fill registry id)) (registry : Registry)
    (hI : I registry) :
    I (ids.foldl p.fill registry) ∧ registry.Extends (ids.foldl p.fill registry) := by
  induction ids generalizing registry with
  | nil => exact ⟨hI, .refl _⟩
  | cons id ids ih =>
    obtain ⟨hI', hext⟩ := h id (by simp) registry hI
    obtain ⟨hI'', hext'⟩ := ih (fun i hi => h i (by simp [hi])) _ hI'
    exact ⟨hI'', hext.trans hext'⟩

/-- A contract keeps what its operations and the filling of gaps keep. -/
theorem keeps_contract {c : Contract} (hok : ∀ d, (Registry.law I).Stable (ok d))
    (hJ : ∀ n, (Registry.law I).Stable (J n))
    (hops : ∀ op ∈ c.operations, (law I J).Keeps (fun _ => True) (p.operation c.package op)
      fun o s => ∀ d ∈ o.types, ok d s.registry)
    (hfill : ∀ id ∈ p.collector.collectContract c, ∀ registry, I registry →
      I (p.fill registry id) ∧ registry.Extends (p.fill registry id)) :
    (Registry.law I).Keeps (fun _ => True) (p.contract c) (p.Settles ok J c) := by
  intro registry hI _
  have hok' (d : Descriptor) : (law I J).Stable fun s => ok d s.registry :=
    fun _ _ ht hle h => hok d ht.1 hle h
  obtain ⟨hs, hext, hoperations⟩ :=
    keeps_operations hok' hops (PassState.mk registry []) ⟨hI, by simp⟩ trivial
  obtain ⟨hI', hext'⟩ := keeps_foldl_fill hfill _ hs.1
  refine ⟨hI', hext.trans hext', rfl, rfl, fun o ho d hd => ?_, fun n hn => ?_⟩
  · exact hok d hI' hext' (hoperations o ho d hd)
  · exact hJ n hI' hext' (hs.2 n (mem_sortedSet.1 hn))

/-- A chain of its own preserves a property of the registry. -/
def Preserves (I : Registry → Prop) (direction : Direction) (act : Resolving Descriptor) : Prop :=
  ∀ ns registry, I registry →
    I (act.run { ns, direction, registry }).2.registry ∧
      registry.Extends (act.run { ns, direction, registry }).2.registry

theorem Preserves.fill {id : TypeId} (h : Preserves I .inbound (p.resolver.resolve id 0))
    (registry : Registry) (hI : I registry) :
    I (p.fill registry id) ∧ registry.Extends (p.fill registry id) := by
  obtain heq | ⟨ns, heq⟩ := p.fill_cases registry id
  · rw [heq]
    exact ⟨hI, .refl _⟩
  · rw [heq]
    exact h ns registry hI

/-- An operation preserves what all of its chains preserve. -/
theorem keeps_operation_of_preserves {op : Operation}
    (hargs : ∀ v ∈ op.payloadArgs p.config.contextTypes,
      Preserves I .outbound (p.resolver.resolveRoot v))
    (hresults : ∀ v ∈ op.payloadResults p.config.errorTypes,
      Preserves I .inbound (p.resolver.resolveRoot v))
    (herrors : ∀ id ∈ errorIds op, Preserves I .inbound (p.resolver.resolve id 0)) :
    (law I fun _ _ => True).Keeps (fun _ => True) (p.operation ns op)
      fun o _ => ∀ d ∈ o.types, True := by
  have hroot {direction : Direction} {act : Resolving Descriptor} (h : Preserves I direction act) :
      (law I fun _ _ => True).Keeps (fun _ => True) (root ns direction act) fun _ _ => True :=
    keeps_root (P := fun _ _ => True) (fun _ => Law.stable_const True) fun registry hI =>
      ⟨(h _ registry hI).1, (h _ registry hI).2, trivial, fun _ _ => trivial⟩
  exact keeps_operation (fun _ => Law.stable_const True) (fun v hv => hroot (hargs v hv))
    (fun v hv => hroot (hresults v hv)) fun id hid => hroot (herrors id hid)

/-- A contract preserves what all of its chains preserve. -/
theorem keeps_contract_of_preserves {c : Contract}
    (hargs : ∀ op ∈ c.operations, ∀ v ∈ op.payloadArgs p.config.contextTypes,
      Preserves I .outbound (p.resolver.resolveRoot v))
    (hresults : ∀ op ∈ c.operations, ∀ v ∈ op.payloadResults p.config.errorTypes,
      Preserves I .inbound (p.resolver.resolveRoot v))
    (herrors : ∀ op ∈ c.operations, ∀ id ∈ errorIds op,
      Preserves I .inbound (p.resolver.resolve id 0))
    (hfill : ∀ id ∈ p.collector.collectContract c,
      Preserves I .inbound (p.resolver.resolve id 0)) :
    (Registry.law I).Keeps (fun _ => True) (p.contract c)
      (p.Settles (fun _ _ => True) (fun _ _ => True) c) :=
  keeps_contract (fun _ => Law.stable_const True) (fun _ => Law.stable_const True)
    (fun op hop => keeps_operation_of_preserves (hargs op hop) (hresults op hop) (herrors op hop))
    fun id hid => (hfill id hid).fill

theorem contracts_eq_mapM (cs : List Contract) (registry : Registry) :
    p.contracts cs registry = StateT.run (m := Id) (cs.mapM p.contract) registry := by
  induction cs generalizing registry with
  | nil => rfl
  | cons c cs ih => simp only [contracts, ih, List.mapM_cons]; rfl

/-- A pass keeps what its contracts keep, and every contract fits the registry at its end. -/
theorem keeps_contracts {cs : List Contract} {J : Contract → String → Registry → Prop}
    (hok : ∀ d, (Registry.law I).Stable (ok d))
    (hJ : ∀ c n, (Registry.law I).Stable (J c n))
    (h : ∀ c ∈ cs, (Registry.law I).Keeps (fun _ => True) (p.contract c) (p.Settles ok (J c) c))
    {registry : Registry} (hI : I registry) :
    I (p.contracts cs registry).2 ∧ registry.Extends (p.contracts cs registry).2 ∧
      List.Forall₂ (fun c resolved => p.Settles ok (J c) c resolved (p.contracts cs registry).2) cs
        (p.contracts cs registry).1 := by
  rw [contracts_eq_mapM]
  exact Law.Keeps.mapM (Law.stable_const True)
    (fun c resolved => stable_settles hok (hJ c) c resolved) cs h registry hI trivial

end Pass

end ClientTypes

import ClientTypes.Proofs.Resolve.Lending
import ClientTypes.Proofs.Session

/-!
# What a contract imports

A contract imports the namespaces that the chains of its roots have noted. So every name that its
operations mention belongs to the contract's own namespace or to an imported one, unless it has been
lent to the contract: by a definition that an unnamed type on the surface of an answer has copied
members from.

## Main definitions

* `Pass.requests` — what the operations of a contract ask for
* `Pass.Lends` — the names that are lent to a contract

The main statement is `generate_imports`.
-/

namespace ClientTypes

namespace Resolver

variable {r : Resolver} {I : Registry → Prop} {K : Chain → Prop} {reg : Registry}
  {dir : Direction} {lent : QName → Prop}

/-- Every name belongs to the chain's own namespace or to an imported one, or it is lent. -/
def Imported (lent : QName → Prop) (c : Chain) (s : Shape Descriptor) : Prop :=
  ∀ q, s.reference? = some q → q.ns = c.ns ∨ q.ns ∈ c.imports ∨ lent q

theorem weighs_imported (lent : QName → Prop) : (r.lawWith I K).Weighs (Imported lent) where
  stable s c c' _ hle h q hq := by
    rw [hle.ns]
    exact (h q hq).imp_right (.imp_left fun hns => hle.imports hns)
  solid c s hs _ q hq := by simp [hs] at hq

/-- A registry between two chains, in which definitions mention what their types carry. -/
structure Stored (r : Resolver) (reg : Registry) : Prop where
  rests : r.Rests r.Leaning reg
  stocked : r.Stocked reg

theorem Stored.empty (r : Resolver) : r.Stored {} :=
  ⟨.empty r r.leaning_empty, by simp [Stocked]⟩

theorem answers_imported (query : Query)
    (hlent : ∀ root ∈ r.queryRoots query, ∀ q, r.Lends dir root q → lent q) :
    (r.lawWith r.Leaning fun c => r.Stocked c.registry).Answers (Imported lent)
      (fun c => c.direction = dir ∧ c.processing = []) (r.answer query) := by
  have hdirection : (r.lawWith r.Leaning fun c => r.Stocked c.registry).Stable
      fun c => c.direction = dir :=
    fun _ _ _ hle hdir => hle.direction.trans hdir
  refine answers_answer (hdirection.and stable_start_lawWith) (weighs_imported lent) query
    fun root hroot => ?_
  refine ((keeps_inAnswer r.depthLimit root).under hdirection).mono
    (fun c hp => ⟨underway_of_start hp.2, hp.1⟩) ?_
  rintro d c - ⟨hd, rfl⟩
  refine hd.imp fun s h q hq => ?_
  obtain ⟨-, haccounts⟩ := h q hq
  exact haccounts.imp_right (.imp_right (hlent root hroot q))

/-- What a chain of its own does to a registry, and what it imports. -/
theorem Stored.answer (h : r.Stored reg) (query : Query) (ns : String)
    (hlent : ∀ root ∈ r.queryRoots query, ∀ q, r.Lends dir root q → lent q) :
    let out := (r.answer query).run { ns, direction := dir, registry := reg }
    r.Stored out.2.registry ∧ reg.Extends out.2.registry ∧
      ∀ q ∈ out.1.references, q.ns = ns ∨ q.ns ∈ out.2.imports ∨ lent q := by
  intro out
  obtain ⟨⟨hinv, hstocked⟩, hle, hd⟩ := answers_imported query hlent
    { ns, direction := dir, registry := reg } ⟨h.rests.inv ns dir, h.stocked⟩ ⟨rfl, rfl⟩
  refine ⟨⟨hinv.rests hle.processing, hstocked⟩, hle.registry, fun q hq => ?_⟩
  have hq := Descriptor.all_reference_iff.1 hd q hq
  rwa [hle.ns] at hq

end Resolver

namespace Pass

variable {p : Pass} {dir : Direction} {lent : QName → Prop} {ns : String}

def argsRequest (p : Pass) (ns : String) (op : Operation) : Request where
  ns
  direction := .outbound
  queries := (op.payloadArgs p.config.contextTypes).map .variable

def resultsRequest (p : Pass) (ns : String) (op : Operation) : Request where
  ns
  direction := .inbound
  queries := (op.payloadResults p.config.errorTypes).map .variable

def errorsRequest (ns : String) (op : Operation) : Request where
  ns
  direction := .inbound
  queries := (errorIds op).map (.type · 0)

def operationRequests (p : Pass) (ns : String) (op : Operation) : List Request :=
  [p.argsRequest ns op, p.resultsRequest ns op, errorsRequest ns op]

/-- What the operations of a contract ask for: arguments, results and errors. -/
def requests (p : Pass) (c : Contract) : List Request :=
  c.operations.flatMap (p.operationRequests c.package)

/-- The definitions from which the answers to a contract copy members lend it a name. -/
def Lends (p : Pass) (c : Contract) (q : QName) : Prop :=
  ∃ request ∈ p.requests c, ∃ root ∈ p.resolver.roots request,
    p.resolver.Lends request.direction root q

/-- The namespaces that are imported only grow in number. -/
def importLaw (p : Pass) : Law PassState where
  inv s := p.resolver.Stored s.registry
  le s t := s.registry.Extends t.registry ∧ s.imports ⊆ t.imports
  refl s := ⟨.refl s.registry, List.Subset.refl _⟩
  trans h h' := ⟨h.1.trans h'.1, List.Subset.trans h.2 h'.2⟩

/-- Every name in a descriptor belongs to a contract's own namespace or to an imported one, or it is
lent. -/
def Imports (lent : QName → Prop) (ns : String) (d : Descriptor) (s : PassState) : Prop :=
  ∀ q ∈ d.references, q.ns = ns ∨ q.ns ∈ s.imports ∨ lent q

theorem stable_imports (d : Descriptor) : p.importLaw.Stable (Imports lent ns d) :=
  fun _ _ _ hle h q hq => (h q hq).imp_right (.imp_left fun hns => hle.2 hns)

theorem imports_root (query : Query)
    (hlent : ∀ root ∈ p.resolver.queryRoots query, ∀ q, p.resolver.Lends dir root q → lent q) :
    p.importLaw.Keeps (fun _ => True) (root ns dir (p.resolver.answer query))
      (Imports lent ns) := by
  intro s hs _
  obtain ⟨hstored, hext, himports⟩ := Resolver.Stored.answer hs query ns hlent
  refine ⟨hstored, ⟨hext, List.subset_append_left _ _⟩, fun q hq => ?_⟩
  exact (himports q hq).imp_right (.imp_left fun hns => List.mem_append_right _ hns)

/-- What a root of one of the requests answers is imported, or it is lent to the contract. -/
theorem imports_request {c : Contract} (request : Request) (hrequest : request ∈ p.requests c)
    (query : Query) (hquery : query ∈ request.queries) :
    p.importLaw.Keeps (fun _ => True) (root ns request.direction (p.resolver.answer query))
      (Imports (p.Lends c) ns) :=
  imports_root query fun root hroot _ hq =>
    ⟨request, hrequest, root, List.mem_flatMap.2 ⟨query, hquery, hroot⟩, hq⟩

theorem imports_operation {c : Contract} {op : Operation} (hop : op ∈ c.operations) :
    p.importLaw.Keeps (fun _ => True) (p.operation c.package op)
      fun o s => ∀ d ∈ o.types, Imports (p.Lends c) c.package d s := by
  have hrequests {request : Request} (h : request ∈ p.operationRequests c.package op) :
      request ∈ p.requests c :=
    List.mem_flatMap.2 ⟨op, hop, h⟩
  refine keeps_operation stable_imports (fun v hv => ?_) (fun v hv => ?_) fun id hid => ?_
  · exact imports_request (p.argsRequest c.package op) (hrequests (by simp [operationRequests]))
      (.variable v) (List.mem_map_of_mem hv)
  · exact imports_request (p.resultsRequest c.package op) (hrequests (by simp [operationRequests]))
      (.variable v) (List.mem_map_of_mem hv)
  · exact imports_request (errorsRequest c.package op) (hrequests (by simp [operationRequests]))
      (.type id 0) (List.mem_map_of_mem hid)

theorem preserves_stored (id : TypeId) :
    Preserves p.resolver.Stored .inbound (p.resolver.resolve id 0) := by
  intro ns registry h
  have hlent : ∀ root ∈ p.resolver.queryRoots (.type id 0), ∀ q,
      p.resolver.Lends .inbound root q → True := fun _ _ _ _ => trivial
  obtain ⟨hstored, hext, -⟩ := h.answer (.type id 0) ns hlent
  exact ⟨hstored, hext⟩

/-- Whatever the operations of a contract mention is its own, or imported, or lent. -/
theorem imports_contract (c : Contract) :
    (Registry.law p.resolver.Stored).Keeps (fun _ => True) (p.contract c) fun resolved _ =>
      ∀ o ∈ resolved.operations, ∀ d ∈ o.types, ∀ q ∈ d.references,
        q.ns = c.package ∨ q.ns ∈ resolved.imports ∨ p.Lends c q := by
  intro registry hI _
  obtain ⟨hs, hle, hoperations⟩ := keeps_operations stable_imports
    (fun op hop => imports_operation hop) (PassState.mk registry []) hI trivial
  have hfill : ∀ id ∈ p.collector.collectContract c, ∀ registry, p.resolver.Stored registry →
      p.resolver.Stored (p.fill registry id) ∧ registry.Extends (p.fill registry id) :=
    fun id _ => (preserves_stored id).fill
  obtain ⟨hI', hext⟩ := keeps_foldl_fill hfill _ hs
  refine ⟨hI', hle.1.trans hext, fun o ho d hd q hq => ?_⟩
  exact (hoperations o ho d hd q hq).imp_right (.imp_left fun hns => mem_sortedSet.2 hns)

end Pass

/-- Every name that the operations of a contract mention belongs to its own namespace or to one that
it imports, unless it has been lent to the contract. -/
theorem generate_imports (project : Project) (config : Config) (contracts : List Contract) :
    List.Forall₂ (fun contract c => c.ns = contract.package ∧
        ∀ o ∈ c.operations, ∀ d ∈ o.types, ∀ q ∈ d.references,
          q.ns = contract.package ∨ q.ns ∈ c.imports ∨
            (Pass.make project config).Lends contract q)
      contracts (generate project config contracts).contracts := by
  have hcontract : ∀ contract ∈ contracts,
      (Registry.law (Pass.make project config).resolver.Stored).Keeps (fun _ => True)
        ((Pass.make project config).contract contract) fun c _ => c.ns = contract.package ∧
          ∀ o ∈ c.operations, ∀ d ∈ o.types, ∀ q ∈ d.references, q.ns = contract.package ∨
            q.ns ∈ c.imports ∨ (Pass.make project config).Lends contract q := by
    intro contract _ registry hI ht
    obtain ⟨hI', hle, h⟩ := Pass.imports_contract contract registry hI ht
    exact ⟨hI', hle, rfl, h⟩
  obtain ⟨-, -, hcontracts⟩ := Law.Keeps.mapM (Law.stable_const True)
    (fun _ _ => Law.stable_const _) contracts hcontract {} (Resolver.Stored.empty _) trivial
  rwa [← Pass.contracts_eq_mapM] at hcontracts

/-! ## Receipts -/

namespace Receipts

-- The runs below are evaluated, down to the tags of fields and their promoted properties.
attribute [local semireducible] Tag.lookupChars Registry.structFrom

/-- Takes a payment and hands out a receipt. -/
def till : Contract where
  name := "Till"
  package := "shop"
  operations := [{ name := "Pay", results := [{ name := "receipt", type := ⟨"receipt"⟩ }] }]

/-- A receipt has no name of its own. It has an invoice in it, whose total is an amount of money. -/
def project (embedded : Bool) : Project where
  path := "shop"
  contracts := [till]
  types :=
    [(⟨"receipt"⟩, {
        kind := .struct [{ var := { name := "Invoice", type := ⟨"Invoice"⟩ }, embedded }] }),
     (⟨"Invoice"⟩, {
        package := some "billing", name := some "Invoice"
        kind := .struct [{ var := { name := "Total", type := ⟨"Amount"⟩ } }] }),
     (⟨"Amount"⟩, { package := some "money", name := some "Amount", kind := .struct [] })]

/-- A receipt that names its invoice comes with all imports. -/
theorem imports_of_named_invoice :
    ∀ c ∈ (generate (project false) {} [till]).contracts, ∀ o ∈ c.operations, ∀ d ∈ o.types,
      ∀ q ∈ d.references, q.ns = "shop" ∨ q.ns ∈ c.imports := by
  intro c hc o ho d hd q hq
  obtain ⟨contract, hcontract, -, h⟩ :=
    exists_of_mem_right (generate_imports (project false) {} [till]) hc
  obtain rfl := List.mem_singleton.1 hcontract
  rcases h o ho d hd q hq with hns | hns | ⟨request, -, root, -, hlends⟩
  · exact .inl hns
  · exact .inr hns
  · exact absurd hlends (Resolver.not_lends_of_takes_eq_nil (by decide))

/-- What the till does from an empty registry. -/
def paid (embedded : Bool) : List ResolvedOperation × PassState :=
  (till.operations.mapM ((Pass.make (project embedded) {}).operation till.package)).run
    { registry := {} }

theorem contracts_generate (embedded : Bool) :
    (generate (project embedded) {} [till]).contracts =
      [{ name := "Till"
         ns := "shop"
         reachable := (Pass.make (project embedded) {}).collector.collectContract till
         operations := (paid embedded).1
         imports := sortedSet (paid embedded).2.imports }] :=
  rfl

theorem imports_paid : (paid true).2.imports = ["billing"] := by
  decide

theorem references_paid :
    ∃ o ∈ (paid true).1, ∃ x ∈ o.results, ⟨"money", "Amount"⟩ ∈ x.type.references := by
  decide

/-- A receipt that embeds its invoice has the total of the invoice, but the namespace of the amount
is not imported. -/
theorem exists_import_missing :
    ∃ c ∈ (generate (project true) {} [till]).contracts, ∃ o ∈ c.operations, ∃ x ∈ o.results,
      ∃ q ∈ x.type.references, q.ns ≠ c.ns ∧ q.ns ∉ c.imports := by
  obtain ⟨o, ho, x, hx, hq⟩ := references_paid
  rw [contracts_generate, imports_paid]
  refine ⟨_, List.mem_singleton_self _, o, ho, x, hx, _, hq, by decide, fun hns => ?_⟩
  have hbilling : "money" ∈ ["billing"] := mem_sortedSet.1 hns
  simp at hbilling

end Receipts

end ClientTypes

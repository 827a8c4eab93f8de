import ClientTypes.Proofs.Pass.Steps
import ClientTypes.Proofs.Path
import ClientTypes.Proofs.Resolve.Depth

/-!
# Types that nothing leads to

A pass looks up the types that its contracts mention, the types that these mention, and so on, and
no others: neither the walk of a collector nor resolution nor the filling of gaps leaves this part
of the type graph. What else a project declares has no influence on the outcome.

## Main definitions

* `Project.Connects` — a path in the type graph, whatever the types on it
* `Project.AgreesOn` — two projects that declare the same ids alike, and among them all that they
  mention

The main statement is `generate_congr`.
-/

namespace ClientTypes

theorem mapM_congr {σ α β : Type} {f g : α → StateM σ β} {as : List α}
    (h : ∀ a ∈ as, f a = g a) : as.mapM f = as.mapM g := by
  induction as with
  | nil => rfl
  | cons a as ih =>
    rw [List.mapM_cons, List.mapM_cons, h a (by simp), ih fun b hb => h b (by simp [hb])]

namespace Project

variable {p p' : Project} {P : TypeId → Prop} {id last : TypeId}

/-- A path in the type graph. It follows all edges of every declared type on it, also of those that
are substituted or control their own wire format. -/
def Connects (p : Project) : TypeId → TypeId → Prop :=
  Relation.ReflTransGen fun id next => ∃ decl, p.type? id = some decl ∧ decl.kind.Mentions next

/-- Two projects that declare alike some ids, which mention no others. -/
structure AgreesOn (p p' : Project) (P : TypeId → Prop) : Prop where
  type? : ∀ {id}, P id → p.type? id = p'.type? id
  links : ∀ id decl, P id → p.type? id = some decl → ∀ i ∈ decl.kind.links, P i

/-- Ids that mention no others are never left. -/
theorem Connects.of_links (h : p.Connects id last) (hid : P id)
    (hlinks : ∀ id decl, P id → p.type? id = some decl → ∀ i ∈ decl.kind.links, P i) : P last := by
  induction h with
  | refl => exact hid
  | tail _ hedge ih =>
    obtain ⟨decl, hd, hmentions⟩ := hedge
    exact hlinks _ decl ih hd _ (Kind.mem_links.2 hmentions)

/-- What is connected to some ids mentions nothing that is not. -/
theorem agreesOn_of_connects {roots : TypeId → Prop}
    (h : ∀ root, roots root → ∀ id, p.Connects root id → p.type? id = p'.type? id) :
    p.AgreesOn p' fun id => ∃ root, roots root ∧ p.Connects root id where
  type? := fun ⟨root, hroot, hid⟩ => h root hroot _ hid
  links := by
    rintro id decl ⟨root, hroot, hid⟩ hd i hi
    exact ⟨root, hroot, hid.tail ⟨decl, hd, Kind.mem_links.1 hi⟩⟩

end Project

section

variable {project project' : Project} {config : Config} {P : TypeId → Prop} {id : TypeId}
  (h : project.AgreesOn project' P)

include h

/-! ## Resolution -/

namespace Resolver

theorem seesAlike_make : (make project config).SeesAlike (make project' config) P :=
  ⟨rfl, rfl, h.type?⟩

/-- Each resolver has a limit of its own, by the number of types it knows of. A common larger one
makes no difference to either. -/
theorem resolveType_congr (hid : P id) :
    (make project config).resolveType (make project config).depthLimit id =
      (make project' config).resolveType (make project' config).depthLimit id := by
  let r := make project config
  let r' := make project' config
  let n := max r.depthLimit r'.depthLimit
  have hdeep (r : Resolver) (hn : r.depthLimit ≤ n) :
      r.resolveType r.depthLimit id = r.resolveType n id := by
    funext c
    exact ((deep_resolveType (Nat.le_refl _)).coincide (deep_resolveType hn) id).2 c trivial
      card_idle_le_depthLimit
  calc r.resolveType r.depthLimit id
    _ = r.resolveType n id := hdeep r (Nat.le_max_left _ _)
    _ = r'.resolveType n id := funext fun c =>
      (coincide_resolveType (seesAlike_make h) h.links n hid).2 c trivial trivial
    _ = r'.resolveType r'.depthLimit id := (hdeep r' (Nat.le_max_right _ _)).symm

theorem resolve_congr (hid : P id) (pointers : Nat) :
    (make project config).resolve id pointers = (make project' config).resolve id pointers := by
  unfold resolve
  rw [resolveType_congr h hid]

theorem resolveRoot_congr {v : Variable} (hv : ∀ i ∈ v.ids, P i) :
    (make project config).resolveRoot v = (make project' config).resolveRoot v := by
  have hr : (make project config).SeesAlike (make project' config) P := seesAlike_make h
  have hroot := coincide_resolveVariable hr (Law.stable_const True) (fun i hi =>
    ⟨grows_resolveType (make project config) _ i, fun _ _ _ => by rw [resolveType_congr h hi]⟩) hv
  funext c
  exact hroot.2 c trivial trivial

end Resolver

/-! ## Collection -/

namespace Collector

theorem successors_congr {root : Root} (hroot : P root.1) :
    (make project config).successors root = (make project' config).successors root := by
  unfold successors
  have htype : (make project config).project.type? root.1 =
      (make project' config).project.type? root.1 := h.type? hroot
  rw [htype]
  rfl

theorem collects_congr (hid : P id) :
    (make project config).collects id = (make project' config).collects id := by
  unfold collects
  have htype : (make project config).project.type? id = (make project' config).project.type? id :=
    h.type? hid
  rw [htype]
  rfl

theorem forall_mem_successors {root : Root} (hroot : P root.1) :
    ∀ next ∈ (make project config).successors root, P next.1 := by
  intro next hnext
  obtain ⟨decl, hd, -, -, hlink, -⟩ := mem_successors.1 hnext
  exact h.links root.1 decl hroot hd _ hlink

/-- The walk goes the same way through both projects. -/
theorem explore_congr {met stack : List Root} (hstack : ∀ root ∈ stack, P root.1) :
    (make project config).explore met stack = (make project' config).explore met stack := by
  fun_induction Collector.explore (make project config) met stack with
  | case1 met => rw [explore]
  | case2 met root stack hmet ih =>
    rw [explore, if_pos hmet]
    exact ih fun a ha => hstack a (List.mem_cons_of_mem _ ha)
  | case3 met root stack hmet ih =>
    have hroot : P root.1 := hstack root List.mem_cons_self
    rw [explore, if_neg hmet, ← successors_congr h hroot]
    refine ih fun a ha => ?_
    rcases List.mem_append.1 ha with ha | ha
    · exact forall_mem_successors h hroot a ha
    · exact hstack a (List.mem_cons_of_mem _ ha)

theorem forall_mem_explore {roots : List Root} (hroots : ∀ root ∈ roots, P root.1) :
    ∀ root ∈ (make project config).explore [] roots, P root.1 :=
  explore_induct (fun _ ha => forall_mem_successors h ha) (by simp) hroots

theorem collect_congr {roots : List Root} (hroots : ∀ root ∈ roots, P root.1) :
    (make project config).collect roots = (make project' config).collect roots := by
  have hcollects : ∀ id ∈ ((make project config).explore [] roots).map (·.1),
      (make project config).collects id = (make project' config).collects id := by
    intro id hid
    obtain ⟨root, hroot, rfl⟩ := List.mem_map.1 hid
    exact collects_congr h (forall_mem_explore h hroots root hroot)
  unfold collect
  rw [List.filter_congr hcollects, explore_congr h hroots]

theorem forall_mem_collect {roots : List Root} (hroots : ∀ root ∈ roots, P root.1) :
    ∀ id ∈ (make project config).collect roots, P id := by
  intro id hid
  obtain ⟨-, direction, hreach⟩ := mem_collect.1 hid
  exact forall_mem_explore h hroots (id, direction) (mem_explore_iff.2 hreach)

end Collector

/-! ## Passes -/

namespace Pass

theorem variableTypes_congr {vars : List Variable} (hvars : ∀ v ∈ vars, ∀ i ∈ v.ids, P i)
    (ns : String) (direction : Direction) :
    (make project config).variableTypes ns direction vars =
      (make project' config).variableTypes ns direction vars :=
  mapM_congr fun v hv => congrArg _ (Resolver.resolveRoot_congr h (hvars v hv))

theorem operation_congr {op : Operation}
    (hroots : ∀ root ∈ (Collector.make project config).operationRoots op, P root.1) (ns : String) :
    (make project config).operation ns op = (make project' config).operation ns op := by
  have hinbound : ∀ i ∈ (op.payloadResults config.errorTypes).flatMap (·.ids) ++ op.errors ++
      op.defaultError.toList, P i := fun i hi =>
    hroots (i, .inbound) (List.mem_append_right _ (List.mem_map_of_mem hi))
  have hargs : (make project config).variableTypes ns .outbound
        (op.payloadArgs (make project config).config.contextTypes) =
      (make project' config).variableTypes ns .outbound (op.payloadArgs config.contextTypes) := by
    refine variableTypes_congr h (fun v hv i hi => hroots (i, .outbound) ?_) ns .outbound
    exact List.mem_append_left _ (List.mem_map_of_mem (List.mem_flatMap.2 ⟨v, hv, hi⟩))
  have hresults : (make project config).variableTypes ns .inbound
        (op.payloadResults (make project config).config.errorTypes) =
      (make project' config).variableTypes ns .inbound (op.payloadResults config.errorTypes) := by
    refine variableTypes_congr h (fun v hv i hi => hinbound i ?_) ns .inbound
    exact List.mem_append_left _ (List.mem_append_left _ (List.mem_flatMap.2 ⟨v, hv, hi⟩))
  have herrors : (errorIds op).mapM (fun id =>
        root ns .inbound ((make project config).resolver.resolve id 0)) =
      (errorIds op).mapM fun id =>
        root ns .inbound ((make project' config).resolver.resolve id 0) := by
    refine mapM_congr fun id hid => congrArg _ (Resolver.resolve_congr h (hinbound id ?_) 0)
    rcases List.mem_append.1 hid with hid | hid
    · exact List.mem_append_left _ (List.mem_append_right _ hid)
    · exact List.mem_append_right _ (List.mem_filter.1 hid).1
  unfold operation
  dsimp only
  rw [hargs, hresults, herrors]
  rfl

theorem fill_congr (hid : P id) (registry : Registry) :
    (make project config).fill registry id = (make project' config).fill registry id := by
  have htype : (make project config).project.type? id = (make project' config).project.type? id :=
    h.type? hid
  have hresolve : (make project config).resolver.resolve id 0 =
      (make project' config).resolver.resolve id 0 := Resolver.resolve_congr h hid 0
  unfold fill
  rw [htype, hresolve]
  rfl

theorem contract_congr {c : Contract}
    (hroots : ∀ root ∈ (Collector.make project config).contractRoots c, P root.1) :
    (make project config).contract c = (make project' config).contract c := by
  have hcollect : (make project config).collector.collectContract c =
      (make project' config).collector.collectContract c := Collector.collect_congr h hroots
  have hoperations : c.operations.mapM ((make project config).operation c.package) =
      c.operations.mapM ((make project' config).operation c.package) :=
    mapM_congr fun op hop => operation_congr h
      (fun root hroot => hroots root (List.mem_flatMap.2 ⟨op, hop, hroot⟩)) c.package
  have hfill (registry : Registry) :
      ((make project config).collector.collectContract c).foldl (make project config).fill
          registry =
        ((make project config).collector.collectContract c).foldl (make project' config).fill
          registry :=
    List.foldl_ext _ _ _ fun before id hid =>
      fill_congr h (Collector.forall_mem_collect h hroots id hid) before
  funext registry
  unfold contract
  rw [hoperations]
  simp only [hfill]
  rw [hcollect]

theorem contracts_congr {cs : List Contract}
    (hroots : ∀ c ∈ cs, ∀ root ∈ (Collector.make project config).contractRoots c, P root.1)
    (registry : Registry) :
    (make project config).contracts cs registry = (make project' config).contracts cs registry := by
  rw [contracts_eq_mapM, contracts_eq_mapM,
    mapM_congr fun c hc => contract_congr h (hroots c hc)]

end Pass

end

/-- Two projects that declare alike whatever the roots of some contracts are connected to, or both
do not declare it, lead to the same outcome for these contracts: the same operations, needed types
and imports, and the same table of definitions. -/
theorem generate_congr (project project' : Project) (config : Config) (contracts : List Contract)
    (h : ∀ contract ∈ contracts, ∀ root ∈ (Collector.make project config).contractRoots contract,
      ∀ id, project.Connects root.1 id → project.type? id = project'.type? id) :
    generate project config contracts = generate project' config contracts := by
  let roots (id : TypeId) : Prop := ∃ contract ∈ contracts,
    ∃ root ∈ (Collector.make project config).contractRoots contract, root.1 = id
  have hagree : project.AgreesOn project' fun id =>
      ∃ root, roots root ∧ project.Connects root id := by
    refine Project.agreesOn_of_connects ?_
    rintro _ ⟨contract, hcontract, root, hroot, rfl⟩
    exact h contract hcontract root hroot
  unfold generate
  rw [Pass.contracts_congr hagree fun contract hcontract root hroot =>
    ⟨root.1, ⟨contract, hcontract, root, hroot, rfl⟩, .refl⟩]

/-! ## A project that is extended -/

namespace Library

/-- Finds a book by its title. -/
def catalogue : Contract where
  name := "Catalogue"
  package := "library"
  operations := [{
    name := "Find"
    args := [{ name := "title", type := ⟨"string"⟩ }]
    results := [{ name := "book", type := ⟨"Book"⟩ }] }]

def book : TypeDecl where
  package := some "library"
  name := some "Book"
  kind := .struct [{ var := { name := "Title", type := ⟨"string"⟩ } }]

/-- A shelf holds books. -/
def shelf : TypeDecl where
  package := some "library"
  name := some "Shelf"
  kind := .array { elem := ⟨"Book"⟩ }

/-- The books alone. -/
def project : Project where
  path := "library"
  types := [(⟨"Book"⟩, book)]

/-- The books and the shelves that they stand on. -/
def extended : Project := { project with types := [(⟨"Shelf"⟩, shelf), (⟨"Book"⟩, book)] }

/-- The shelves make no difference to the catalogue. -/
theorem generate_extended :
    project.type? ⟨"Shelf"⟩ ≠ extended.type? ⟨"Shelf"⟩ ∧
      generate project {} [catalogue] = generate extended {} [catalogue] := by
  refine ⟨by decide, generate_congr project extended {} [catalogue] ?_⟩
  let known (id : TypeId) : Prop := id ∈ [⟨"string"⟩, ⟨"Book"⟩]
  have hroots : ∀ root ∈ (Collector.make project {}).contractRoots catalogue, known root.1 := by
    decide
  have hlinks (id : TypeId) (decl : TypeDecl) (hid : known id) (hd : project.type? id = some decl) :
      ∀ i ∈ decl.kind.links, known i := by
    obtain ⟨-, rfl⟩ := Prod.ext_iff.1 (List.mem_singleton.1 (Project.mem_types_of_type? hd))
    decide
  intro contract hcontract root hroot id hid
  obtain rfl := List.mem_singleton.1 hcontract
  have hknown : known id := hid.of_links (hroots root hroot) hlinks
  obtain rfl | rfl : id = ⟨"string"⟩ ∨ id = ⟨"Book"⟩ := by simpa [known] using hknown
  all_goals decide

end Library

end ClientTypes

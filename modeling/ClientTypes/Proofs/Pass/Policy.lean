import Mathlib.Data.List.Sort
import ClientTypes.Pass
import ClientTypes.Proofs.Path

/-!
# What the policy changes

The policy says whether a type that has a substitute counts among the types that a contract needs.
It says nothing about the walk, which never goes on behind such a type, and nothing about roots,
which are answered by the substitute. What counts in addition is handed to the filling of gaps,
where nothing is done for it; so the next contract starts from the same registry.

## Main definitions

* `Config.replaces` — declared types that have a substitute

The main statement is `generate_native`.
-/

namespace ClientTypes

/-- The id is declared under a qualified name that has a substitute. -/
def Config.replaces (config : Config) (project : Project) (id : TypeId) : Bool :=
  (project.type? id).any fun decl =>
    decl.qname?.any fun q => config.substitutionTable.contains q.dotted

variable {project : Project} {config : Config} {id : TypeId}

namespace Collector

/-- Ids in ascending order are determined by which they are. -/
theorem eq_of_mem_iff_of_pairwise_lt {ids ids' : List TypeId}
    (hids : ids.Pairwise fun i j => i.text < j.text)
    (hids' : ids'.Pairwise fun i j => i.text < j.text) (h : ∀ id, id ∈ ids ↔ id ∈ ids') :
    ids = ids' := by
  have : Std.Irrefl fun i j : TypeId => i.text < j.text := ⟨fun i => String.lt_irrefl i.text⟩
  have : Std.Antisymm fun i j : TypeId => i.text < j.text :=
    ⟨fun i j hij hji => absurd (String.lt_trans hij hji) (String.lt_irrefl i.text)⟩
  exact hids.eq_of_mem_iff hids' h

/-- Under either policy the same types are met. -/
theorem meets_policy (policy : Policy) (contract : Contract) (root : Root) :
    (make project { config with policy }).Meets contract root ↔
      (make project config).Meets contract root :=
  Iff.rfl

theorem collects_native :
    (make project { config with policy := .native }).collects id =
      ((make project { config with policy := .materialize }).collects id &&
        !config.replaces project id) := by
  have hpolicy : (Policy.native == Policy.materialize) = false := by decide
  unfold collects Config.replaces
  dsimp only [make]
  cases project.type? id with
  | none => rfl
  | some decl =>
    rw [hpolicy]
    simp only [beq_self_eq_true, Bool.or_true, Bool.or_false, Bool.and_true]
    rfl

theorem collectContract_native (contract : Contract) :
    (make project { config with policy := .native }).collectContract contract =
      ((make project { config with policy := .materialize }).collectContract contract).filter
        fun id => !config.replaces project id := by
  refine eq_of_mem_iff_of_pairwise_lt (pairwise_lt_collect _) ((pairwise_lt_collect _).filter _)
    fun id => ?_
  rw [List.mem_filter, mem_collectContract, mem_collectContract, collects_native, Bool.and_eq_true]
  simp only [meets_policy]
  exact and_right_comm

end Collector

namespace Pass

/-- No gap is filled for a type that has a substitute. -/
theorem fill_of_replaces (h : config.replaces project id = true) (registry : Registry) :
    (make project config).fill registry id = registry := by
  obtain ⟨decl, hd, hs⟩ := (Option.any_eq_true _ _).1 h
  have hd : (make project config).project.type? id = some decl := hd
  have hs : (make project config).collector.isSubstituted decl = true := hs
  unfold fill
  simp only [hd, hs, if_true]
  split
  · rfl
  · split <;> rfl

theorem foldl_fill_filter (ids : List TypeId) (registry : Registry) :
    (ids.filter fun id => !config.replaces project id).foldl (make project config).fill registry =
      ids.foldl (make project config).fill registry := by
  rw [List.foldl_filter]
  refine List.foldl_ext _ _ _ fun before id _ => ?_
  cases h : config.replaces project id with
  | true => exact (fill_of_replaces h before).symm
  | false => rfl

end Pass

/-- A contract without those of its needed types that have a substitute. -/
def ResolvedContract.withoutReplaced (project : Project) (config : Config)
    (c : ResolvedContract) : ResolvedContract :=
  { c with reachable := c.reachable.filter fun id => !config.replaces project id }

namespace Pass

/-- A contract resolves its operations alike under both policies, and the gaps that it fills are the
same. -/
theorem contract_native (c : Contract) (registry : Registry) :
    let native := make project { config with policy := .native }
    let materialized := make project { config with policy := .materialize }
    native.contract c registry =
      ((materialized.contract c registry).1.withoutReplaced project config,
        (materialized.contract c registry).2) := by
  intro native materialized
  let out := (c.operations.mapM (materialized.operation c.package)).run { registry }
  have hcollect : native.collector.collectContract c =
      (materialized.collector.collectContract c).filter fun id => !config.replaces project id :=
    Collector.collectContract_native c
  have hnative : native.contract c registry =
      ({ name := c.name, ns := c.package, reachable := native.collector.collectContract c,
         operations := out.1, imports := sortedSet out.2.imports },
        (native.collector.collectContract c).foldl (make project config).fill out.2.registry) := rfl
  rw [hnative, hcollect, foldl_fill_filter]
  rfl

/-- The induction is on the contracts; each one starts from the registry that the last one left
behind, which is the same under both policies. -/
theorem contracts_native (cs : List Contract) (registry : Registry) :
    let native := make project { config with policy := .native }
    let materialized := make project { config with policy := .materialize }
    native.contracts cs registry =
      ((materialized.contracts cs registry).1.map (·.withoutReplaced project config),
        (materialized.contracts cs registry).2) := by
  intro native materialized
  induction cs generalizing registry with
  | nil => rfl
  | cons c cs ih =>
    unfold contracts
    dsimp only
    rw [contract_native c registry]
    dsimp only
    rw [ih, List.map_cons]

end Pass

/-- The policy is about the types that a contract needs, and about nothing else. For any contracts
the two policies lead to the same table and to the same contracts, in the same order and with the
same operations and imports, except that under `native` each contract needs exactly those of its
types under `materialize` that have no substitute. -/
theorem generate_native (project : Project) (config : Config) (contracts : List Contract) :
    let native := generate project { config with policy := .native } contracts
    let materialized := generate project { config with policy := .materialize } contracts
    native.table = materialized.table ∧
    native.contracts = materialized.contracts.map fun c =>
      { c with reachable := c.reachable.filter fun id => !config.replaces project id } := by
  dsimp only [generate]
  rw [Pass.contracts_native]
  exact ⟨rfl, rfl⟩

end ClientTypes

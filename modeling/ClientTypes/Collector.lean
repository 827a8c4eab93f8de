import ClientTypes.Config.Basic
import ClientTypes.Distinct

/-!
# The types that a contract needs

A collector walks the type graph from the types that the operations of a contract mention, each in
the direction in which its values travel. A type that is not declared, that is substituted, or that
controls its own wire format in that direction has nothing behind it.

## Main definitions

* `Collector.successors` — where the walk goes on from a type
* `Collector.explore` — the walk itself, which meets every pair of type and direction once
* `Collector.collect` — the ids of the named types met
-/

namespace ClientTypes

/-- A type and the direction in which its values travel. -/
abbrev Root := TypeId × Direction

/-- What a walk needs to know. -/
structure Collector where
  project : Project
  substitutions : SubstitutionTable
  policy : Policy
  contextTypes : List TypeId
  errorTypes : List TypeId
deriving Inhabited

namespace Collector

def make (project : Project) (config : Config) : Collector where
  project
  substitutions := config.substitutionTable
  policy := config.policy
  contextTypes := config.contextTypes
  errorTypes := config.errorTypes

/-! ## Roots -/

/-- The types that an operation mentions: its payload arguments outbound; its payload results, its
errors and its default error inbound. -/
def operationRoots (c : Collector) (op : Operation) : List Root :=
  let args := (op.payloadArgs c.contextTypes).flatMap (·.ids)
  let results := (op.payloadResults c.errorTypes).flatMap (·.ids)
  args.map (·, .outbound) ++
    (results ++ op.errors ++ op.defaultError.toList).map (·, .inbound)

def contractRoots (c : Collector) (contract : Contract) : List Root :=
  contract.operations.flatMap c.operationRoots

/-! ## The walk -/

def isSubstituted (c : Collector) (decl : TypeDecl) : Bool :=
  decl.qname?.any fun q => c.substitutions.contains q.dotted

/-- The types right behind a type. -/
def successors (c : Collector) (root : Root) : List Root :=
  match c.project.type? root.1 with
  | none => []
  | some decl =>
    if c.isSubstituted decl || root.2.isOverriddenBy decl.capabilities then []
    else decl.kind.links.map (·, root.2)

/-- Declared types in either direction that the walk has not met. -/
def unmet (c : Collector) (met : List Root) : List Root :=
  (c.project.types.flatMap fun (id, _) => [(id, .outbound), (id, .inbound)]).filter
    fun root => decide (root ∉ met)

private theorem mem_roots_of_successors {c : Collector} {root : Root}
    (h : c.successors root ≠ []) :
    root ∈ c.project.types.flatMap fun (id, _) =>
      [((id, .outbound) : Root), (id, .inbound)] := by
  obtain ⟨id, direction⟩ := root
  have hsome : ∃ decl, (id, decl) ∈ c.project.types := by
    unfold successors Project.type? at h
    split at h
    · simp at h
    · next decl hd =>
      obtain ⟨l₁, l₂, hl, -⟩ := List.lookup_eq_some_iff.1 hd
      exact ⟨decl, by simp [hl]⟩
  obtain ⟨decl, hmem⟩ := hsome
  refine List.mem_flatMap.2 ⟨_, hmem, ?_⟩
  cases direction <;> simp

private theorem unmet_cons (c : Collector) (met : List Root) (root : Root) :
    c.unmet (root :: met) = (c.unmet met).filter (· ≠ root) := by
  simp [unmet, List.filter_filter, not_or]

private theorem length_unmet_cons_le (c : Collector) (met : List Root) (root : Root) :
    (c.unmet (root :: met)).length ≤ (c.unmet met).length := by
  rw [unmet_cons]
  exact List.length_filter_le ..

private theorem length_unmet_cons_lt {c : Collector} {met : List Root} {root : Root}
    (hmet : root ∉ met) (h : c.successors root ≠ []) :
    (c.unmet (root :: met)).length < (c.unmet met).length := by
  rw [unmet_cons]
  refine List.length_filter_lt_length_iff_exists.2 ⟨root, ?_, by simp⟩
  exact List.mem_filter.2 ⟨mem_roots_of_successors h, by simpa using hmet⟩

/-- Walks from the types on a stack and returns every pair met, those of before included. -/
def explore (c : Collector) (met : List Root) : List Root → List Root
  | [] => met
  | root :: stack =>
    if root ∈ met then c.explore met stack
    else c.explore (root :: met) (c.successors root ++ stack)
termination_by stack => ((c.unmet met).length, stack.length)
decreasing_by
  · exact Prod.Lex.right _ (by simp)
  · rcases Nat.lt_or_ge (c.unmet (root :: met)).length (c.unmet met).length with hlt | hge
    · exact Prod.Lex.left _ _ hlt
    · have hnil : c.successors root = [] := Classical.byContradiction fun hne =>
        absurd (length_unmet_cons_lt ‹_› hne) (by omega)
      have := length_unmet_cons_le c met root
      rw [hnil, Nat.le_antisymm this hge]
      exact Prod.Lex.right _ (by simp)

/-- Whether a type that is met is needed: it is declared and named, and a substituted one counts
only where it is materialized. -/
def collects (c : Collector) (id : TypeId) : Bool :=
  match c.project.type? id with
  | none => false
  | some decl => decl.isNamed && (!c.isSubstituted decl || c.policy == .materialize)

/-- The ids of the needed types in ascending order. -/
def collect (c : Collector) (roots : List Root) : List TypeId :=
  (sortedSet ((((c.explore [] roots).map (·.1)).filter c.collects).map (·.text))).map TypeId.mk

def collectContract (c : Collector) (contract : Contract) : List TypeId :=
  c.collect (c.contractRoots contract)

end Collector

end ClientTypes

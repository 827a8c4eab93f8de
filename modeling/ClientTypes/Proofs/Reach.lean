import Mathlib.Logic.Relation
import ClientTypes.Collector

/-!
# What a walk meets

The walk of a collector meets exactly what can be reached from its roots, and a contract needs
exactly the named types among it that count.

## Main definitions

* `Collector.Reaches` — a path along the edges of the walk
* `Collector.Meets` — reached from a contract
-/

namespace ClientTypes

namespace Collector

variable {c : Collector} {met stack roots : List Root} {root : Root}

/-- A path along successors. -/
def Reaches (c : Collector) : Root → Root → Prop :=
  Relation.ReflTransGen fun a b => b ∈ c.successors a

/-- The walk only adds to what was met, and meets all that is on the stack. -/
theorem append_subset_explore : met ++ stack ⊆ c.explore met stack := by
  fun_induction Collector.explore c met stack with
  | case1 met => simp
  | case2 met root stack hroot ih =>
    intro x hx
    refine ih ?_
    rcases List.mem_append.1 hx with hx | hx
    · exact List.mem_append_left _ hx
    · rcases List.mem_cons.1 hx with rfl | hx
      · exact List.mem_append_left _ hroot
      · exact List.mem_append_right _ hx
  | case3 met root stack hroot ih =>
    intro x hx
    refine ih ?_
    rcases List.mem_append.1 hx with hx | hx
    · exact List.mem_append_left _ (List.mem_cons_of_mem _ hx)
    · rcases List.mem_cons.1 hx with rfl | hx
      · exact List.mem_append_left _ List.mem_cons_self
      · exact List.mem_append_right _ (List.mem_append_right _ hx)

/-- Everything met has its successors met or on the stack; at the end of the walk they are met. -/
theorem explore_closed (h : ∀ a ∈ met, ∀ b ∈ c.successors a, b ∈ met ∨ b ∈ stack) :
    ∀ a ∈ c.explore met stack, ∀ b ∈ c.successors a, b ∈ c.explore met stack := by
  fun_induction Collector.explore c met stack with
  | case1 met => simpa using h
  | case2 met root stack hroot ih =>
    refine ih fun a ha b hb => ?_
    rcases h a ha b hb with hb | hb
    · exact .inl hb
    · rcases List.mem_cons.1 hb with rfl | hb
      · exact .inl hroot
      · exact .inr hb
  | case3 met root stack hroot ih =>
    refine ih fun a ha b hb => ?_
    rcases List.mem_cons.1 ha with rfl | ha
    · exact .inr (List.mem_append_left _ hb)
    · rcases h a ha b hb with hb | hb
      · exact .inl (List.mem_cons_of_mem _ hb)
      · rcases List.mem_cons.1 hb with rfl | hb
        · exact .inl List.mem_cons_self
        · exact .inr (List.mem_append_right _ hb)

/-- A property of what was met and of the stack that passes on to successors holds of all that the
walk meets. -/
theorem explore_induct {P : Root → Prop} (hnext : ∀ a, P a → ∀ b ∈ c.successors a, P b)
    (hmet : ∀ a ∈ met, P a) (hstack : ∀ a ∈ stack, P a) : ∀ a ∈ c.explore met stack, P a := by
  fun_induction Collector.explore c met stack with
  | case1 met => exact hmet
  | case2 met root stack hroot ih => exact ih hmet fun a ha => hstack a (List.mem_cons_of_mem _ ha)
  | case3 met root stack hroot ih =>
    have hr : P root := hstack root List.mem_cons_self
    refine ih (fun a ha => ?_) fun a ha => ?_
    · rcases List.mem_cons.1 ha with rfl | ha
      · exact hr
      · exact hmet a ha
    · rcases List.mem_append.1 ha with ha | ha
      · exact hnext root hr a ha
      · exact hstack a (List.mem_cons_of_mem _ ha)

/-- The walk meets exactly what its roots reach. -/
theorem mem_explore_iff : root ∈ c.explore [] roots ↔ ∃ start ∈ roots, c.Reaches start root := by
  constructor
  · intro h
    refine explore_induct (P := fun a => ∃ start ∈ roots, c.Reaches start a) ?_ (by simp) ?_ root h
    · rintro a ⟨start, hstart, ha⟩ b hb
      exact ⟨start, hstart, ha.tail hb⟩
    · exact fun a ha => ⟨a, ha, .refl⟩
  · rintro ⟨start, hstart, h⟩
    induction h with
    | refl => exact append_subset_explore (List.mem_append_right [] hstart)
    | tail _ hb ih => exact explore_closed (by simp) _ ih _ hb

/-! ## Contracts -/

/-- Reached from the types that the operations of a contract mention. -/
def Meets (c : Collector) (contract : Contract) (root : Root) : Prop :=
  ∃ start ∈ c.contractRoots contract, c.Reaches start root

theorem Meets.next {contract : Contract} {a b : Root} (h : c.Meets contract a)
    (hb : b ∈ c.successors a) : c.Meets contract b := by
  obtain ⟨start, hstart, h⟩ := h
  exact ⟨start, hstart, h.tail hb⟩

@[simp] theorem mem_collect {id : TypeId} :
    id ∈ c.collect roots ↔
      c.collects id ∧ ∃ direction, ∃ start ∈ roots, c.Reaches start (id, direction) := by
  have hmk : id ∈ c.collect roots ↔ c.collects id ∧ ∃ root ∈ c.explore [] roots, root.1 = id := by
    simp only [collect, List.mem_map, mem_sortedSet, List.mem_filter]
    constructor
    · rintro ⟨_, ⟨i, ⟨⟨root, hroot, rfl⟩, hi⟩, rfl⟩, rfl⟩
      exact ⟨hi, root, hroot, rfl⟩
    · rintro ⟨hi, root, hroot, rfl⟩
      exact ⟨_, ⟨_, ⟨⟨root, hroot, rfl⟩, hi⟩, rfl⟩, rfl⟩
  rw [hmk]
  refine and_congr_right fun _ => ⟨?_, ?_⟩
  · rintro ⟨⟨_, direction⟩, hroot, rfl⟩
    exact ⟨direction, mem_explore_iff.1 hroot⟩
  · rintro ⟨direction, h⟩
    exact ⟨(id, direction), mem_explore_iff.2 h, rfl⟩

theorem mem_collectContract {contract : Contract} {id : TypeId} :
    id ∈ c.collectContract contract ↔
      c.collects id ∧ ∃ direction, c.Meets contract (id, direction) :=
  mem_collect

/-- Where the walk goes on: behind declared types that are neither substituted nor in control of
their own wire format. -/
theorem mem_successors {a b : Root} :
    b ∈ c.successors a ↔ ∃ decl, c.project.type? a.1 = some decl ∧ c.isSubstituted decl = false ∧
      a.2.isOverriddenBy decl.capabilities = false ∧ b.1 ∈ decl.kind.links ∧ b.2 = a.2 := by
  obtain ⟨id, direction⟩ := b
  unfold successors
  cases c.project.type? a.1 with
  | none => simp
  | some decl =>
    simp only [Option.some.injEq, exists_eq_left']
    split
    · next h =>
      simp only [List.not_mem_nil, false_iff]
      rintro ⟨hs, ho, -⟩
      simp [hs, ho] at h
    · next h =>
      simp only [Bool.or_eq_true, not_or, Bool.not_eq_true] at h
      simp only [h, true_and, List.mem_map, Prod.mk.injEq]
      exact ⟨fun ⟨i, hi, hid, hd⟩ => ⟨hid ▸ hi, hd.symm⟩, fun ⟨hi, hd⟩ => ⟨id, hi, rfl, hd.symm⟩⟩

end Collector

end ClientTypes

import Mathlib.Data.List.Nodup
import ClientTypes.Slot
import ClientTypes.Proofs.Text.Case
import ClientTypes.Proofs.Text.Identifier

/-!
# Names by position

An unnamed variable goes by its position. Positions have names of their own, each of which begins
with a small letter. So the names of a list are pairwise distinct as soon as those that are declared
are, and none of these is the name of an unnamed variable's position.

## Main definitions

* `Slot.names` — the names that the variables of a list go by
* `Slot.Tells` — declared names that leave each other and the positions apart

The main statement is `Slot.Tells.nodup_names`.
-/

namespace ClientTypes

namespace Slot

variable {slot : Slot} {vars : List Variable} {name : String}

/-! ## Positions -/

theorem startsSmall_positionalName (slot : Slot) (i : Nat) :
    Text.startsSmall (slot.positionalName i) := by
  cases slot with
  | request => exact Text.startsSmall_of_toList (c := 'a') String.toList_append
  | response =>
    cases i with
    | zero => exact Text.startsSmall_of_toList (c := 'r') rfl
    | succ i => exact Text.startsSmall_of_toList (c := 'r') String.toList_append

/-- No two positions have the same name. -/
theorem positionalName_injective (slot : Slot) : Function.Injective slot.positionalName := by
  intro i j h
  cases slot with
  | request => exact Text.append_toString_injective "arg" h
  | response =>
    -- the first result has no number
    match i, j, h with
    | 0, 0, _ => rfl
    | 0, j + 1, h => exact absurd h.symm (Text.append_toString_ne "result" (j + 1))
    | i + 1, 0, h => exact absurd h (Text.append_toString_ne "result" (i + 1))
    | i + 1, j + 1, h => exact Text.append_toString_injective "result" h

/-! ## Lists -/

/-- The names that the variables of a list go by. -/
def names (slot : Slot) (vars : List Variable) : List String := vars.mapIdx slot.nameOf

theorem getElem?_names (slot : Slot) (vars : List Variable) (i : Nat) :
    (slot.names vars)[i]? = vars[i]?.map (slot.nameOf i) := by
  simp [names]

theorem ne_empty_of_mem_names (h : name ∈ slot.names vars) : name ≠ "" := by
  obtain ⟨i, hi, rfl⟩ := List.mem_mapIdx.1 h
  unfold nameOf
  split
  · exact Text.ne_empty_of_startsSmall (slot.startsSmall_positionalName i)
  · next hnamed =>
    intro hempty
    simp [Variable.isUnnamed, hempty] at hnamed

/-- The names that variables declare for themselves. -/
def declaredNames (vars : List Variable) : List String :=
  (vars.filter (!·.isUnnamed)).map (·.name)

/-- The declared names of a list are pairwise distinct, and none of them is the name of the
position of an unnamed variable. -/
structure Tells (slot : Slot) (vars : List Variable) : Prop where
  nodup : (declaredNames vars).Nodup
  ne_positional : ∀ i (hi : i < vars.length), vars[i].isUnnamed →
    ∀ v ∈ vars, ¬ v.isUnnamed → v.name ≠ slot.positionalName i

theorem Tells.name_ne (h : slot.Tells vars) : vars.Pairwise fun u v =>
    ¬ u.isUnnamed → ¬ v.isUnnamed → u.name ≠ v.name := by
  simpa [declaredNames, List.Nodup, List.pairwise_map, List.pairwise_filter] using h.nodup

/-- Then all names of the list are pairwise distinct, those by position included. -/
theorem Tells.nodup_names (h : slot.Tells vars) : (slot.names vars).Nodup := by
  refine List.pairwise_iff_getElem.2 fun i j hi hj hij => ?_
  simp only [names, List.length_mapIdx, List.getElem_mapIdx, nameOf] at hi hj ⊢
  split
  · next hu =>
    split
    · exact fun heq => Nat.ne_of_lt hij (slot.positionalName_injective heq)
    · next hv => exact (h.ne_positional i hi hu _ (List.getElem_mem hj) hv).symm
  · next hu =>
    split
    · next hv => exact h.ne_positional j hj hv _ (List.getElem_mem hi) hu
    · next hv => exact List.pairwise_iff_getElem.1 h.name_ne i j hi hj hij hu hv

end Slot

end ClientTypes

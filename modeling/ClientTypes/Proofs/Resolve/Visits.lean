import ClientTypes.Resolve.Basic

/-!
# What resolution visits

The ids that a type hands on when it is expanded, in the order in which it does. They are among the
links of its kind; those of hidden fields, of aliases that go by another link, of named maps' parts
and of bytes are left out.

## Main definitions

* `Resolver.visits` — the ids that the expansion of a type resolves
-/

namespace ClientTypes

theorem Variable.isMap_eq_false {v : Variable}
    (h : ∀ key value, v.mapKey = some key → v.mapValue = some value → False) :
    v.isMap = false := by
  cases hk : v.mapKey with
  | none => simp [isMap, hk]
  | some key =>
    cases hv : v.mapValue with
    | none => simp [isMap, hv]
    | some value => exact absurd hv (h key value hk)

namespace Resolver

variable {r : Resolver}

def itemVisits (r : Resolver) (v : Variable) : List TypeId :=
  match v.mapKey, v.mapValue with
  | some key, some value => if r.isNamedMap v.type then [v.type] else [key, value]
  | _, _ => [v.type]

def variableVisits (r : Resolver) (v : Variable) : List TypeId :=
  if v.isSequence && (v.arrayLen.isNone && v.elemPointers == 0 && !v.isMap && r.isByte v.type) then
    []
  else r.itemVisits v

/-- The type that a field promotes from: its own, unless the field is a container. -/
def spliced (f : Field) : List TypeId :=
  if f.var.isSequence || f.var.isMap then [] else [f.var.type]

def fieldVisits (r : Resolver) (f : Field) : List TypeId :=
  match f.role r.tagKey with
  | .skip => []
  | .property _ => r.variableVisits f.var
  | .splice _ => spliced f ++ if f.isExported then r.variableVisits f.var else []

def callVisits (r : Resolver) (s : Signature) : List TypeId :=
  (s.params ++ s.results).flatMap r.variableVisits

def arrayVisits (r : Resolver) (a : ArrayType) : List TypeId :=
  if a.len.isNone && a.elemPointers == 0 && r.isByte a.elem then [] else [a.elem]

/-- The ids that the expansion of a type with the given id and kind resolves. -/
def visits (r : Resolver) (id : TypeId) : Kind → List TypeId
  | .scalar _ | .channel _ | .any => []
  | .struct fields => fields.flatMap r.fieldVisits
  | .interface embeds methods => methods.flatMap (r.callVisits ·.signature) ++ embeds
  | .aliasOf links => (r.usableLink? id links).toList
  | .array a => r.arrayVisits a
  | .map m => [m.key, m.value]
  | .function s => r.callVisits s

/-- A variable that is no container visits its type and nothing else. -/
theorem variableVisits_of_not_container {v : Variable} (h : (v.isSequence || v.isMap) = false) :
    r.variableVisits v = [v.type] := by
  obtain ⟨hs, hm⟩ := Bool.or_eq_false_iff.1 h
  unfold variableVisits itemVisits
  simp only [hs, Bool.false_and, Bool.false_eq_true, if_false]
  split
  · next hk hv => simp [Variable.isMap, hk, hv] at hm
  · rfl

/-- A variable that is no map is resolved by its type alone. -/
theorem resolveItem_of_not_map (inner : TypeId → Resolving Descriptor) {v : Variable}
    (h : v.isMap = false) :
    r.resolveItem inner v = do return (← inner v.type).withPointers v.pointers := by
  unfold resolveItem
  split
  · next hkey hvalue => simp [Variable.isMap, hkey, hvalue] at h
  · rfl

theorem resolveVariable_of_not_container (inner : TypeId → Resolving Descriptor) {v : Variable}
    (h : (v.isSequence || v.isMap) = false) :
    r.resolveVariable inner v = do return (← inner v.type).withPointers v.pointers := by
  obtain ⟨hs, hm⟩ := Bool.or_eq_false_iff.1 h
  unfold resolveVariable
  rw [if_neg (by simp [hs]), resolveItem_of_not_map inner hm]

/-! ## Visits are links -/

theorem itemVisits_subset (v : Variable) : r.itemVisits v ⊆ v.ids := by
  intro i hi
  unfold itemVisits at hi
  unfold Variable.ids
  split at hi
  · next hk hv => split at hi <;> simp_all
  · simp_all

theorem variableVisits_subset (v : Variable) : r.variableVisits v ⊆ v.ids := by
  unfold variableVisits
  split
  · simp
  · exact itemVisits_subset v

theorem fieldVisits_subset (f : Field) : r.fieldVisits f ⊆ f.var.ids := by
  intro i hi
  unfold fieldVisits spliced at hi
  split at hi
  · simp at hi
  · exact variableVisits_subset _ hi
  · rcases List.mem_append.1 hi with h | h
    · split at h
      · simp at h
      · simp_all [Variable.ids]
    · split at h
      · exact variableVisits_subset _ h
      · simp at h

theorem callVisits_subset (s : Signature) : r.callVisits s ⊆ s.ids := by
  intro i hi
  obtain ⟨v, hv, hi⟩ := List.mem_flatMap.1 hi
  exact List.mem_flatMap.2 ⟨v, hv, variableVisits_subset v hi⟩

theorem usableLink?_mem {id link : TypeId} {links : AliasLinks}
    (h : r.usableLink? id links = some link) :
    link ∈ links.target.toList ++ links.underlying.toList :=
  List.mem_of_find?_eq_some h

theorem visits_subset_links (id : TypeId) (k : Kind) : r.visits id k ⊆ k.links := by
  intro i hi
  cases k with
  | scalar | channel | any => simp [visits] at hi
  | struct fields =>
    obtain ⟨f, hf, hi⟩ := List.mem_flatMap.1 hi
    exact List.mem_flatMap.2 ⟨f, hf, fieldVisits_subset f hi⟩
  | interface embeds methods =>
    rcases List.mem_append.1 hi with h | h
    · obtain ⟨m, hm, h⟩ := List.mem_flatMap.1 h
      exact List.mem_append_right _ (List.mem_flatMap.2 ⟨m, hm, callVisits_subset _ h⟩)
    · exact List.mem_append_left _ h
  | aliasOf links => exact usableLink?_mem (by simpa [visits] using hi)
  | array a =>
    simp only [visits, arrayVisits] at hi
    split at hi
    · simp at hi
    · exact hi
  | map m => exact hi
  | function s => exact callVisits_subset s hi

end Resolver

end ClientTypes

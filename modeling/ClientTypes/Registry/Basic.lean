import ClientTypes.Registry.Definition

/-!
# The registry of definitions

During a pass every named type that is met gets one definition. A later definition of a name
replaces the earlier one only if it knows more; an opaque one always wins and stays.

## Main definitions

* `Registry.merge` — offers a definition; `Registry.outcome` says what becomes of it
* `Registry.get?` — the definition of a name
* `Registry.structBehind?` — the properties of the struct that a chain of aliases ends in
-/

namespace ClientTypes

/-- What became of a definition that was offered. -/
inductive MergeOutcome where
  | inserted
  | replaced
  | kept
deriving DecidableEq, Repr, Inhabited

/-- The definitions so far, at most one per name; the types that the first definition of some name
came from; and the types that have been expanded, by direction. -/
structure Registry where
  definitions : List Definition := []
  typeIds : List TypeId := []
  expanded : List (TypeId × Direction) := []
deriving Inhabited

namespace Registry

/-- The definition of a name. -/
def get? (r : Registry) (name : QName) : Option Definition :=
  r.definitions.find? (·.name = name)

/-- The body that a name is defined as. -/
def body? (r : Registry) (name : QName) : Option Body := (r.get? name).map (·.body)

def contains (r : Registry) (name : QName) : Bool := (r.get? name).isSome

/-- Whether the first definition of some name came from the type. -/
def containsType (r : Registry) (id : TypeId) : Bool := r.typeIds.contains id

def size (r : Registry) : Nat := r.definitions.length

def isEmpty (r : Registry) : Bool := r.definitions.isEmpty

/-- What becomes of a definition that is offered: the first of its name is inserted; an opaque one
stays; otherwise an opaque one or a more complete one replaces the one before. -/
def outcome (r : Registry) (d : Definition) : MergeOutcome :=
  match r.get? d.name with
  | none => .inserted
  | some existing =>
    if existing.isOpaque then .kept
    else if d.isOpaque || existing.completeness < d.completeness then .replaced
    else .kept

/-- Offers a definition. -/
def merge (r : Registry) (d : Definition) : Registry :=
  match r.outcome d with
  | .inserted =>
    { r with
      definitions := r.definitions ++ [d]
      typeIds := if d.typeId ∈ r.typeIds then r.typeIds else r.typeIds ++ [d.typeId] }
  | .replaced =>
    { r with definitions := r.definitions.map fun e => if e.name = d.name then d else e }
  | .kept => r

def isExpanded (r : Registry) (id : TypeId) (direction : Direction) : Bool :=
  r.expanded.contains (id, direction)

/-- Records that a type has been expanded in a direction. -/
def markExpanded (r : Registry) (id : TypeId) (direction : Direction) : Registry :=
  if r.isExpanded id direction then r
  else { r with expanded := r.expanded ++ [(id, direction)] }

/-! ## Names and lookups -/

theorem name_of_get? {r : Registry} {name : QName} {d : Definition} (h : r.get? name = some d) :
    d.name = name := by
  simpa using List.find?_some h

theorem mem_of_get? {r : Registry} {name : QName} {d : Definition} (h : r.get? name = some d) :
    d ∈ r.definitions :=
  List.mem_of_find?_eq_some h

/-- After an offer its name is defined by what was offered, unless the one before was kept; other
names are as before. -/
theorem get?_merge (r : Registry) (d : Definition) (name : QName) :
    (r.merge d).get? name =
      if name = d.name ∧ r.outcome d ≠ .kept then some d else r.get? name := by
  have hmap (ds : List Definition) :
      (ds.map fun e => if e.name = d.name then d else e).find? (·.name = name) =
        if name = d.name then (ds.find? (·.name = name)).map fun _ => d
        else ds.find? (·.name = name) := by
    induction ds with
    | nil => simp
    | cons e es ih =>
      by_cases he : e.name = d.name <;> by_cases hn : name = d.name <;>
        by_cases hen : e.name = name <;> simp_all [eq_comm]
  unfold merge
  cases h : r.outcome d with
  | inserted =>
    have hnone : r.get? d.name = none := by
      unfold outcome at h
      split at h
      · assumption
      · (repeat' split at h) <;> simp_all
    by_cases hn : name = d.name
    · subst hn
      simp only [get?] at hnone
      simp [get?, List.find?_append, hnone]
    · have : d.name ≠ name := fun h => hn h.symm
      simp [get?, List.find?_append, hn, this]
  | replaced =>
    have hsome : ∃ e, r.get? d.name = some e := by
      unfold outcome at h
      split at h
      · simp at h
      · exact ⟨_, ‹_›⟩
    obtain ⟨e, he⟩ := hsome
    by_cases hn : name = d.name
    · subst hn
      simp only [get?] at he ⊢
      simp [hmap, he]
    · simp only [get?] at he ⊢
      simp [hmap, hn]
  | kept => simp

/-! ## Structs behind aliases -/

/-- The definitions whose names a walk has not met yet. -/
def unmet (r : Registry) (met : List QName) : List Definition :=
  r.definitions.filter fun d => decide (d.name ∉ met)

theorem length_unmet_lt {r : Registry} {met : List QName} {name : QName} {d : Definition}
    (hmet : name ∉ met) (h : r.get? name = some d) :
    (r.unmet (name :: met)).length < (r.unmet met).length := by
  have hcons : r.unmet (name :: met) = (r.unmet met).filter (·.name ≠ name) := by
    simp [unmet, List.filter_filter, not_or]
  rw [hcons]
  have hname := name_of_get? h
  refine List.length_filter_lt_length_iff_exists.2 ⟨d, ?_, by simp [hname]⟩
  exact List.mem_filter.2 ⟨mem_of_get? h, by simpa [hname] using hmet⟩

/-- The properties of the struct that a name stands for, through aliases of named types. The walk
ends without an answer where it comes back to a name that it has met. -/
def structFrom (r : Registry) (met : List QName) (name : QName) :
    Option (List (Property Descriptor)) :=
  if _hmet : name ∈ met then none
  else match _h : r.get? name with
    | none => none
    | some d =>
      match d.body with
      | .struct ps => some ps
      | .interface _ => none
      | .aliasOf target =>
        match target.shape with
        | .named next => structFrom r (name :: met) next
        | _ => none
termination_by (r.unmet met).length
decreasing_by exact length_unmet_lt _hmet _h

/-- The properties of the struct that a name stands for, directly or through aliases. -/
def structBehind? (r : Registry) (name : QName) : Option (List (Property Descriptor)) :=
  r.structFrom [] name

end Registry

end ClientTypes

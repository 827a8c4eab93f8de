import ClientTypes.Descriptor.Basic

/-!
# Walking descriptors

A descriptor is folded layer by layer: `Descriptor.fold` replaces the parts of every shape by their
results and hands the layer to an algebra. All that is computed from whole descriptors is a fold,
and `fold_eq` is its one equation. `Descriptor.ind` is induction over parts.

## Main definitions

* `Shape.mapParts`, `Shape.parts` — the layer over other parts, and its parts in order
* `Descriptor.fold` — the fold of an algebra over a descriptor
* `Descriptor.references` — the qualified names that occur in a descriptor
-/

namespace ClientTypes

variable {δ ε : Type}

/-! ## Layers -/

def Property.map (f : δ → ε) (p : Property δ) : Property ε := { p with type := f p.type }

def Param.map (f : δ → ε) (p : Param δ) : Param ε := { p with type := f p.type }

def CallShape.map (f : δ → ε) (c : CallShape δ) : CallShape ε :=
  ⟨c.params.map (·.map f), c.results.map (·.map f)⟩

def MethodShape.map (f : δ → ε) (m : MethodShape δ) : MethodShape ε :=
  { m with call := m.call.map f }

/-- The same layer over other parts. -/
def Shape.mapParts (f : δ → ε) : Shape δ → Shape ε
  | .builtin b => .builtin b
  | .native n => .native n
  | .opaqueType name => .opaqueType name
  | .array e => .array (f e)
  | .map k v => .map (f k) (f v)
  | .named name => .named name
  | .object ps => .object (ps.map (·.map f))
  | .interface ms => .interface (ms.map (·.map f))
  | .function c => .function (c.map f)

/-- The types of parameters, then of results. -/
def CallShape.parts (c : CallShape δ) : List δ := (c.params ++ c.results).map (·.type)

/-- The parts of a layer in order. -/
def Shape.parts : Shape δ → List δ
  | .builtin _ | .native _ | .opaqueType _ | .named _ => []
  | .array e => [e]
  | .map k v => [k, v]
  | .object ps => ps.map (·.type)
  | .interface ms => ms.flatMap (·.call.parts)
  | .function c => c.parts

@[simp] theorem CallShape.parts_map (f : δ → ε) (c : CallShape δ) :
    (c.map f).parts = c.parts.map f := by
  simp [parts, map, Param.map, Function.comp_def]

@[simp] theorem Shape.parts_mapParts (f : δ → ε) (s : Shape δ) :
    (s.mapParts f).parts = s.parts.map f := by
  cases s <;> simp [mapParts, parts, Property.map, MethodShape.map, Function.comp_def,
    List.map_flatMap, List.flatMap_map]

@[simp] theorem Shape.reference?_mapParts (f : δ → ε) (s : Shape δ) :
    (s.mapParts f).reference? = s.reference? := by
  cases s <;> rfl

/-! ## Folds -/

mutual

/-- Folds an algebra over a descriptor, from its innermost layers outwards. -/
def Descriptor.fold (alg : Shape δ → Bool → δ) : Descriptor → δ
  | ⟨shape, nullable⟩ => alg (foldShape alg shape) nullable

def foldShape (alg : Shape δ → Bool → δ) : Shape Descriptor → Shape δ
  | .builtin b => .builtin b
  | .native n => .native n
  | .opaqueType name => .opaqueType name
  | .array e => .array (e.fold alg)
  | .map k v => .map (k.fold alg) (v.fold alg)
  | .named name => .named name
  | .object ps => .object (foldProperties alg ps)
  | .interface ms => .interface (foldMethods alg ms)
  | .function ⟨params, results⟩ => .function ⟨foldParams alg params, foldParams alg results⟩

def foldProperties (alg : Shape δ → Bool → δ) : List (Property Descriptor) → List (Property δ)
  | [] => []
  | ⟨name, field, type, optional, doc⟩ :: ps =>
    ⟨name, field, type.fold alg, optional, doc⟩ :: foldProperties alg ps

def foldParams (alg : Shape δ → Bool → δ) : List (Param Descriptor) → List (Param δ)
  | [] => []
  | ⟨name, type⟩ :: ps => ⟨name, type.fold alg⟩ :: foldParams alg ps

def foldMethods (alg : Shape δ → Bool → δ) : List (MethodShape Descriptor) → List (MethodShape δ)
  | [] => []
  | ⟨name, ⟨params, results⟩⟩ :: ms =>
    ⟨name, ⟨foldParams alg params, foldParams alg results⟩⟩ :: foldMethods alg ms

end

private theorem foldProperties_eq (alg : Shape δ → Bool → δ) (ps : List (Property Descriptor)) :
    foldProperties alg ps = ps.map (·.map (·.fold alg)) := by
  induction ps with
  | nil => rfl
  | cons p ps ih => simp [foldProperties, ih, Property.map]

private theorem foldParams_eq (alg : Shape δ → Bool → δ) (ps : List (Param Descriptor)) :
    foldParams alg ps = ps.map (·.map (·.fold alg)) := by
  induction ps with
  | nil => rfl
  | cons p ps ih => simp [foldParams, ih, Param.map]

private theorem foldMethods_eq (alg : Shape δ → Bool → δ) (ms : List (MethodShape Descriptor)) :
    foldMethods alg ms = ms.map (·.map (·.fold alg)) := by
  induction ms with
  | nil => rfl
  | cons m ms ih => simp [foldMethods, ih, MethodShape.map, CallShape.map, foldParams_eq]

/-- The equation of folds. -/
theorem Descriptor.fold_eq (alg : Shape δ → Bool → δ) (d : Descriptor) :
    d.fold alg = alg (d.shape.mapParts (·.fold alg)) d.nullable := by
  obtain ⟨s, n⟩ := d
  cases s <;> simp [fold, foldShape, Shape.mapParts, CallShape.map, foldProperties_eq,
    foldMethods_eq, foldParams_eq]

/-! ## Parts of a descriptor -/

private theorem sizeOf_type_lt_property {p : Property Descriptor} {ps : List (Property Descriptor)}
    (h : p ∈ ps) : sizeOf p.type < sizeOf ps := by
  have := List.sizeOf_lt_of_mem h
  cases p
  simp_all
  omega

private theorem sizeOf_type_lt_param {p : Param Descriptor} {ps : List (Param Descriptor)}
    (h : p ∈ ps) : sizeOf p.type < sizeOf ps := by
  have := List.sizeOf_lt_of_mem h
  cases p
  simp_all
  omega

private theorem sizeOf_lt_call {d : Descriptor} {c : CallShape Descriptor} (h : d ∈ c.parts) :
    sizeOf d < sizeOf c := by
  obtain ⟨params, results⟩ := c
  obtain ⟨p, hp, rfl⟩ := List.mem_map.1 h
  rw [CallShape.mk.sizeOf_spec]
  rcases List.mem_append.1 hp with h | h
  all_goals
    have : sizeOf p.type < _ := sizeOf_type_lt_param h
    dsimp only at this
    omega

theorem Shape.sizeOf_lt_of_mem_parts {s : Shape Descriptor} {d : Descriptor} (h : d ∈ s.parts) :
    sizeOf d < sizeOf s := by
  cases s with
  | builtin | native | opaqueType | named => simp [parts] at h
  | array e => simp [parts] at h; subst h; simp
  | map k v =>
    simp only [parts, List.mem_cons, List.not_mem_nil, or_false] at h
    simp only [map.sizeOf_spec]
    rcases h with rfl | rfl <;> omega
  | object ps =>
    obtain ⟨p, hp, rfl⟩ := List.mem_map.1 h
    have := sizeOf_type_lt_property hp
    simp
    omega
  | interface ms =>
    obtain ⟨m, hm, h⟩ := List.mem_flatMap.1 h
    have := sizeOf_lt_call h
    have := List.sizeOf_lt_of_mem hm
    cases m
    simp_all
    omega
  | function c =>
    have := sizeOf_lt_call h
    simp
    omega

namespace Descriptor

/-- The descriptors right inside a descriptor. -/
def parts (d : Descriptor) : List Descriptor := d.shape.parts

theorem sizeOf_lt_of_mem_parts {c d : Descriptor} (h : c ∈ d.parts) : sizeOf c < sizeOf d := by
  have := Shape.sizeOf_lt_of_mem_parts h
  cases d
  simp_all
  omega

/-- Induction over parts. -/
theorem ind {P : Descriptor → Prop} (h : ∀ d, (∀ c ∈ d.parts, P c) → P d) (d : Descriptor) : P d :=
  h d fun c hc => have := sizeOf_lt_of_mem_parts hc; ind h c
termination_by d

/-! ## References -/

/-- The qualified names that occur in a descriptor, in the order in which they are written. -/
def references (d : Descriptor) : List QName :=
  d.fold fun s _ => s.reference?.toList ++ s.parts.flatten

theorem references_eq (d : Descriptor) :
    d.references = d.shape.reference?.toList ++ d.parts.flatMap references := by
  rw [references, fold_eq]
  simp only [Shape.reference?_mapParts, Shape.parts_mapParts]
  rfl

end Descriptor

end ClientTypes

import ClientTypes.Proofs.Descriptor.All
import ClientTypes.Proofs.Resolve.Visits

/-!
# Aspects of a body

Two bodies may agree as a whole, or in what promotion takes from them: the properties of a struct
but for their types, and the name that an alias goes by. The second asks for less of the types that
a body is made of.

## Main definitions

* `Aspect` — the outline of a body, or all of it
* `Aspect.body` — what an aspect shows of a body
* `Aspect.Alike` — answers that promise the same to whoever looks behind them
* `Resolver.mentions`, `Resolver.reads` — the visits that matter to an aspect, and those behind
  which the registry is read
* `Resolver.takes` — the visits behind which members are copied
-/

namespace ClientTypes

/-- The names of the properties of a struct. -/
def Body.propertyNames? : Body → Option (List String)
  | .struct ps => some (ps.map (·.name))
  | _ => none

/-- How closely bodies are looked at. -/
inductive Aspect where
  /-- What promotion takes from a body, but for the types of properties. -/
  | outline
  | whole
deriving DecidableEq

namespace Aspect

variable {a : Aspect}

def property : Aspect → Property Descriptor → Property Descriptor
  | outline, p => { p with type := .bareOpaque }
  | whole, p => p

/-- An outline shows the name that a descriptor is, or the properties of a struct in place. -/
def descriptor : Aspect → Descriptor → Descriptor
  | outline, d =>
    match d.shape with
    | .named name => .named name
    | .object ps => { shape := .object (ps.map outline.property) }
    | _ => .bareOpaque
  | whole, d => d

def body : Aspect → Body → Body
  | a, .struct ps => .struct (ps.map a.property)
  | a, .aliasOf target => .aliasOf (a.descriptor target)
  | outline, .interface _ => .interface []
  | whole, .interface ms => .interface ms

@[simp] theorem property_whole : whole.property = id := rfl

@[simp] theorem descriptor_whole (d : Descriptor) : whole.descriptor d = d := rfl

@[simp] theorem body_whole (b : Body) : whole.body b = b := by
  cases b <;> simp [body]

@[simp] theorem name_property (p : Property Descriptor) : (a.property p).name = p.name := by
  cases a <;> rfl

/-- An aspect shows whether a property is optional. -/
theorem property_optional (p : Property Descriptor) (optional : Bool) :
    a.property { p with optional } = { a.property p with optional } := by
  cases a <;> rfl

@[simp] theorem optional_property (p : Property Descriptor) :
    (a.property p).optional = p.optional := by
  cases a <;> rfl

theorem shape_named_iff {d₁ d₂ : Descriptor} (h : a.descriptor d₁ = a.descriptor d₂)
    {name : QName} : d₁.shape = .named name ↔ d₂.shape = .named name := by
  cases a with
  | whole => rw [show d₁ = d₂ from h]
  | outline =>
    have hshape := congrArg Descriptor.shape h
    simp only [descriptor] at hshape
    cases h₁ : d₁.shape <;> cases h₂ : d₂.shape <;>
      simp_all [Descriptor.named, Descriptor.bareOpaque]

theorem properties_of_shape_object {d₁ d₂ : Descriptor} (h : a.descriptor d₁ = a.descriptor d₂)
    {ps : List (Property Descriptor)} (h₁ : d₁.shape = .object ps) :
    ∃ qs, d₂.shape = .object qs ∧ ps.map a.property = qs.map a.property := by
  cases a with
  | whole => exact ⟨ps, by rw [← show d₁ = d₂ from h, h₁], rfl⟩
  | outline =>
    have hshape := congrArg Descriptor.shape h
    simp only [descriptor, h₁] at hshape
    cases h₂ : d₂.shape <;> simp_all [Descriptor.named, Descriptor.bareOpaque]

@[simp] theorem propertyNames?_body (b : Body) : (a.body b).propertyNames? = b.propertyNames? := by
  cases b with
  | struct ps => simp [body, Body.propertyNames?, Function.comp_def]
  | aliasOf target => rfl
  | interface ms => cases a <;> rfl

theorem exists_eq_struct {ps : List (Property Descriptor)} {b : Body}
    (h : a.body (.struct ps) = a.body b) :
    ∃ qs, b = .struct qs ∧ ps.map a.property = qs.map a.property := by
  cases b with
  | struct qs => exact ⟨qs, rfl, by cases a <;> exact Body.struct.inj h⟩
  | _ => cases a <;> exact Body.noConfusion h

theorem exists_eq_interface {ms : List (MethodShape Descriptor)} {b : Body}
    (h : a.body (.interface ms) = a.body b) : ∃ ms', b = .interface ms' := by
  cases b with
  | interface ms' => exact ⟨ms', rfl⟩
  | _ => cases a <;> exact Body.noConfusion h

theorem exists_eq_aliasOf {t : Descriptor} {b : Body} (h : a.body (.aliasOf t) = a.body b) :
    ∃ u, b = .aliasOf u ∧ a.descriptor t = a.descriptor u := by
  cases b with
  | aliasOf u => exact ⟨u, rfl, by cases a <;> exact Body.aliasOf.inj h⟩
  | _ => cases a <;> exact Body.noConfusion h

end Aspect

/-! ## Behind an answer -/

namespace Registry

/-- The properties that an embedded type with this descriptor promotes, if any. -/
def promotedBy (reg : Registry) (d : Descriptor) : Option (List (Property Descriptor)) :=
  match d.shape with
  | .object ps => some ps
  | .named name => reg.structBehind? name
  | _ => none

/-- The methods that an embedded interface with this descriptor brings in. -/
def methodsBy (reg : Registry) (d : Descriptor) : List (MethodShape Descriptor) :=
  match d.shape with
  | .interface ms => ms
  | .named name =>
    match reg.body? name with
    | some (.interface ms) => ms
    | _ => []
  | _ => []

end Registry

namespace Resolver

/-- What a field promotes, where it may: what its type promotes, all optional behind a pointer. -/
theorem promoted_eq (inner : TypeId → Resolving Descriptor) (f : Field)
    (hf : (f.var.isSequence || f.var.isMap) = false) :
    promoted inner f = inner f.var.type >>= fun d => get >>= fun c =>
      pure ((c.registry.promotedBy d).map fun ps =>
        ps.map fun p => { p with optional := p.optional || 0 < f.var.pointers }) := by
  unfold promoted
  rw [hf]
  rfl

theorem embeddedMethods_eq (inner : TypeId → Resolving Descriptor) (embed : TypeId) :
    embeddedMethods inner embed = inner embed >>= fun d => get >>= fun c =>
      pure (c.registry.methodsBy d) := by
  unfold embeddedMethods
  congr 1
  funext d
  congr 1
  funext c
  unfold Registry.methodsBy
  cases d.shape with
  | named name =>
    dsimp only
    cases c.registry.body? name with
    | none => rfl
    | some b => cases b <;> rfl
  | _ => rfl

end Resolver

/-- Two answers in two registries that promise the same behind them. -/
structure Aspect.Alike (a : Aspect) (reg₁ reg₂ : Registry) (d₁ d₂ : Descriptor) : Prop where
  promoted : (reg₁.promotedBy d₁).map (List.map a.property) =
    (reg₂.promotedBy d₂).map (List.map a.property)
  behind : a = .whole → d₁ = d₂ ∧
    ∀ name, d₁.shape = .named name → reg₁.body? name = reg₂.body? name

theorem Registry.methodsBy_congr {reg₁ reg₂ : Registry} {d : Descriptor}
    (h : ∀ name, d.shape = .named name → reg₁.body? name = reg₂.body? name) :
    reg₁.methodsBy d = reg₂.methodsBy d := by
  unfold methodsBy
  cases hd : d.shape with
  | named name => simp only [h name hd]
  | _ => rfl

theorem Resolver.stringEncoded_congr {reg₁ reg₂ : Registry} {d : Descriptor}
    (h : ∀ name, d.shape = .named name → reg₁.body? name = reg₂.body? name) :
    stringEncoded reg₁ d = stringEncoded reg₂ d := by
  unfold stringEncoded
  cases hd : d.shape with
  | named name => simp only [h name hd]
  | _ => rfl

namespace Resolver

variable {r : Resolver}

/-! ## What matters to an aspect -/

/-- The type of a variable that can travel as text, unless it is a container. -/
def quoted (r : Resolver) (v : Variable) : List TypeId :=
  if v.isSequence || (v.isMap && !r.isNamedMap v.type) then [] else [v.type]

/-- The types that a field of its own looks behind. -/
def ownReads (r : Resolver) (a : Aspect) (f : Field) (wire : WireField) : List TypeId :=
  if a = .whole ∧ wire.asString then r.quoted f.var else []

/-- The types that a field looks behind. -/
def fieldReads (r : Resolver) (a : Aspect) (f : Field) : List TypeId :=
  match f.role r.tagKey with
  | .skip => []
  | .property wire => r.ownReads a f wire
  | .splice fallback => spliced f ++ if f.isExported then r.ownReads a f fallback else []

/-- The visits of a type behind which the registry is read. -/
def reads (r : Resolver) (a : Aspect) : Kind → List TypeId
  | .struct fields => fields.flatMap (r.fieldReads a)
  | .interface embeds _ => if a = .whole then embeds else []
  | _ => []

/-- The types that a field promotes from. -/
def fieldSplices (r : Resolver) (f : Field) : List TypeId :=
  match f.role r.tagKey with
  | .splice _ => spliced f
  | _ => []

/-- The visits of a type behind which members are copied: promoted properties, and the methods of
embedded interfaces. -/
def takes (r : Resolver) : Kind → List TypeId
  | .struct fields => fields.flatMap r.fieldSplices
  | .interface embeds _ => embeds
  | _ => []

/-- The visits of a type that show in an aspect. -/
def mentions (r : Resolver) (a : Aspect) (id : TypeId) (k : Kind) : List TypeId :=
  match a, k with
  | .whole, k => r.visits id k
  | .outline, .struct fields => fields.flatMap r.fieldSplices
  | .outline, .aliasOf links => (r.usableLink? id links).toList
  | .outline, _ => []

theorem quoted_subset (v : Variable) : r.quoted v ⊆ r.variableVisits v := by
  intro i hi
  unfold quoted at hi
  split at hi
  · simp at hi
  · next hc =>
    simp only [Bool.or_eq_true, Bool.and_eq_true, Bool.not_eq_true', not_or, not_and,
      Bool.not_eq_true, Bool.not_eq_false] at hc
    unfold variableVisits itemVisits
    simp only [hc.1, Bool.false_and, Bool.false_eq_true, if_false]
    split
    · next hk hv =>
      have := hc.2 (by simp [Variable.isMap, hk, hv])
      simpa [this] using hi
    · exact hi

theorem ownReads_subset (a : Aspect) (f : Field) (wire : WireField) :
    r.ownReads a f wire ⊆ r.variableVisits f.var := by
  unfold ownReads
  split
  · exact quoted_subset f.var
  · simp

theorem fieldReads_subset (a : Aspect) (f : Field) : r.fieldReads a f ⊆ r.fieldVisits f := by
  unfold fieldReads fieldVisits
  cases f.role r.tagKey with
  | skip => simp
  | property wire => exact ownReads_subset a f wire
  | splice fallback =>
    intro i hi
    rcases List.mem_append.1 hi with hi | hi
    · exact List.mem_append_left _ hi
    · refine List.mem_append_right _ ?_
      cases he : f.isExported with
      | true => exact ownReads_subset a f fallback (by simpa [he] using hi)
      | false => simp [he] at hi

theorem reads_subset_visits (a : Aspect) (id : TypeId) (k : Kind) :
    r.reads a k ⊆ r.visits id k := by
  intro i hi
  cases k with
  | struct fields =>
    obtain ⟨f, hf, hi⟩ := List.mem_flatMap.1 hi
    exact List.mem_flatMap.2 ⟨f, hf, fieldReads_subset a f hi⟩
  | interface embeds methods =>
    simp only [reads] at hi
    split at hi
    · exact List.mem_append_right _ hi
    · simp at hi
  | _ => simp [reads] at hi

theorem fieldSplices_subset (f : Field) : r.fieldSplices f ⊆ r.fieldVisits f := by
  intro i hi
  unfold fieldSplices at hi
  unfold fieldVisits
  split at hi
  · next hr => simp only [hr, List.mem_append]; exact .inl hi
  · simp at hi

theorem mentions_subset_visits (a : Aspect) (id : TypeId) (k : Kind) :
    r.mentions a id k ⊆ r.visits id k := by
  cases a with
  | whole => exact fun _ hi => hi
  | outline =>
    intro i hi
    cases k with
    | struct fields =>
      obtain ⟨f, hf, hi⟩ := List.mem_flatMap.1 hi
      exact List.mem_flatMap.2 ⟨f, hf, fieldSplices_subset f hi⟩
    | aliasOf links => exact hi
    | _ => simp [mentions] at hi

theorem takes_subset_visits (id : TypeId) (k : Kind) : r.takes k ⊆ r.visits id k := by
  intro i hi
  cases k with
  | struct fields =>
    obtain ⟨f, hf, hi⟩ := List.mem_flatMap.1 hi
    exact List.mem_flatMap.2 ⟨f, hf, fieldSplices_subset f hi⟩
  | interface embeds methods => exact List.mem_append_right _ hi
  | _ => simp [takes] at hi

theorem reads_subset_mentions (a : Aspect) (id : TypeId) (k : Kind) :
    r.reads a k ⊆ r.mentions a id k := by
  cases a with
  | whole => exact reads_subset_visits .whole id k
  | outline =>
    intro i hi
    cases k with
    | struct fields =>
      obtain ⟨f, hf, hi⟩ := List.mem_flatMap.1 hi
      refine List.mem_flatMap.2 ⟨f, hf, ?_⟩
      unfold fieldReads at hi
      unfold fieldSplices
      cases hr : f.role r.tagKey <;> simp_all [ownReads]
    | _ => simp [reads] at hi

end Resolver

end ClientTypes

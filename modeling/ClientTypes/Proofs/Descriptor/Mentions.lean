import ClientTypes.Registry.Definition

/-!
# Names inside descriptors and bodies

Where a qualified name can stand is said here place by place, without a walk: at the descriptor
itself, in the element of an array, in the key or the value of a map, in the type of a property, and
in a parameter or a result of a method or a function. The references that a descriptor or a body is
said to have are exactly the names at these places.

## Main definitions

* `Descriptor.Mentions`, `Body.Mentions` — a name stands somewhere inside

The main statements are `Descriptor.mem_references` and `Body.mem_references`.
-/

namespace ClientTypes

/-- A name stands somewhere inside a descriptor. -/
inductive Descriptor.Mentions : Descriptor → QName → Prop
  | named (q : QName) (nullable : Bool) : Mentions ⟨.named q, nullable⟩ q
  | opaqueAs (q : QName) (nullable : Bool) : Mentions ⟨.opaqueType (some q), nullable⟩ q
  | element {e : Descriptor} {q : QName} (nullable : Bool) :
      e.Mentions q → Mentions ⟨.array e, nullable⟩ q
  | key {k : Descriptor} {q : QName} (v : Descriptor) (nullable : Bool) :
      k.Mentions q → Mentions ⟨.map k v, nullable⟩ q
  | value {v : Descriptor} {q : QName} (k : Descriptor) (nullable : Bool) :
      v.Mentions q → Mentions ⟨.map k v, nullable⟩ q
  | property {ps : List (Property Descriptor)} {p : Property Descriptor} {q : QName}
      (nullable : Bool) : p ∈ ps → p.type.Mentions q → Mentions ⟨.object ps, nullable⟩ q
  | method {ms : List (MethodShape Descriptor)} {m : MethodShape Descriptor}
      {x : Param Descriptor} {q : QName} (nullable : Bool) :
      m ∈ ms → x ∈ m.call.params ++ m.call.results → x.type.Mentions q →
        Mentions ⟨.interface ms, nullable⟩ q
  | parameter {c : CallShape Descriptor} {x : Param Descriptor} {q : QName} (nullable : Bool) :
      x ∈ c.params ++ c.results → x.type.Mentions q → Mentions ⟨.function c, nullable⟩ q

/-- A name stands somewhere inside a body. -/
inductive Body.Mentions : Body → QName → Prop
  | property {ps : List (Property Descriptor)} {p : Property Descriptor} {q : QName} :
      p ∈ ps → p.type.Mentions q → Mentions (.struct ps) q
  | target {t : Descriptor} {q : QName} : t.Mentions q → Mentions (.aliasOf t) q
  | method {ms : List (MethodShape Descriptor)} {m : MethodShape Descriptor}
      {x : Param Descriptor} {q : QName} :
      m ∈ ms → x ∈ m.call.params ++ m.call.results → x.type.Mentions q →
        Mentions (.interface ms) q

theorem CallShape.mem_parts {δ : Type} {c : CallShape δ} {t : δ} :
    t ∈ c.parts ↔ ∃ x ∈ c.params ++ c.results, x.type = t :=
  List.mem_map

namespace Descriptor

variable {d : Descriptor} {q : QName}

/-- A name inside is that of the outermost layer, or inside one of the parts. -/
theorem mentions_iff :
    d.Mentions q ↔ d.shape.reference? = some q ∨ ∃ c ∈ d.parts, c.Mentions q := by
  constructor
  · intro h
    cases h with
    | named | opaqueAs => exact .inl rfl
    | element nullable h | key v nullable h => exact .inr ⟨_, List.mem_cons_self, h⟩
    | value k nullable h => exact .inr ⟨_, List.mem_cons_of_mem _ List.mem_cons_self, h⟩
    | property nullable hp h => exact .inr ⟨_, List.mem_map_of_mem hp, h⟩
    | method nullable hm hx h =>
      exact .inr ⟨_, List.mem_flatMap.2 ⟨_, hm, CallShape.mem_parts.2 ⟨_, hx, rfl⟩⟩, h⟩
    | parameter nullable hx h => exact .inr ⟨_, CallShape.mem_parts.2 ⟨_, hx, rfl⟩, h⟩
  · obtain ⟨s, nullable⟩ := d
    rintro (hs | ⟨c, hc, h⟩)
    · cases s with
      | named => exact Option.some.inj hs ▸ .named _ nullable
      | opaqueType name =>
        obtain rfl : name = some q := hs
        exact .opaqueAs q nullable
      | builtin | native | array | map | object | interface | function =>
        simp [Shape.reference?] at hs
    · cases s with
      | builtin | native | opaqueType | named => simp [parts, Shape.parts] at hc
      | array e =>
        obtain rfl : c = e := by simpa [parts, Shape.parts] using hc
        exact .element nullable h
      | map k v =>
        obtain rfl | rfl : c = k ∨ c = v := by simpa [parts, Shape.parts] using hc
        · exact .key v nullable h
        · exact .value k nullable h
      | object ps =>
        obtain ⟨p, hp, rfl⟩ := List.mem_map.1 hc
        exact .property nullable hp h
      | interface ms =>
        obtain ⟨m, hm, hc⟩ := List.mem_flatMap.1 hc
        obtain ⟨x, hx, rfl⟩ := CallShape.mem_parts.1 hc
        exact .method nullable hm hx h
      | function call =>
        obtain ⟨x, hx, rfl⟩ := CallShape.mem_parts.1 hc
        exact .parameter nullable hx h

theorem mem_references : q ∈ d.references ↔ d.Mentions q := by
  induction d using Descriptor.ind with
  | h d ih =>
    rw [references_eq, mentions_iff, List.mem_append, Option.mem_toList, List.mem_flatMap]
    exact or_congr .rfl (exists_congr fun c => and_congr_right (ih c))

end Descriptor

theorem Body.mem_references {b : Body} {q : QName} : q ∈ b.references ↔ b.Mentions q := by
  simp only [references, List.mem_flatMap, Descriptor.mem_references]
  constructor
  · rintro ⟨t, ht, h⟩
    cases b with
    | struct ps =>
      obtain ⟨p, hp, rfl⟩ := List.mem_map.1 ht
      exact .property hp h
    | aliasOf target =>
      obtain rfl := List.mem_singleton.1 ht
      exact .target h
    | interface ms =>
      obtain ⟨m, hm, ht⟩ := List.mem_flatMap.1 ht
      obtain ⟨x, hx, rfl⟩ := CallShape.mem_parts.1 ht
      exact .method hm hx h
  · intro h
    cases h with
    | property hp h => exact ⟨_, List.mem_map_of_mem hp, h⟩
    | target h => exact ⟨_, List.mem_singleton.2 rfl, h⟩
    | method hm hx h =>
      exact ⟨_, List.mem_flatMap.2 ⟨_, hm, CallShape.mem_parts.2 ⟨_, hx, rfl⟩⟩, h⟩

end ClientTypes

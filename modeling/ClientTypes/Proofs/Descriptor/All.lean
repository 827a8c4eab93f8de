import ClientTypes.Registry.Definition
import ClientTypes.Resolve.Member

/-!
# Facts about every layer of a descriptor

`d.All p` says that `p` holds of the shape of `d` and of all shapes inside. Most facts are about
the names that a shape refers to and hold of a shape without a name for no further reason; such a
`p` is plain. Some facts speak against opaque shapes as well; such a `p` is solid if it has nothing
against the others.

A descriptor that is put together from builtin forms and substitutes alone is elementary. What
resolution answers without looking anything up is, and what holds of all elementary descriptors is
shown by induction on how they are put together. Whatever is plain is one such fact.

## Main definitions

* `Descriptor.All`, `Body.All` — a fact about every layer
* `Plain` — holds of every shape that refers to no name
* `Solid` — holds of every such shape that is not opaque
* `Descriptor.Elementary` — put together without looking anything up
-/

namespace ClientTypes

variable {p p' : Shape Descriptor → Prop}

/-- `p` holds of the shape of a descriptor and of all shapes inside. -/
inductive Descriptor.All (p : Shape Descriptor → Prop) : Descriptor → Prop
  | intro {d : Descriptor} : p d.shape → (∀ c ∈ d.parts, All p c) → All p d

/-- `p` holds of every shape in a body. -/
def Body.All (p : Shape Descriptor → Prop) (b : Body) : Prop := ∀ t ∈ b.types, t.All p

/-- Holds of every shape that refers to no name. -/
def Plain (p : Shape Descriptor → Prop) : Prop := ∀ s, s.reference? = none → p s

/-- Holds of every shape of known format that refers to no name. -/
def Solid (p : Shape Descriptor → Prop) : Prop :=
  ∀ s, s.reference? = none → s.isOpaque = false → p s

theorem Plain.solid (hp : Plain p) : Solid p := fun s hs _ => hp s hs

namespace Descriptor

theorem all_iff {d : Descriptor} : d.All p ↔ p d.shape ∧ ∀ c ∈ d.parts, c.All p :=
  ⟨fun ⟨h, hc⟩ => ⟨h, hc⟩, fun ⟨h, hc⟩ => .intro h hc⟩

theorem All.shape {d : Descriptor} (h : d.All p) : p d.shape := (all_iff.1 h).1

theorem All.imp {d : Descriptor} (h : d.All p) (hp : ∀ s, p s → p' s) : d.All p' := by
  induction h with
  | intro hs _ ih => exact .intro (hp _ hs) ih

theorem all_of_forall (h : ∀ s, p s) (d : Descriptor) : d.All p := by
  induction d using Descriptor.ind with
  | h d ih => exact .intro (h _) ih

/-- A fact about all names in a descriptor is a fact about the name of every layer. -/
theorem all_reference_iff {K : QName → Prop} {d : Descriptor} :
    d.All (fun s => ∀ q, s.reference? = some q → K q) ↔ ∀ q ∈ d.references, K q := by
  induction d using Descriptor.ind with
  | h d ih =>
    rw [all_iff, references_eq]
    simp only [List.mem_append, Option.mem_toList, List.mem_flatMap]
    constructor
    · rintro ⟨hs, hc⟩ q (hq | ⟨c, hmem, hq⟩)
      · exact hs q hq
      · exact (ih c hmem).1 (hc c hmem) q hq
    · intro h
      exact ⟨fun q hq => h q (.inl hq), fun c hc => (ih c hc).2 fun q hq => h q (.inr ⟨c, hc, hq⟩)⟩

@[simp] theorem all_withPointers {d : Descriptor} {n : Nat} :
    (d.withPointers n).All p ↔ d.All p := by
  rw [all_iff, all_iff]
  rfl

theorem all_of_parts_eq_nil {d : Descriptor} (hs : p d.shape) (hd : d.parts = []) : d.All p :=
  .intro hs (by simp [hd])

/-! ## What is plain all the way down -/

theorem all_builtin (hp : Solid p) (b : Builtin) : (builtin b).All p :=
  all_of_parts_eq_nil (hp _ rfl rfl) rfl

theorem all_bareOpaque (hp : Plain p) : bareOpaque.All p := all_of_parts_eq_nil (hp _ rfl) rfl

theorem all_array (hp : Solid p) {e : Descriptor} (he : e.All p) : (array e).All p :=
  .intro (hp _ rfl rfl) fun c hc => by
    obtain rfl : c = e := by simpa [array, parts, Shape.parts] using hc
    exact he

theorem all_map (hp : Solid p) {k v : Descriptor} (hk : k.All p) (hv : v.All p) :
    (map k v).All p :=
  .intro (hp _ rfl rfl) fun c hc => by
    obtain rfl | rfl : c = k ∨ c = v := by simpa [map, parts, Shape.parts] using hc
    · exact hk
    · exact hv

theorem all_named {q : QName} (h : p (.named q)) : (named q).All p := all_of_parts_eq_nil h rfl

theorem all_opaqueAs {q : QName} (h : p (.opaqueType (some q))) : (opaqueAs q).All p :=
  all_of_parts_eq_nil h rfl

/-! ## What is put together without looking anything up -/

/-- Put together from builtin forms and substitutes alone. -/
inductive Elementary : Descriptor → Prop
  | builtin (b : Builtin) : Elementary (builtin b)
  | bareOpaque : Elementary bareOpaque
  | substitute (s : Substitute) : Elementary s.descriptor
  | withPointers {d : Descriptor} (n : Nat) : Elementary d → Elementary (d.withPointers n)
  | array {e : Descriptor} : Elementary e → Elementary (array e)
  | map {k v : Descriptor} : Elementary k → Elementary v → Elementary (map k v)

theorem Elementary.all {d : Descriptor} (h : d.Elementary) (hp : Plain p) : d.All p := by
  induction h with
  | builtin b => exact all_builtin hp.solid b
  | bareOpaque => exact all_bareOpaque hp
  | substitute s =>
    obtain ⟨target, nullable⟩ := s
    cases target <;> exact all_of_parts_eq_nil (hp _ rfl) rfl
  | withPointers n _ ih => exact all_withPointers.2 ih
  | array _ ih => exact all_array hp.solid ih
  | map _ _ ihk ihv => exact all_map hp.solid ihk ihv

theorem Elementary.reference?_eq_none {d : Descriptor} (h : d.Elementary) :
    d.shape.reference? = none :=
  (h.all (p := fun s => s.reference? = none) fun _ hs => hs).shape

end Descriptor

theorem Scalar.elementary_descriptor (s : Scalar) : s.descriptor.Elementary := by
  unfold Scalar.descriptor
  split
  · exact .builtin _
  · exact .bareOpaque

theorem KindTag.elementary_descriptor (k : KindTag) : k.descriptor.Elementary := by
  cases k with
  | scalar s => exact s.elementary_descriptor
  | array | slice => exact .array .bareOpaque
  | map => exact .map (.builtin _) .bareOpaque
  | struct | interface | channel | function | any => exact .bareOpaque

theorem Substitute.elementary_descriptor (s : Substitute) : s.descriptor.Elementary :=
  .substitute s

theorem elementary_of_predeclared?_eq_some {text : String} {d : Descriptor}
    (h : predeclared? text = some d) : d.Elementary := by
  unfold predeclared? at h
  split at h
  · exact Option.some.inj h ▸ Scalar.elementary_descriptor _
  · split at h
    · exact Option.some.inj h ▸ .builtin _
    · split at h
      · exact Option.some.inj h ▸ .bareOpaque
      · simp at h

theorem SubstitutionTable.elementary_guess (table : SubstitutionTable) (spelling : String) :
    (table.guess spelling).Elementary := by
  unfold guess
  generalize spelling.toList = raw
  fun_induction SubstitutionTable.guessChars table raw with
  | case1 raw text d hd => exact elementary_of_predeclared?_eq_some hd
  | case2 raw text hd inner hinner ih => exact ih.withPointers 1
  | case3 raw text hd elem helem ih => exact ih.array
  | case4 raw text hd key value hkv ihk ihv => exact ihk.map ihv
  | case5 raw text hd hleaf =>
    cases table.get? (String.ofList text) with
    | none => exact .bareOpaque
    | some s => exact s.elementary_descriptor

namespace Resolver

variable {r : Resolver} {id link : TypeId} {links : AliasLinks}

/-- An alias stands for its usable link. -/
theorem aliasBase_of_link (inner : TypeId → Resolving Descriptor)
    (hl : r.usableLink? id links = some link) : r.aliasBase inner id links = inner link := by
  unfold aliasBase
  rw [hl]

/-- Without a usable link an alias stands for what else was recorded of it. -/
theorem aliasBase_of_no_link (inner : TypeId → Resolving Descriptor)
    (hl : r.usableLink? id links = none) :
    ∃ d : Descriptor, d.Elementary ∧ r.aliasBase inner id links = pure d := by
  unfold aliasBase
  split
  · next h => simp [hl] at h
  · exact ⟨_, KindTag.elementary_descriptor _, rfl⟩
  · exact ⟨_, SubstitutionTable.elementary_guess _ _, rfl⟩
  · refine ⟨_, ?_, rfl⟩
    split
    · exact .bareOpaque
    · exact SubstitutionTable.elementary_guess _ _
  · exact ⟨_, .bareOpaque, rfl⟩

end Resolver

/-! ## Bodies -/

namespace Body

theorem All.imp {b : Body} (h : b.All p) (hp : ∀ s, p s → p' s) : b.All p' :=
  fun t ht => (h t ht).imp hp

theorem all_reference_iff {K : QName → Prop} {b : Body} :
    b.All (fun s => ∀ q, s.reference? = some q → K q) ↔ ∀ q ∈ b.references, K q := by
  simp only [All, Descriptor.all_reference_iff, references, List.mem_flatMap]
  exact ⟨fun h q ⟨t, ht, hq⟩ => h t ht q hq, fun h t ht q hq => h q ⟨t, ht, hq⟩⟩

theorem all_aliasOf {t : Descriptor} : (aliasOf t).All p ↔ t.All p := by simp [All, types]

/-- A body written out in place of a type without a name. An interface without methods is
opaque. -/
theorem All.inlined_of_solid (hp : Solid p) {b : Body} (hb : b = .interface [] → Plain p)
    (h : b.All p) : b.inlined.All p := by
  cases b with
  | struct ps => exact .intro (hp _ rfl rfl) h
  | aliasOf t => exact all_aliasOf.1 h
  | interface ms =>
    cases ms with
    | nil => exact Descriptor.all_bareOpaque (hb rfl)
    | cons m ms => exact .intro (hp _ rfl rfl) h

theorem All.inlined (hp : Plain p) {b : Body} (h : b.All p) : b.inlined.All p :=
  h.inlined_of_solid hp.solid fun _ => hp

end Body

end ClientTypes

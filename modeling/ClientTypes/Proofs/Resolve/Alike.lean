import Mathlib.Data.List.Find
import ClientTypes.Proofs.Mirror
import ClientTypes.Proofs.Resolve.Aspect
import ClientTypes.Proofs.Resolve.Visits

/-!
# The same parts

What becomes of a type depends on the ids that it mentions and on nothing else of the project: on
what is known of them, and on how they are resolved. Two resolvers that have the settings in common,
know the same of these ids and resolve them alike make the same of the type. The chains in which
they do so may differ, as long as their registries do not.

## Main definitions

* `Resolver.SeesAlike` — two resolvers that know the same of some ids

The main statements are `mirrors_resolveVariable` and `mirrors_body`.
-/

namespace ClientTypes

namespace Resolver

/-- Two resolvers with the same settings that know the same of some ids. -/
structure SeesAlike (r₁ r₂ : Resolver) (P : TypeId → Prop) : Prop where
  substitutions : r₁.substitutions = r₂.substitutions
  tagKey : r₁.tagKey = r₂.tagKey
  type? : ∀ {id}, P id → r₁.project.type? id = r₂.project.type? id

variable {r₁ r₂ : Resolver} {P : TypeId → Prop}

theorem SeesAlike.refl (r : Resolver) (P : TypeId → Prop) : r.SeesAlike r P :=
  ⟨rfl, rfl, fun _ => rfl⟩

theorem SeesAlike.substitute? (hr : r₁.SeesAlike r₂ P) : r₁.substitute? = r₂.substitute? := by
  funext decl
  unfold Resolver.substitute?
  rw [hr.substitutions]

theorem SeesAlike.isByte (hr : r₁.SeesAlike r₂ P) {id : TypeId} (hid : P id) :
    r₁.isByte id = r₂.isByte id := by
  unfold Resolver.isByte
  rw [hr.type? hid]

theorem SeesAlike.isNamedMap (hr : r₁.SeesAlike r₂ P) {id : TypeId} (hid : P id) :
    r₁.isNamedMap id = r₂.isNamedMap id := by
  unfold Resolver.isNamedMap
  rw [hr.type? hid]

theorem SeesAlike.usableLink? (hr : r₁.SeesAlike r₂ P) {id : TypeId} {links : AliasLinks}
    (hlinks : ∀ i ∈ links.target.toList ++ links.underlying.toList, P i) :
    r₁.usableLink? id links = r₂.usableLink? id links := by
  unfold Resolver.usableLink?
  refine List.find?_congr fun i hi => ?_
  rw [hr.type? (hlinks i hi)]

variable {R : Chain → Chain → Prop} {inner₁ inner₂ : TypeId → Resolving Descriptor}
  (hr : r₁.SeesAlike r₂ P) (hreg : ∀ c₁ c₂, R c₁ c₂ → c₁.registry = c₂.registry)
  (h : ∀ i, P i → Mirrors R (inner₁ i) (inner₂ i))

/-! ## Variables -/

section

include hr h

theorem mirrors_resolveItem {v : Variable} (hv : ∀ i ∈ v.ids, P i) :
    Mirrors R (r₁.resolveItem inner₁ v) (r₂.resolveItem inner₂ v) := by
  have htype : P v.type := hv _ (by simp [Variable.ids])
  unfold resolveItem
  rw [hr.isNamedMap htype]
  split
  · next key value hkey hvalue =>
    split
    · exact .bind (h _ htype) fun _ => .pure _
    · refine .bind (h key (hv _ (by simp [Variable.ids, hkey]))) fun _ => ?_
      exact .bind (h value (hv _ (by simp [Variable.ids, hvalue]))) fun _ => .pure _
  · exact .bind (h _ htype) fun _ => .pure _

theorem mirrors_resolveVariable {v : Variable} (hv : ∀ i ∈ v.ids, P i) :
    Mirrors R (r₁.resolveVariable inner₁ v) (r₂.resolveVariable inner₂ v) := by
  unfold resolveVariable
  rw [hr.isByte (hv _ (by simp [Variable.ids]))]
  split
  · split
    · exact .pure _
    · exact .bind (mirrors_resolveItem hr h (v := v.element) hv) fun _ => .pure _
  · exact mirrors_resolveItem hr h hv

end

/-! ## Fields -/

section

include hreg h

theorem mirrors_promoted {f : Field} (hf : ∀ i ∈ f.var.ids, P i) :
    Mirrors R (promoted inner₁ f) (promoted inner₂ f) := by
  unfold promoted
  split
  · exact .pure _
  · refine .bind (h _ (hf _ (by simp [Variable.ids]))) fun _ => ?_
    exact .read fun c₁ c₂ hc => by rw [hreg c₁ c₂ hc]

theorem mirrors_embeddedMethods {embed : TypeId} (hembed : P embed) :
    Mirrors R (embeddedMethods inner₁ embed) (embeddedMethods inner₂ embed) := by
  rw [embeddedMethods_eq, embeddedMethods_eq]
  refine .bind (h embed hembed) fun _ => ?_
  exact .read fun c₁ c₂ hc => by rw [hreg c₁ c₂ hc]

include hr

theorem mirrors_property {f : Field} (hf : ∀ i ∈ f.var.ids, P i) (wire : WireField) :
    Mirrors R (r₁.property inner₁ f wire) (r₂.property inner₂ f wire) := by
  unfold property
  refine .bind (mirrors_resolveVariable hr h hf) fun _ => ?_
  exact .read fun c₁ c₂ hc => by rw [hreg c₁ c₂ hc]

theorem mirrors_fieldEntries {f : Field} (hf : ∀ i ∈ f.var.ids, P i) :
    Mirrors R (r₁.fieldEntries inner₁ f) (r₂.fieldEntries inner₂ f) := by
  unfold fieldEntries
  rw [hr.tagKey]
  split
  · exact .pure _
  · exact .bind (mirrors_property hr hreg h hf _) fun _ => .pure _
  · refine .bind (mirrors_promoted hreg h hf) fun ps => ?_
    split
    · exact .pure _
    · split
      · exact .bind (mirrors_property hr hreg h hf _) fun _ => .pure _
      · exact .pure _

end

/-! ## Methods -/

section

include hr h

theorem mirrors_params {vars : List Variable} (hvars : ∀ v ∈ vars, ∀ i ∈ v.ids, P i)
    (slot : Slot) : Mirrors R (r₁.params inner₁ slot vars) (r₂.params inner₂ slot vars) := by
  unfold params
  exact .bind (.mapM vars fun v hv => mirrors_resolveVariable hr h (hvars v hv)) fun _ => .pure _

theorem mirrors_callShape {s : Signature} (hs : ∀ i ∈ s.ids, P i) :
    Mirrors R (r₁.callShape inner₁ s) (r₂.callShape inner₂ s) := by
  have hvars : ∀ v ∈ s.params ++ s.results, ∀ i ∈ v.ids, P i :=
    fun v hv i hi => hs i (List.mem_flatMap.2 ⟨v, hv, hi⟩)
  unfold callShape
  refine .bind (mirrors_params hr h
    (fun v hv => hvars v (List.mem_append_left _ hv)) .request) fun _ => ?_
  exact .bind (mirrors_params hr h
    (fun v hv => hvars v (List.mem_append_right _ hv)) .response) fun _ => .pure _

include hreg

theorem mirrors_methodSet {embeds : List TypeId} {methods : List InterfaceMethod}
    (hk : ∀ i ∈ (Kind.interface embeds methods).links, P i) :
    Mirrors R (r₁.methodSet inner₁ embeds methods) (r₂.methodSet inner₂ embeds methods) := by
  have hcall : ∀ m ∈ methods, ∀ i ∈ m.signature.ids, P i := fun m hm i hi =>
    hk i (List.mem_append_right _ (List.mem_flatMap.2 ⟨m, hm, hi⟩))
  unfold methodSet
  refine .bind (.mapM methods fun m hm => ?_) fun _ => ?_
  · exact .bind (mirrors_callShape hr h (hcall m hm)) fun _ => .pure _
  · refine .bind (.mapM embeds fun i hi => ?_) fun _ => .pure _
    exact mirrors_embeddedMethods hreg h (hk i (List.mem_append_left _ hi))

end

/-! ## Bodies -/

section

include hr h

theorem mirrors_aliasBase {links : AliasLinks} (hk : ∀ i ∈ (Kind.aliasOf links).links, P i)
    (id : TypeId) : Mirrors R (r₁.aliasBase inner₁ id links) (r₂.aliasBase inner₂ id links) := by
  unfold aliasBase
  rw [← hr.usableLink? hk, ← hr.substitutions]
  split
  · next hlink => exact h _ (hk _ (usableLink?_mem hlink))
  all_goals exact .pure _

theorem mirrors_arrayShape {a : ArrayType} (ha : P a.elem) :
    Mirrors R (r₁.arrayShape inner₁ a) (r₂.arrayShape inner₂ a) := by
  unfold arrayShape
  rw [hr.isByte ha]
  split
  · exact .pure _
  · exact .bind (h _ ha) fun _ => .pure _

omit hr in
theorem mirrors_mapShape {m : MapType} (hkey : P m.key) (hvalue : P m.value) :
    Mirrors R (mapShape inner₁ m) (mapShape inner₂ m) :=
  .bind (h _ hkey) fun _ => .bind (h _ hvalue) fun _ => .pure _

include hreg

/-- The body of a type depends on the links of its kind. -/
theorem mirrors_body {k : Kind} (hk : ∀ i ∈ k.links, P i) (id : TypeId) :
    Mirrors R (r₁.body inner₁ id k) (r₂.body inner₂ id k) := by
  cases k with
  | scalar | channel | any => exact .pure _
  | struct fields =>
    refine .map _ (.bind (.mapM fields fun f hf => ?_) fun _ => .pure _)
    exact mirrors_fieldEntries hr hreg h fun i hi => hk i (List.mem_flatMap.2 ⟨f, hf, hi⟩)
  | interface embeds methods => exact .map _ (mirrors_methodSet hr hreg h hk)
  | aliasOf links => exact .map _ (mirrors_aliasBase hr h hk id)
  | array a => exact .map _ (mirrors_arrayShape hr h (hk _ (by simp [Kind.links])))
  | map m =>
    exact .map _ (mirrors_mapShape h (hk _ (by simp [Kind.links])) (hk _ (by simp [Kind.links])))
  | function s => exact .bind (mirrors_callShape hr h hk) fun _ => .pure _

end

end Resolver

end ClientTypes

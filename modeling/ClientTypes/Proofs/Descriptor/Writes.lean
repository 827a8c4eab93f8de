import ClientTypes.Registry.Definition

/-!
# Names in rendered text

Of the text of a descriptor or a definition only the names depend on the scope. Everything between
them is the same wherever it is written, parentheses included: whether an element of an array needs
them is decided by its shape. So the text of a descriptor is a sequence of fixed text and names, and
these names are its references, in order.

## Main definitions

* `Writes` — a text is put together from fixed text and given names

The main statements are `Descriptor.writes_render` and `Definition.writes_render`.
-/

namespace ClientTypes

/-- A text for every scope that is put together from fixed text and from names as the scope has
them. The names are listed in the order in which they are written. -/
inductive Writes : (Scope → String) → List QName → Prop
  | fixed (text : String) : Writes (fun _ => text) []
  | name (q : QName) : Writes (fun scope => scope.name q) [q]
  | append {f g : Scope → String} {qs rs : List QName} :
      Writes f qs → Writes g rs → Writes (fun scope => f scope ++ g scope) (qs ++ rs)

namespace Writes

variable {α : Type} {f : Scope → String} {qs : List QName}

/-- Fixed text before and behind. -/
theorem within (before behind : String) (h : Writes f qs) :
    Writes (fun scope => before ++ f scope ++ behind) qs := by
  simpa using ((fixed before).append h).append (fixed behind)

theorem after (before : String) (h : Writes f qs) : Writes (fun scope => before ++ f scope) qs := by
  simpa using (fixed before).append h

theorem join {xs : List α} {f : α → Scope → String} {names : α → List QName}
    (h : ∀ x ∈ xs, Writes (f x) (names x)) :
    Writes (fun scope => String.join (xs.map (f · scope))) (xs.flatMap names) := by
  induction xs with
  | nil => exact fixed ""
  | cons x xs ih =>
    simp only [List.map_cons, String.join_cons, List.flatMap_cons]
    exact (h x List.mem_cons_self).append (ih fun y hy => h y (List.mem_cons_of_mem x hy))

theorem intercalate (sep : String) {xs : List α} {f : α → Scope → String}
    {names : α → List QName} (h : ∀ x ∈ xs, Writes (f x) (names x)) :
    Writes (fun scope => sep.intercalate (xs.map (f · scope))) (xs.flatMap names) := by
  induction xs with
  | nil => exact fixed ""
  | cons x xs ih =>
    have hx := h x List.mem_cons_self
    have ih := ih fun y hy => h y (List.mem_cons_of_mem x hy)
    cases xs with
    | nil => simpa using hx
    | cons y ys =>
      have hfirst : Writes (fun scope => f x scope ++ sep) (names x) := by
        simpa using hx.append (fixed sep)
      simp only [List.map_cons, String.intercalate_cons_cons] at ih ⊢
      exact hfirst.append ih

end Writes

/-! ## Layers -/

section Layers

variable {c : CallShape Descriptor}

/-- The text of the descriptor has its references as the names. -/
def Descriptor.Written (d : Descriptor) : Prop :=
  Writes (fun scope => (d.typeText scope).text) d.references

theorem Property.writes_text {p : Property Descriptor} (h : p.type.Written) :
    Writes (fun scope => (p.map (·.typeText scope)).text) p.type.references :=
  h.after (Text.propertyKey p.name ++ (if p.optional then "?" else "") ++ ": ")

theorem Param.writes_text {x : Param Descriptor} (h : x.type.Written) :
    Writes (fun scope => (x.map (·.typeText scope)).text) x.type.references :=
  h.after (x.name ++ ": ")

namespace CallShape

theorem writes_paramsText (h : ∀ x ∈ c.params, x.type.Written) :
    Writes (fun scope => (c.map (·.typeText scope)).paramsText)
      (c.params.flatMap (·.type.references)) := by
  have hparams := Writes.intercalate ", " fun x hx => Param.writes_text (h x hx)
  simpa [paramsText, CallShape.map, Function.comp_def] using hparams

theorem writes_resultsText (h : ∀ x ∈ c.results, x.type.Written) :
    Writes (fun scope => (c.map (·.typeText scope)).resultsText)
      (c.results.flatMap (·.type.references)) := by
  obtain ⟨params, results⟩ := c
  match results with
  | [] => exact .fixed "void"
  | [r] =>
    rw [List.flatMap_singleton]
    exact h r List.mem_cons_self
  | r :: r' :: rs =>
    have hall := Writes.intercalate ", " fun (x : Param Descriptor) hx =>
      (h x hx : Writes (fun scope => (x.type.typeText scope).text) _)
    simpa [resultsText, CallShape.map, Param.map, Function.comp_def] using hall.within "[" "]"

end CallShape

theorem MethodShape.writes_text {m : MethodShape Descriptor}
    (h : ∀ x ∈ m.call.params ++ m.call.results, x.type.Written) :
    Writes (fun scope => (m.map (·.typeText scope)).text)
      (m.call.parts.flatMap (·.references)) := by
  have hparams := CallShape.writes_paramsText fun x hx => h x (List.mem_append_left _ hx)
  have hresults := CallShape.writes_resultsText fun x hx => h x (List.mem_append_right _ hx)
  rw [CallShape.parts, List.flatMap_map, List.flatMap_append]
  exact (hparams.within (m.name ++ "(") "): ").append hresults

@[simp] theorem Shape.isFunction_mapParts {δ ε : Type} (f : δ → ε) (s : Shape δ) :
    (s.mapParts f).isFunction = s.isFunction := by
  cases s <;> rfl

@[simp] theorem Shape.isBareOpaque_mapParts {δ ε : Type} (f : δ → ε) (s : Shape δ) :
    (s.mapParts f).isBareOpaque = s.isBareOpaque := by
  cases s with
  | opaqueType name => cases name <;> rfl
  | _ => rfl

/-- Whether an element needs parentheses is decided by its shape. -/
theorem Descriptor.compound_typeText (scope : Scope) (d : Descriptor) :
    (d.typeText scope).compound =
      (d.shape.isFunction || (d.nullable && !d.shape.isBareOpaque)) := by
  rw [typeText, fold_eq]
  simp [Shape.typeText]

/-- A layer over parts that are written as they should be. -/
theorem Shape.writes_text {s : Shape Descriptor} (h : ∀ c ∈ s.parts, c.Written) :
    Writes (fun scope => (s.mapParts (·.typeText scope)).text scope)
      (s.reference?.toList ++ s.parts.flatMap (·.references)) := by
  cases s with
  | builtin b => exact .fixed b.text
  | native n => exact .fixed n.text
  | opaqueType name =>
    cases name with
    | none => exact .fixed "unknown"
    | some q => exact .name q
  | named q => exact .name q
  | array e =>
    have he : e.Written := h e List.mem_cons_self
    -- the same parentheses in every scope
    simp only [mapParts, text, Descriptor.compound_typeText]
    split
    · simpa [reference?, parts] using he.within "(" ")[]"
    · simpa [reference?, parts] using he.within "" "[]"
  | map k v =>
    have hk : k.Written := h k List.mem_cons_self
    have hv : v.Written := h v (List.mem_cons_of_mem k List.mem_cons_self)
    have hboth := ((hk.within "Record<" ", ").append hv).within "" ">"
    simpa [mapParts, text, reference?, parts] using hboth
  | object ps =>
    cases ps with
    | nil => exact .fixed "\x7b\x7d"
    | cons p ps =>
      have hall := Writes.intercalate "; " fun (p : Property Descriptor) hp =>
        p.writes_text (h p.type (List.mem_map_of_mem hp))
      simpa [mapParts, text, reference?, parts, List.flatMap_map, Function.comp_def] using
        hall.within "\x7b " " \x7d"
  | interface ms =>
    have hall := Writes.intercalate "; " fun (m : MethodShape Descriptor) hm =>
      m.writes_text fun x hx => h x.type (List.mem_flatMap.2 ⟨m, hm, List.mem_map_of_mem hx⟩)
    simpa [mapParts, text, reference?, parts, List.flatMap_assoc, Function.comp_def] using
      hall.within "\x7b " " \x7d"
  | function c =>
    have hparams := CallShape.writes_paramsText fun x hx =>
      h x.type (List.mem_map_of_mem (List.mem_append_left _ hx))
    have hresults := CallShape.writes_resultsText fun x hx =>
      h x.type (List.mem_map_of_mem (List.mem_append_right _ hx))
    simpa [mapParts, text, reference?, parts, CallShape.parts, List.flatMap_map] using
      (hparams.within "(" ") => ").append hresults

end Layers

/-! ## Descriptors and definitions -/

/-- The text of a descriptor has its references as the names, in order. -/
theorem Descriptor.writes_render (d : Descriptor) :
    Writes (fun scope => d.render scope) d.references := by
  induction d using Descriptor.ind with
  | h d ih =>
    have hshape := Shape.writes_text ih
    rw [references_eq]
    by_cases halternative : d.nullable && !d.shape.isBareOpaque
    · have hnull := hshape.within "" " | null"
      simpa [render, typeText, fold_eq _ d, Shape.typeText, parts, halternative] using hnull
    · simpa [render, typeText, fold_eq _ d, Shape.typeText, parts, halternative] using hshape

/-- The text of a definition has the references of its body as the names, in order. -/
theorem Definition.writes_render (d : Definition) :
    Writes (fun scope => d.render scope) d.body.references := by
  obtain ⟨name, typeId, body, doc⟩ := d
  simp only [render]
  refine Writes.after _ ?_
  cases body with
  | struct ps =>
    have hlines := Writes.join fun (p : Property Descriptor) (_ : p ∈ ps) =>
      (p.writes_text p.type.writes_render).within "  " ";\n"
    have hblock := hlines.within ("export interface " ++ name.name ++ " \x7b\n") "\x7d\n"
    simpa [lines, Property.render, Body.references, Body.types, List.flatMap_map,
      Function.comp_def] using hblock
  | interface ms =>
    have hlines := Writes.join fun (m : MethodShape Descriptor) (_ : m ∈ ms) =>
      (m.writes_text fun x _ => x.type.writes_render).within "  " ";\n"
    have hblock := hlines.within ("export interface " ++ name.name ++ " \x7b\n") "\x7d\n"
    simpa [lines, MethodShape.render, Body.references, Body.types, List.flatMap_assoc,
      Function.comp_def] using hblock
  | aliasOf target =>
    have htarget := target.writes_render.within ("export type " ++ name.name ++ " = ") ";\n"
    simpa [Body.references, Body.types] using htarget

end ClientTypes

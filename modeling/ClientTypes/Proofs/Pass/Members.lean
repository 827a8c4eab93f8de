import ClientTypes.Proofs.Opacity
import ClientTypes.Proofs.Pass.Promotion
import ClientTypes.Proofs.Resolve.Methods

/-!
# Definitions have their members

A struct or an interface is registered without members while it is being expanded. Whoever reads
its definition at that moment may be misled, but the definition itself does not stay like this: when
the expansion ends, its body has all members that the type declares, and a definition that such a
body does not replace has them too.

## Main definitions

* `Kind.Filled` — a body with all members that a kind declares
* `Resolver.FilledIn` — the definitions of expanded types have such bodies, or are opaque

The main statement is `generate_filled`.
-/

namespace ClientTypes

/-- The body of a struct has a property for every field that is a property of its own, and the body
of an interface has every declared method. -/
def Kind.Filled (tagKey : String) : Kind → Body → Prop
  | .struct fields, .struct ps =>
    ∀ f ∈ fields, ∀ wire, f.role tagKey = .property wire → wire.name ∈ ps.map (·.name)
  | .interface _ methods, .interface ms => ∀ m ∈ methods, m.name ∈ ms.map (·.name)
  | .struct _, _ | .interface _ _, _ => False
  | _, _ => True

namespace Resolver

variable {r : Resolver} {I : Registry → Prop} {inner : TypeId → Resolving Descriptor}
  {reg : Registry} {id : TypeId} {decl : TypeDecl} {name : QName}

/-! ## Bodies -/

/-- A field that is a property of its own is an entry under its wire name. -/
theorem names_fieldEntries {f : Field} {wire : WireField} (hr : f.role r.tagKey = .property wire)
    (c : Chain) : ((r.fieldEntries inner f).run c).1.map (·.property.name) = [wire.name] := by
  unfold fieldEntries
  simp only [hr]
  rfl

theorem names_properties (fields : List Field) (c : Chain) :
    ∀ f ∈ fields, ∀ wire, f.role r.tagKey = .property wire →
      wire.name ∈ ((r.properties inner fields).run c).1.map (·.name) := by
  have hentries : anyLaw.Keeps (fun _ => True) (fields.mapM (r.fieldEntries inner))
      fun ess _ => List.Forall₂ (fun f (es : List Entry) => ∀ wire,
        f.role r.tagKey = .property wire → wire.name ∈ es.map (·.property.name)) fields ess := by
    refine .mapM (Law.stable_const True) (fun f es => Law.stable_const _) fields fun f _ => ?_
    refine fun c _ _ => ⟨trivial, trivial, fun wire hr => ?_⟩
    rw [names_fieldEntries hr]
    exact List.mem_singleton_self _
  have hproperties : anyLaw.Keeps (fun _ => True) (r.properties inner fields)
      fun ps _ => ∀ f ∈ fields, ∀ wire, f.role r.tagKey = .property wire →
        wire.name ∈ ps.map (·.name) := by
    refine .bind (Law.stable_const True) hentries fun ess => .pure ?_
    rintro c - ⟨-, hess⟩ f hf wire hr
    obtain ⟨es, hes, hname⟩ := exists_of_mem_left hess hf
    refine (mem_names_selectEntries _).2 ?_
    rw [List.map_flatten]
    exact List.mem_flatten.2 ⟨_, List.mem_map_of_mem hes, hname wire hr⟩
  exact (hproperties c trivial trivial).2.2

theorem names_methodSet (embeds : List TypeId) (methods : List InterfaceMethod) (c : Chain) :
    ∀ m ∈ methods, m.name ∈ ((r.methodSet inner embeds methods).run c).1.map (·.name) := by
  have hmethods : anyLaw.Keeps (fun _ => True) (r.methodSet inner embeds methods) _ :=
    keeps_methodSet_names (P := fun _ _ _ => True) (Law.stable_const True)
      (fun _ _ => Law.stable_const True) (fun _ _ _ _ _ => ⟨trivial, trivial, trivial⟩)
      fun _ _ _ _ _ => ⟨trivial, trivial, trivial⟩
  obtain ⟨-, -, mss, -, hnames⟩ := hmethods c trivial trivial
  exact fun m hm => (hnames m.name).2 (.inl ⟨m, hm, rfl⟩)

/-- The body of a type has all members that the type declares. -/
theorem filled_body (id : TypeId) (k : Kind) (c : Chain) :
    k.Filled r.tagKey ((r.body inner id k).run c).1 := by
  cases k with
  | struct fields => exact names_properties fields c
  | interface embeds methods => exact names_methodSet embeds methods c
  | _ => trivial

/-! ## Definitions -/

/-- The definition of a type that has been expanded has all members that the type declares, or is
opaque. -/
def FilledIn (r : Resolver) (reg : Registry) : Prop :=
  ∀ d ∈ reg.definitions, Done reg d.typeId → d.isOpaque ∨
    ∃ decl, r.project.type? d.typeId = some decl ∧ decl.kind.Filled r.tagKey d.body

/-- A definition that the body of an expanded type does not replace has the members of that body: it
is opaque, or has been registered by an expansion in the other direction, or there are none. -/
theorem filled_of_kept {n : Nat} {c c' : Chain} {b : Body} {d : Definition}
    (ho : r.Opens c.direction id decl) (hc' : r.Inv r.FilledIn c')
    (hb : ((r.body (r.resolveType n) id decl.kind).run c).1 = b)
    (hget : c'.registry.get? name = some d) (hid : d.typeId = id)
    (hkept : c'.registry.outcome (definition id decl name b) = .kept) :
    d.isOpaque ∨ decl.kind.Filled r.tagKey d.body := by
  obtain ⟨decl', horigin⟩ := hc'.grounded.origin d (Registry.mem_of_get? hget)
  obtain rfl : decl' = decl := ho.decl_eq (hid ▸ horigin.declared)
  rcases horigin.reason with hdone | ⟨-, hstub⟩ | ⟨-, hopaque⟩
  · rcases hc'.registry d (Registry.mem_of_get? hget) hdone with hopaque | ⟨decl'', hd, hfilled⟩
    · exact .inl hopaque
    · rw [hid] at hd
      obtain rfl : decl'' = decl' := ho.decl_eq hd
      exact .inr hfilled
  · obtain ⟨hzero, hopaque⟩ := completeness_of_stub? hstub
    have hget' : c'.registry.get? (definition id decl' name b).name = some d := hget
    have hle : b.completeness ≤ d.body.completeness :=
      Registry.completeness_le_of_kept hget' hopaque hkept
    have hbody : b = d.body := by
      rw [← hb]
      exact eq_stub_of_completeness hstub (by rw [hb]; omega)
    exact .inr (hbody ▸ hb ▸ filled_body id decl'.kind c)
  · exact .inl (by rw [Definition.isOpaque, hopaque]; rfl)

theorem steps_filledIn (r : Resolver) :
    r.Steps fun reg => reg.Orderly ∧ r.FilledIn reg where
  hide hc hh hname := by
    refine ⟨r.steps_orderly.hide (hc.mono fun _ h => h.1) hh hname, ?_⟩
    refine Registry.forall_mem_merge (fun d hd hdone => ?_) fun _ => .inl rfl
    exact hc.registry.2 d hd (by simpa [Done] using hdone)
  back {c id decl name stub} hc ho hname hmem hstub := by
    have horderly := r.steps_orderly.back (hc.mono fun _ h => h.1) ho hname hmem hstub
    refine ⟨horderly, fun d hd hdone => ?_⟩
    have hdone : Done c.registry d.typeId := by simpa [Done] using hdone
    rcases Registry.mem_definitions_of_mem_merge hd with rfl | hd'
    · -- An expanded type has a definition, so that nothing has been replaced.
      obtain ⟨dir, hexp⟩ := hdone
      have hdefined : c.registry.contains name :=
        hc.closed.closed.defined hexp ⟨decl, ho.declared, hname⟩
      have hget := horderly.1.get?_eq_some_iff.2 ⟨hd, rfl⟩
      rw [get?_merge_of_stub hstub hdefined] at hget
      exact hc.registry.2 _ (Registry.mem_of_get? hget) ⟨dir, hexp⟩
    · exact hc.registry.2 d hd' hdone
  complete {n id decl name c c' b} hs hmem hname hrun hc' hle := by
    have horderly := r.steps_orderly.complete (hs.mono fun _ h => h.1) hmem hname hrun
      (hc'.mono fun _ h => h.1) hle
    have hb : ((r.body (r.resolveType n) id decl.kind).run c).1 = b := congrArg Prod.fst hrun
    refine ⟨horderly, fun d hd hdone => ?_⟩
    have hget := horderly.1.get?_eq_some_iff.2 ⟨hd, rfl⟩
    rw [Registry.get?_markExpanded, Registry.get?_merge] at hget
    split at hget
    · obtain rfl := Option.some.inj hget
      exact .inr ⟨decl, hs.opens.declared, hb ▸ filled_body id decl.kind c⟩
    · next hcond =>
      by_cases hid : d.typeId = id
      · have hdname : d.name = name := by
          obtain ⟨decl', horigin⟩ := hc'.grounded.origin d (Registry.mem_of_get? hget)
          have hdecl := horigin.declared
          have hq := horigin.named
          rw [hid] at hdecl
          rw [hs.opens.decl_eq hdecl, hname] at hq
          exact (Option.some.inj hq).symm
        have hkept : c'.registry.outcome (definition id decl name b) = .kept := by
          by_contra hne
          exact hcond ⟨hdname, hne⟩
        have hfilled :=
          filled_of_kept hs.opens (hc'.mono fun _ h => h.2) hb (hdname ▸ hget) hid hkept
        exact hfilled.imp_right fun h => ⟨decl, hid ▸ hs.opens.declared, h⟩
      · refine hc'.registry.2 d (Registry.mem_of_get? hget) ?_
        obtain ⟨dir, hexp⟩ := hdone
        rcases Registry.mem_expanded_markExpanded.1 hexp with ⟨heq, -⟩ | hexp
        · exact absurd heq hid
        · exact ⟨dir, by simpa using hexp⟩

/-- At rest every definition has all members of its type, or is an alias of the bare opaque type. -/
theorem Rests.filled (h : r.Rests (fun reg => reg.Orderly ∧ r.FilledIn reg) reg) {d : Definition}
    (hd : d ∈ reg.definitions) : ∃ decl, r.project.type? d.typeId = some decl ∧
      decl.qname? = some d.name ∧
        (d.body = .aliasOf .bareOpaque ∨ decl.kind.Filled r.tagKey d.body) := by
  obtain ⟨decl, horigin⟩ := h.origin d hd
  refine ⟨decl, horigin.declared, horigin.named, ?_⟩
  rcases horigin.reason with hdone | ⟨hmem, -⟩ | ⟨-, hopaque⟩
  · rcases h.registry.2 d hd hdone with hopaque | ⟨decl', hd', hfilled⟩
    · have hget := h.registry.1.1.get?_eq_some_iff.2 ⟨hd, rfl⟩
      obtain ⟨e, he, -, hbody⟩ := h.registry.1.conceals hget hopaque
      obtain rfl : e = d := Option.some.inj (he.symm.trans hget)
      exact .inl hbody
    · obtain rfl : decl' = decl := Option.some.inj (hd'.symm.trans horigin.declared)
      exact .inr hfilled
  · simp at hmem
  · exact .inl hopaque

end Resolver

/-- Every definition at the end of a pass is an alias of the bare opaque type, or has all members
that its type declares: a struct the properties of its own fields, an interface its methods. -/
theorem generate_filled (project : Project) (config : Config) (contracts : List Contract) :
    ∀ d ∈ (generate project config contracts).table.definitions, ∃ decl,
      project.type? d.typeId = some decl ∧ decl.qname? = some d.name ∧
        (d.body = .aliasOf .bareOpaque ∨ decl.kind.Filled config.tagKey d.body) := by
  intro d hd
  have hrests := Pass.rests_contracts (p := .make project config)
    (Resolver.steps_filledIn _) ⟨.empty, by simp [Resolver.FilledIn]⟩ contracts
  exact hrests.filled (Registry.mem_definitions_finalize.1 hd)

/-! ## A struct in a cycle -/

namespace Archive

-- The run below is evaluated, down to the tags of fields.
attribute [local semireducible] Tag.lookupChars

def folders : Contract where
  name := "Folders"
  package := "archive"
  operations := [{ name := "Root", results := [{ name := "folder", type := ⟨"Folder"⟩ }] }]

def parent : Field where
  var := { name := "Parent", type := ⟨"Folder"⟩, pointers := 1 }
  tags := "json:\"parent,omitempty\""

/-- A folder lies in another one, and a visitor is sent on from folder to folder. -/
def project : Project where
  path := "archive"
  contracts := [folders]
  types :=
    [(⟨"Folder"⟩, {
        package := some "archive", name := some "Folder"
        kind := .struct [parent, { var := { name := "Guest", type := ⟨"Visitor"⟩ } }] }),
     (⟨"Visitor"⟩, {
        package := some "archive", name := some "Visitor"
        kind := .interface [] [
          ⟨"Enter", { params := [{ name := "folder", type := ⟨"Folder"⟩ }] }⟩] })]

theorem exists_folder :
    ∃ d ∈ (generate project {} [folders]).table.definitions, d.typeId = ⟨"Folder"⟩ :=
  Pass.exists_definition_of_registered (by decide) (by decide)

/-- The folder is referred to from inside of its own expansion, directly and through the visitor;
its definition has its parent all the same. -/
theorem exists_filled_folder : ∃ d ∈ (generate project {} [folders]).table.definitions,
    d.typeId = ⟨"Folder"⟩ ∧ (d.body = .aliasOf .bareOpaque ∨
      ∃ ps, d.body = .struct ps ∧ "parent" ∈ ps.map (·.name)) := by
  obtain ⟨d, hd, hid⟩ := exists_folder
  refine ⟨d, hd, hid, ?_⟩
  obtain ⟨decl, hdecl, -, hbody⟩ := generate_filled project {} [folders] d hd
  rw [hid] at hdecl
  obtain rfl := Option.some.inj hdecl
  refine hbody.imp_right fun hfilled => ?_
  cases hb : d.body with
  | struct ps =>
    rw [hb] at hfilled
    exact ⟨ps, rfl, hfilled parent List.mem_cons_self ⟨"parent", true, false⟩ (by decide)⟩
  | aliasOf target => rw [hb] at hfilled; exact hfilled.elim
  | interface ms => rw [hb] at hfilled; exact hfilled.elim

end Archive

end ClientTypes

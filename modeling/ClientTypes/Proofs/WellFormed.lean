import ClientTypes.Proofs.Opacity

/-!
# Everything is well-formed

Whatever resolution answers and registers is well-formed, at any depth of nesting: the properties of
a struct have names of their own, the methods of an interface are listed in ascending order of their
names, and an opaque value may be absent. Members that are copied out of the registry, by promotion
or by embedding, are well-formed because what is registered is. What is put together from them is
tidied up anew.

## Main definitions

* `Shape.Tidy`, `Body.Tidy` — distinct properties and ascending methods in one layer
* `Descriptor.WellFormed`, `Body.WellFormed` — all layers are tidy, and opaque values may be absent
* `Resolver.Forms` — a computation that answers with a well-formed descriptor

The main statement is `wellFormed_session`.
-/

namespace ClientTypes

/-! ## Well-formed descriptors -/

/-- The names of properties are distinct, and those of methods are strictly ascending. -/
def Shape.Tidy : Shape Descriptor → Prop
  | .object ps => (ps.map (·.name)).Nodup
  | .interface ms => (ms.map (·.name)).Pairwise (· < ·)
  | _ => True

/-- The same of the members of a definition. -/
def Body.Tidy : Body → Prop
  | .struct ps => (ps.map (·.name)).Nodup
  | .interface ms => (ms.map (·.name)).Pairwise (· < ·)
  | .aliasOf _ => True

/-- The shape is tidy, the value may be absent if it is opaque, and so it is with all parts. -/
inductive Descriptor.WellFormed : Descriptor → Prop
  | intro {d : Descriptor} : d.shape.Tidy → d.Lax → (∀ t ∈ d.parts, WellFormed t) → WellFormed d

/-- The members are tidy, and all that a body is made of is well-formed. -/
structure Body.WellFormed (b : Body) : Prop where
  tidy : b.Tidy
  types : ∀ t ∈ b.types, t.WellFormed

/-- Every definition has a well-formed body. -/
def Registry.WellFormed (reg : Registry) : Prop := ∀ d ∈ reg.definitions, d.body.WellFormed

namespace Descriptor

variable {d k v : Descriptor}

theorem WellFormed.parts (h : d.WellFormed) : ∀ t ∈ d.parts, t.WellFormed := by
  cases h with
  | intro _ _ hparts => exact hparts

theorem wellFormed_of_parts_eq_nil (hs : d.shape.Tidy) (hl : d.Lax) (hd : d.parts = []) :
    d.WellFormed :=
  .intro hs hl (by simp [hd])

theorem wellFormed_builtin (b : Builtin) : (builtin b).WellFormed :=
  wellFormed_of_parts_eq_nil trivial (lax_of_isOpaque rfl) rfl

theorem wellFormed_bareOpaque : bareOpaque.WellFormed :=
  wellFormed_of_parts_eq_nil trivial lax_bareOpaque rfl

theorem wellFormed_opaqueAs (q : QName) : (opaqueAs q).WellFormed :=
  wellFormed_of_parts_eq_nil trivial (lax_opaqueAs q) rfl

theorem wellFormed_named (q : QName) : (named q).WellFormed :=
  wellFormed_of_parts_eq_nil trivial (lax_of_isOpaque rfl) rfl

theorem WellFormed.withPointers (h : d.WellFormed) (pointers : Nat) :
    (d.withPointers pointers).WellFormed := by
  cases h with
  | intro hs hl hparts => exact .intro hs (hl.withPointers pointers) hparts

theorem WellFormed.array (h : d.WellFormed) : (array d).WellFormed :=
  .intro trivial (lax_of_isOpaque rfl) fun t ht => by
    obtain rfl : t = d := by simpa [Descriptor.array, Descriptor.parts, Shape.parts] using ht
    exact h

theorem WellFormed.map (hk : k.WellFormed) (hv : v.WellFormed) : (map k v).WellFormed :=
  .intro trivial (lax_of_isOpaque rfl) fun t ht => by
    obtain rfl | rfl : t = k ∨ t = v := by
      simpa [Descriptor.map, Descriptor.parts, Shape.parts] using ht
    · exact hk
    · exact hv

theorem Elementary.wellFormed (h : d.Elementary) : d.WellFormed := by
  induction h with
  | builtin b => exact wellFormed_builtin b
  | bareOpaque => exact wellFormed_bareOpaque
  | substitute s =>
    have hl := s.elementary_descriptor.lax
    obtain ⟨target, nullable⟩ := s
    cases target <;> exact wellFormed_of_parts_eq_nil trivial hl rfl
  | withPointers n _ ih => exact ih.withPointers n
  | array _ ih => exact ih.array
  | map _ _ ihk ihv => exact ihk.map ihv

end Descriptor

/-! ## Well-formed bodies -/

namespace Body

variable {b : Body} {t : Descriptor}

theorem wellFormed_aliasOf (h : t.WellFormed) : (aliasOf t).WellFormed where
  tidy := trivial
  types u hu := by
    obtain rfl := List.mem_singleton.1 hu
    exact h

theorem wellFormed_of_stub? {k : Kind} {stub : Body} (h : k.stub? = some stub) :
    stub.WellFormed := by
  obtain rfl | rfl := Kind.stub?_cases h
  · exact ⟨List.nodup_nil, by simp [types]⟩
  · exact ⟨List.Pairwise.nil, by simp [types]⟩

theorem WellFormed.inlined (h : b.WellFormed) : b.inlined.WellFormed := by
  cases b with
  | struct ps => exact .intro h.tidy (Descriptor.lax_of_isOpaque rfl) h.types
  | aliasOf t => exact h.types t (List.mem_singleton.2 rfl)
  | interface ms =>
    cases ms with
    | nil => exact Descriptor.wellFormed_bareOpaque
    | cons m ms => exact .intro h.tidy (Descriptor.lax_of_isOpaque rfl) h.types

end Body

/-! ## Well-formed registries -/

namespace Registry

variable {reg : Registry} {d : Descriptor}

theorem WellFormed.merge (h : reg.WellFormed) {e : Definition} (he : e.body.WellFormed) :
    (reg.merge e).WellFormed :=
  forall_mem_merge h he

theorem WellFormed.register {c : Chain} (h : c.registry.WellFormed) {e : Definition}
    (he : e.body.WellFormed) : (c.register e).registry.WellFormed := by
  rw [Chain.registry_register]
  exact h.merge he

theorem WellFormed.complete {c : Chain} (h : c.registry.WellFormed) {e : Definition}
    (he : e.body.WellFormed) : (c.complete e).registry.WellFormed := by
  unfold WellFormed
  rw [Chain.registry_complete, definitions_markExpanded]
  exact h.merge he

/-! ## Members that are copied -/

/-- Properties are promoted from the answer itself, or from behind its name. -/
theorem WellFormed.promotedBy (h : reg.WellFormed) (hd : d.WellFormed)
    {ps : List (Property Descriptor)} (hps : reg.promotedBy d = some ps) :
    ∀ x ∈ ps, x.type.WellFormed := by
  unfold Registry.promotedBy at hps
  split at hps
  · next qs hshape =>
    obtain rfl := Option.some.inj hps
    intro x hx
    refine hd.parts x.type ?_
    rw [Descriptor.parts, hshape]
    exact List.mem_map_of_mem hx
  · obtain ⟨e, he, hbody⟩ := exists_struct_of_structFrom hps
    have hwell := (h e he).types
    rw [hbody] at hwell
    exact fun x hx => hwell x.type (List.mem_map_of_mem hx)
  · simp at hps

/-- Methods are embedded from the answer itself, or from behind its name. -/
theorem WellFormed.methodsBy (h : reg.WellFormed) (hd : d.WellFormed) :
    ∀ m ∈ reg.methodsBy d, ∀ t ∈ m.call.parts, t.WellFormed := by
  intro m hm t ht
  unfold Registry.methodsBy at hm
  split at hm
  · next ms hshape =>
    refine hd.parts t ?_
    rw [Descriptor.parts, hshape]
    exact List.mem_flatMap.2 ⟨m, hm, ht⟩
  · split at hm
    · next ms hb =>
      obtain ⟨e, he, hbody⟩ := Option.map_eq_some_iff.1 hb
      have hwell := (h e (mem_of_get? he)).types t
      rw [hbody] at hwell
      exact hwell (List.mem_flatMap.2 ⟨m, hm, ht⟩)
    · simp at hm
  · simp at hm

end Registry

namespace Resolver

/-! ## Members that are selected -/

theorem nodup_selectEntries (entries : List Entry) :
    ((selectEntries entries).map (·.name)).Nodup :=
  nodup_map_distinctOn _ _

theorem pairwise_lt_selectMethods (declared embedded : List (MethodShape Descriptor)) :
    ((selectMethods declared embedded).map (·.name)).Pairwise (· < ·) := by
  let before (a b : MethodShape Descriptor) : Bool := decide (a.name ≤ b.name)
  let distinct := distinctOn (·.name) (declared.reverse ++ embedded)
  have hsorted : (distinct.mergeSort before).Pairwise fun a b => before a b = true := by
    refine List.pairwise_mergeSort (fun a b c hab hbc => ?_) (fun a b => ?_) distinct
    · exact decide_eq_true (String.le_trans (of_decide_eq_true hab) (of_decide_eq_true hbc))
    · simpa [before] using String.le_total a.name b.name
  have hnodup : ((distinct.mergeSort before).map (·.name)).Nodup :=
    ((List.mergeSort_perm distinct before).map _).nodup_iff.2 (nodup_map_distinctOn _ _)
  exact pairwise_lt_of_le (List.pairwise_map.2 (hsorted.imp of_decide_eq_true)) hnodup

/-! ## Resolution -/

/-- The registry stays well-formed. -/
def formLaw : Law Chain := Chain.law fun c => c.registry.WellFormed

/-- Keeps the registry well-formed and answers with a well-formed descriptor. -/
def Forms (act : Resolving Descriptor) : Prop := formLaw.Yields act (·.WellFormed)

section

variable {r : Resolver} {inner : TypeId → Resolving Descriptor} (h : ∀ i, Forms (inner i))

include h

theorem forms_resolveItem (v : Variable) : Forms (r.resolveItem inner v) := by
  unfold resolveItem
  split
  · next key value _ _ =>
    split
    · exact .bind (h v.type) fun d hd => .pure (hd.withPointers _)
    · refine .bind (h key) fun k hk => .bind (h value) fun d hd => ?_
      exact .pure ((hk.map (hd.withPointers _)).withPointers _)
  · exact .bind (h v.type) fun d hd => .pure (hd.withPointers _)

theorem forms_resolveVariable (v : Variable) : Forms (r.resolveVariable inner v) := by
  unfold resolveVariable
  split
  · split
    · exact .pure ((Descriptor.wellFormed_builtin _).withPointers _)
    · exact .bind (forms_resolveItem h v.element) fun d hd => .pure (hd.array.withPointers _)
  · exact forms_resolveItem h v

omit h in
theorem wellFormed_stringEncoded (registry : Registry) {d : Descriptor} (hd : d.WellFormed) :
    (stringEncoded registry d).WellFormed := by
  have hcases (quotable : Bool) :
      (if quotable then { d with shape := .builtin .string } else d : Descriptor).WellFormed := by
    cases quotable with
    | true =>
      exact Descriptor.wellFormed_of_parts_eq_nil trivial (Descriptor.lax_of_isOpaque rfl) rfl
    | false => exact hd
  exact hcases _

theorem yields_property (f : Field) (wire : WireField) :
    formLaw.Yields (r.property inner f wire) fun x => x.type.WellFormed := by
  unfold property
  refine .bind (forms_resolveVariable h f.var) fun d hd => .read fun c _ => ?_
  dsimp only
  split
  · exact wellFormed_stringEncoded _ hd
  · exact hd

theorem yields_promoted (f : Field) :
    formLaw.Yields (promoted inner f) fun o => ∀ ps, o = some ps → ∀ x ∈ ps, x.type.WellFormed := by
  cases hf : f.var.isSequence || f.var.isMap with
  | true =>
    unfold promoted
    rw [hf]
    exact .pure fun ps hps => by simp at hps
  | false =>
    rw [promoted_eq inner f hf]
    refine .bind (h f.var.type) fun d hd => .read fun c hc ps hps x hx => ?_
    obtain ⟨qs, hqs, rfl⟩ := Option.map_eq_some_iff.1 hps
    obtain ⟨y, hy, rfl⟩ := List.mem_map.1 hx
    exact Registry.WellFormed.promotedBy hc hd hqs y hy

theorem yields_fieldEntries (f : Field) :
    formLaw.Yields (r.fieldEntries inner f) fun es => ∀ e ∈ es, e.property.type.WellFormed := by
  have hown (wire : WireField) : formLaw.Yields (do return [⟨← r.property inner f wire, false⟩])
      fun (es : List Entry) => ∀ e ∈ es, e.property.type.WellFormed :=
    .bind (yields_property h f wire) fun x hx => .pure fun e he => List.mem_singleton.1 he ▸ hx
  unfold fieldEntries
  split
  · exact .pure fun e he => by simp at he
  · exact hown _
  · refine .bind (yields_promoted h f) fun o ho => ?_
    split
    · next ps =>
      refine .pure fun e he => ?_
      obtain ⟨x, hx, rfl⟩ := List.mem_map.1 he
      exact ho ps rfl x hx
    · split
      · exact hown _
      · exact .pure fun e he => by simp at he

/-- However the entries come about, the properties selected among them have distinct names. -/
theorem yields_properties (fields : List Field) :
    formLaw.Yields (r.properties inner fields) fun ps => (Body.struct ps).WellFormed := by
  unfold properties
  refine .bind (.mapM fields fun f _ => yields_fieldEntries h f) fun ess hess => ?_
  refine .pure ⟨nodup_selectEntries _, fun t ht => ?_⟩
  obtain ⟨x, hx, rfl⟩ := List.mem_map.1 ht
  obtain ⟨e, he, rfl⟩ := exists_mem_of_mem_selectEntries hx
  obtain ⟨es, hes, he⟩ := List.mem_flatten.1 he
  exact hess es hes e he

theorem yields_params (slot : Slot) (vars : List Variable) :
    formLaw.Yields (r.params inner slot vars) fun ps => ∀ x ∈ ps, x.type.WellFormed := by
  unfold params
  refine .bind (.mapM vars fun v _ => forms_resolveVariable h v) fun ts hts => ?_
  exact .pure fun x hx => hts _ (type_mem_of_mem_nameParams hx)

theorem yields_callShape (s : Signature) :
    formLaw.Yields (r.callShape inner s) fun call => ∀ t ∈ call.parts, t.WellFormed := by
  unfold callShape
  refine .bind (yields_params h .request s.params) fun ps hps => ?_
  refine .bind (yields_params h .response s.results) fun rs hrs => .pure fun t ht => ?_
  obtain ⟨x, hx, rfl⟩ := List.mem_map.1 ht
  rcases List.mem_append.1 hx with hx | hx
  · exact hps x hx
  · exact hrs x hx

theorem yields_embeddedMethods (embed : TypeId) :
    formLaw.Yields (embeddedMethods inner embed)
      fun ms => ∀ m ∈ ms, ∀ t ∈ m.call.parts, t.WellFormed := by
  rw [embeddedMethods_eq]
  exact .bind (h embed) fun d hd => .read fun c hc => Registry.WellFormed.methodsBy hc hd

/-- However the methods come about, the selected ones are in ascending order of their names. -/
theorem yields_methodSet (embeds : List TypeId) (methods : List InterfaceMethod) :
    formLaw.Yields (r.methodSet inner embeds methods) fun ms => (Body.interface ms).WellFormed := by
  have hdeclared (m : InterfaceMethod) :
      formLaw.Yields (do return ⟨m.name, ← r.callShape inner m.signature⟩)
        fun (m : MethodShape Descriptor) => ∀ t ∈ m.call.parts, t.WellFormed :=
    .bind (yields_callShape h m.signature) fun call hcall => .pure hcall
  unfold methodSet
  refine .bind (.mapM methods fun m _ => hdeclared m) fun ds hds => ?_
  refine .bind (.mapM embeds fun i _ => yields_embeddedMethods h i) fun ess hess => ?_
  refine .pure ⟨pairwise_lt_selectMethods _ _, fun t ht => ?_⟩
  obtain ⟨m, hm, ht⟩ := List.mem_flatMap.1 ht
  rcases mem_of_mem_selectMethods hm with hm | hm
  · exact hds m hm t ht
  · obtain ⟨es, hes, hm⟩ := List.mem_flatten.1 hm
    exact hess es hes m hm t ht

theorem forms_aliasBase (id : TypeId) (links : AliasLinks) :
    Forms (r.aliasBase inner id links) := by
  cases hl : r.usableLink? id links with
  | some link =>
    rw [aliasBase_of_link inner hl]
    exact h link
  | none =>
    obtain ⟨d, hd, hbase⟩ := aliasBase_of_no_link inner hl
    rw [hbase]
    exact .pure hd.wellFormed

theorem forms_arrayShape (a : ArrayType) : Forms (r.arrayShape inner a) := by
  unfold arrayShape
  split
  · exact .pure (Descriptor.wellFormed_builtin _)
  · exact .bind (h a.elem) fun d hd => .pure (hd.withPointers _).array

theorem yields_body (id : TypeId) (k : Kind) :
    formLaw.Yields (r.body inner id k) (·.WellFormed) := by
  cases k with
  | scalar s => exact .pure (Body.wellFormed_aliasOf s.elementary_descriptor.wellFormed)
  | struct fields => exact .map (yields_properties h fields) fun _ hps => hps
  | interface embeds methods => exact .map (yields_methodSet h embeds methods) fun _ hms => hms
  | aliasOf links => exact .map (forms_aliasBase h id links) fun _ => Body.wellFormed_aliasOf
  | array a => exact .map (forms_arrayShape h a) fun _ => Body.wellFormed_aliasOf
  | map m =>
    refine .map (.bind (h m.key) fun k hk => .bind (h m.value) fun d hd => ?_)
      fun _ => Body.wellFormed_aliasOf
    exact .pure (hk.map (hd.withPointers _))
  | function s =>
    refine .bind (yields_callShape h s) fun call hcall => .pure (Body.wellFormed_aliasOf ?_)
    exact .intro trivial (Descriptor.lax_of_isOpaque rfl) hcall
  | channel | any => exact .pure (Body.wellFormed_aliasOf Descriptor.wellFormed_bareOpaque)

end

/-! ## Types -/

variable {r : Resolver} {inner : TypeId → Resolving Descriptor} {id : TypeId} {decl : TypeDecl}
  {name : QName}

theorem forms_hide : Forms (hide id decl) := by
  intro c hc _
  cases hname : decl.qname? with
  | none =>
    rw [hide_of_unnamed hname]
    exact ⟨hc, .refl c, Descriptor.wellFormed_bareOpaque⟩
  | some name =>
    rw [run_hide_of_named hname]
    have hbody := Body.wellFormed_aliasOf Descriptor.wellFormed_bareOpaque
    exact ⟨Registry.WellFormed.register hc hbody, Chain.extends_register _ c,
      Descriptor.wellFormed_opaqueAs name⟩

theorem forms_refer : Forms (Chain.refer name) := by
  intro c hc _
  refine ⟨?_, Chain.extends_note name c, Descriptor.wellFormed_named name⟩
  change Registry.WellFormed (c.note name).registry
  rwa [Chain.registry_note]

theorem forms_referBack : Forms (referBack id decl name) := by
  intro c hc hp
  rw [run_referBack]
  split
  · next stub hstub =>
    exact ⟨Registry.WellFormed.register hc (Body.wellFormed_of_stub? hstub),
      Chain.extends_register _ c, Descriptor.wellFormed_named name⟩
  · exact forms_refer c hc hp

theorem forms_meet {expansion : TypeId → TypeDecl → Resolving Descriptor}
    (h : ∀ decl, Forms (expansion id decl)) : Forms (r.meet expansion id) := by
  have hall {pre : Chain → Prop} {act : Resolving Descriptor} (h : Forms act) :
      formLaw.Keeps pre act fun d _ => d.WellFormed :=
    fun c hc _ => h c hc trivial
  unfold Forms Law.Yields
  exact .meet (fun _ _ _ _ => (SubstitutionTable.elementary_guess _ _).wellFormed)
    (fun _ s _ _ _ _ _ => s.elementary_descriptor.wellFormed) (fun _ => hall forms_hide)
    (fun _ _ _ => hall forms_referBack) (fun _ _ _ => hall forms_refer)
    (fun _ _ _ _ _ _ _ => Descriptor.wellFormed_bareOpaque) fun decl => hall (h decl)

theorem forms_expand (h : ∀ i, Forms (inner i)) : Forms (r.expand inner id decl) := by
  unfold Forms formLaw Law.Yields
  refine .expand (yields_body h id decl.kind) (fun _ c hc _ => ⟨hc, trivial, ?_⟩)
    fun name _ c hc _ => ⟨hc, trivial, ?_⟩
  · exact fun b c' hc' _ hb => ⟨hc', hb.inlined⟩
  · intro b c' hc' _ hb
    exact ⟨Registry.WellFormed.complete (c := c.leave c') hc' hb,
      Descriptor.wellFormed_named name⟩

theorem forms_resolveType (n : Nat) (id : TypeId) : Forms (r.resolveType n id) := by
  induction n generalizing id with
  | zero => exact forms_meet fun _ => .pure Descriptor.wellFormed_bareOpaque
  | succ n ih => exact forms_meet fun _ => forms_expand ih

theorem forms_answer (r : Resolver) (query : Query) : Forms (r.answer query) := by
  cases query with
  | type id pointers =>
    exact .bind (forms_resolveType r.depthLimit id) fun d hd => .pure (hd.withPointers pointers)
  | «variable» v => exact forms_resolveVariable (forms_resolveType r.depthLimit) v

/-! ## Sessions -/

theorem yields_session (r : Resolver) (requests : List Request) :
    (Registry.law Registry.WellFormed).Yields (r.session requests)
      fun answers => ∀ types ∈ answers, ∀ d ∈ types, d.WellFormed := by
  refine .mapM requests fun request _ => ?_
  intro registry hregistry _
  obtain ⟨hinv, hle, htypes⟩ := Law.Yields.mapM (L := formLaw) request.queries
    (fun query _ => r.forms_answer query)
    { ns := request.ns, direction := request.direction, registry } hregistry trivial
  exact ⟨hinv, hle.registry, htypes⟩

/-- In a session of any requests every answer is well-formed, and so is the body of every
definition. Each definition is looked up under its own name, which is the qualified name of the type
that it comes from. -/
theorem wellFormed_session (r : Resolver) (requests : List Request) :
    let out := (r.session requests).run {}
    (∀ types ∈ out.1, ∀ d ∈ types, d.WellFormed) ∧
    (∀ d ∈ out.2.definitions, d.body.WellFormed) ∧
    (∀ d ∈ out.2.definitions, out.2.get? d.name = some d) ∧
    ∀ q d, out.2.get? q = some d →
      d.name = q ∧ ∃ decl, r.project.type? d.typeId = some decl ∧ decl.qname? = some q := by
  intro out
  obtain ⟨hbodies, -, hanswers⟩ :=
    r.yields_session requests {} (by simp [Registry.law, Registry.WellFormed]) trivial
  obtain ⟨hready, -, -⟩ := keeps_session r.steps_unique requests {}
    (.empty (by simp [Registry.Unique])) trivial
  have hunique : out.2.Unique := hready.rests.registry
  refine ⟨hanswers, hbodies, fun d hd => hunique.get?_eq_some_iff.2 ⟨hd, rfl⟩, fun q d hd => ?_⟩
  obtain ⟨decl, hdecl, hname, -, -⟩ := hready.rests.exists_origin (Registry.mem_of_get? hd)
  have hq : d.name = q := Registry.name_of_get? hd
  exact ⟨hq, decl, hdecl, hq ▸ hname⟩

end Resolver

/-! ## Passes -/

namespace Pass

variable {ns : String} {direction : Direction} {act : Resolving Descriptor}

theorem keeps_wellFormed_root (h : Resolver.Forms act) :
    (law Registry.WellFormed fun _ _ => True).Keeps (fun _ => True) (root ns direction act)
      fun d _ => d.WellFormed := by
  have hstable (n : String) : (Registry.law Registry.WellFormed).Stable fun _ => True :=
    Law.stable_const True
  refine keeps_root (P := fun (d : Descriptor) _ => d.WellFormed) hstable ?_
  intro registry hregistry
  obtain ⟨hinv, hle, hd⟩ := h { ns, direction, registry } hregistry trivial
  exact ⟨hinv, hle.registry, hd, fun _ _ => trivial⟩

theorem preserves_wellFormed (h : Resolver.Forms act) :
    Preserves Registry.WellFormed direction act := by
  intro ns registry hregistry
  obtain ⟨hinv, hle, -⟩ := h { ns, direction, registry } hregistry trivial
  exact ⟨hinv, hle.registry⟩

theorem keeps_wellFormed_contract (p : Pass) (c : Contract) :
    (Registry.law Registry.WellFormed).Keeps (fun _ => True) (p.contract c)
      (p.Settles (fun d _ => d.WellFormed) (fun _ _ => True) c) := by
  have hstable (d : Descriptor) : (Registry.law Registry.WellFormed).Stable fun _ => d.WellFormed :=
    Law.stable_const _
  have hresolve (id : TypeId) : Resolver.Forms (p.resolver.resolve id 0) :=
    p.resolver.forms_answer (.type id 0)
  have hroot (v : Variable) : Resolver.Forms (p.resolver.resolveRoot v) :=
    p.resolver.forms_answer (.variable v)
  refine keeps_contract hstable (fun _ => Law.stable_const True) (fun op _ => ?_) fun id _ => ?_
  · exact keeps_operation (fun d => Law.stable_const _)
      (fun v _ => keeps_wellFormed_root (hroot v)) (fun v _ => keeps_wellFormed_root (hroot v))
      fun id _ => keeps_wellFormed_root (hresolve id)
  · exact (preserves_wellFormed (hresolve id)).fill

end Pass

/-- All that a pass is made of is well-formed: every descriptor of an operation, and the body of
every definition. -/
theorem wellFormed_generate (project : Project) (config : Config) (contracts : List Contract) :
    let g := generate project config contracts
    (∀ c ∈ g.contracts, ∀ o ∈ c.operations, ∀ d ∈ o.types, d.WellFormed) ∧
    ∀ d ∈ g.table.definitions, d.body.WellFormed := by
  let p := Pass.make project config
  have hempty : Registry.WellFormed {} := by simp [Registry.WellFormed]
  have hstable (d : Descriptor) : (Registry.law Registry.WellFormed).Stable fun _ => d.WellFormed :=
    Law.stable_const _
  obtain ⟨hbodies, -, hcontracts⟩ := Pass.keeps_contracts hstable
    (fun _ _ => Law.stable_const True)
    (fun c (_ : c ∈ contracts) => p.keeps_wellFormed_contract c) hempty
  refine ⟨fun c hc => ?_, fun d hd => hbodies d (Registry.mem_definitions_finalize.1 hd)⟩
  obtain ⟨_, -, hc⟩ := exists_of_mem_right hcontracts hc
  exact hc.operations

end ClientTypes

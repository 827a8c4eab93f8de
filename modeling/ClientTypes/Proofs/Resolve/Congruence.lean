import ClientTypes.Proofs.Registry.Growth
import ClientTypes.Proofs.Resolve.Aspect
import ClientTypes.Proofs.Twin

/-!
# Like parts make like bodies

The body of a type is resolved twice, in two chains. If what it visits gets the same answers in
both, as far as an aspect shows, and what it reads of the registries is the same, then so is the
aspect of the two bodies.

The main statement is `twin_body`.
-/

namespace ClientTypes

namespace Resolver

variable {r : Resolver} {L : Law Chain} {a : Aspect} {pre₁ pre₂ : Chain → Prop}
  {inner₁ inner₂ : TypeId → Resolving Descriptor}

/-- The same answer, if types matter. -/
def Same (a : Aspect) (d₁ d₂ : Descriptor) : Prop := a = .whole → d₁ = d₂

/-- Both resolve an id, and to the same if types matter. -/
def Concur (L : Law Chain) (a : Aspect) (pre₁ pre₂ : Chain → Prop)
    (m₁ m₂ : Resolving Descriptor) : Prop :=
  L.Twin pre₁ pre₂ m₁ m₂ fun d₁ d₂ _ _ => Same a d₁ d₂

/-- Both resolve an id, and promise the same behind the answers. -/
def ConcurBehind (L : Law Chain) (a : Aspect) (pre₁ pre₂ : Chain → Prop)
    (m₁ m₂ : Resolving Descriptor) : Prop :=
  L.Twin pre₁ pre₂ m₁ m₂ fun d₁ d₂ c₁ c₂ => a.Alike c₁.registry c₂.registry d₁ d₂

/-! ## Variables -/

theorem concur_resolveItem (hpre₁ : L.Stable pre₁) (hpre₂ : L.Stable pre₂) (v : Variable)
    (h : ∀ i ∈ r.itemVisits v, Concur L a pre₁ pre₂ (inner₁ i) (inner₂ i)) :
    Concur L a pre₁ pre₂ (r.resolveItem inner₁ v) (r.resolveItem inner₂ v) := by
  unfold resolveItem
  unfold itemVisits at h
  split
  · next key value hk hv =>
    simp only [hk, hv] at h
    split
    · next hm =>
      exact .bind hpre₁ hpre₂ (h _ (by simp [hm])) fun d₁ d₂ hd =>
        .pure fun ha => by rw [hd ha]
    · next hm =>
      simp only [hm, Bool.false_eq_true, if_false] at h
      refine .bind hpre₁ hpre₂ (h key (by simp)) fun k₁ k₂ hkey => ?_
      exact .bind hpre₁ hpre₂ (h value (by simp)) fun d₁ d₂ hd =>
        .pure fun ha => by rw [hkey ha, hd ha]
  · next hkv =>
    have hv : v.type ∈ r.itemVisits v := by
      unfold itemVisits
      split
      · exact absurd ‹_› (hkv _ _ ‹_›)
      · simp
    exact .bind hpre₁ hpre₂ (h _ hv) fun d₁ d₂ hd => .pure fun ha => by rw [hd ha]

theorem concur_resolveVariable (hpre₁ : L.Stable pre₁) (hpre₂ : L.Stable pre₂) (v : Variable)
    (h : ∀ i ∈ r.variableVisits v, Concur L a pre₁ pre₂ (inner₁ i) (inner₂ i)) :
    Concur L a pre₁ pre₂ (r.resolveVariable inner₁ v) (r.resolveVariable inner₂ v) := by
  unfold resolveVariable
  unfold variableVisits at h
  split
  · next hs =>
    simp only [hs, Bool.true_and] at h
    split
    · exact .pure fun _ => rfl
    · next hb =>
      simp only [hb, Bool.false_eq_true, if_false] at h
      exact .bind hpre₁ hpre₂ (concur_resolveItem hpre₁ hpre₂ v.element h) fun d₁ d₂ hd =>
        .pure fun ha => by rw [hd ha]
  · next hs =>
    simp only [hs, Bool.false_and, Bool.false_eq_true, if_false] at h
    exact concur_resolveItem hpre₁ hpre₂ v h

/-- The same descriptor, and behind its name the same body. -/
def SameNamed (d₁ d₂ : Descriptor) (c₁ c₂ : Chain) : Prop :=
  d₁ = d₂ ∧ ∀ name, d₁.shape = .named name → c₁.registry.body? name = c₂.registry.body? name

theorem sameNamed_pure {d₁ d₂ : Descriptor} (hd : d₁ = d₂) (hn : ∀ name, d₁.shape ≠ .named name) :
    L.Twin pre₁ pre₂ (pure d₁) (pure d₂) SameNamed :=
  Law.Twin.weaken (.pure (R := fun d₁ d₂ => d₁ = d₂ ∧ ∀ name, d₁.shape ≠ .named name) ⟨hd, hn⟩)
    fun _ _ _ _ _ _ h => ⟨h.1, fun name hname => absurd hname (h.2 name)⟩

/-- Maps without a name of their own have none, so that nothing is read behind them. -/
theorem sameNamed_resolveItem (hpre₁ : L.Stable pre₁) (hpre₂ : L.Stable pre₂) (v : Variable)
    (hs : v.isSequence = false)
    (h : ∀ i ∈ r.itemVisits v, Concur L .whole pre₁ pre₂ (inner₁ i) (inner₂ i))
    (hread : ∀ i ∈ r.quoted v, ConcurBehind L .whole pre₁ pre₂ (inner₁ i) (inner₂ i)) :
    L.Twin pre₁ pre₂ (r.resolveItem inner₁ v) (r.resolveItem inner₂ v) SameNamed := by
  have hbehind (hq : v.type ∈ r.quoted v) :
      L.Twin pre₁ pre₂ ((·.withPointers v.pointers) <$> inner₁ v.type)
        ((·.withPointers v.pointers) <$> inner₂ v.type) SameNamed :=
    (hread v.type hq).map fun d₁ d₂ c₁ c₂ hd =>
      ⟨by rw [(hd.behind rfl).1], (hd.behind rfl).2⟩
  unfold resolveItem
  unfold itemVisits at h
  split
  · next key value hk hv =>
    simp only [hk, hv] at h
    split
    · next hm => exact hbehind (by simp [quoted, hs, hm])
    · next hm =>
      simp only [hm, Bool.false_eq_true, if_false] at h
      refine .bind hpre₁ hpre₂ (h key (by simp)) fun k₁ k₂ hkey => ?_
      exact .bind hpre₁ hpre₂ (h value (by simp)) fun d₁ d₂ hd =>
        sameNamed_pure (by rw [hkey rfl, hd rfl]) fun _ => by simp [Descriptor.map]
  · next hkv =>
    exact hbehind (by simp [quoted, hs, Variable.isMap_eq_false hkv])

/-- Sequences have no name either. -/
theorem sameNamed_resolveVariable (hpre₁ : L.Stable pre₁) (hpre₂ : L.Stable pre₂) (v : Variable)
    (h : ∀ i ∈ r.variableVisits v, Concur L .whole pre₁ pre₂ (inner₁ i) (inner₂ i))
    (hread : ∀ i ∈ r.quoted v, ConcurBehind L .whole pre₁ pre₂ (inner₁ i) (inner₂ i)) :
    L.Twin pre₁ pre₂ (r.resolveVariable inner₁ v) (r.resolveVariable inner₂ v) SameNamed := by
  unfold resolveVariable
  unfold variableVisits at h
  split
  · next hs =>
    simp only [hs, Bool.true_and] at h
    split
    · exact sameNamed_pure rfl fun _ => by simp [Descriptor.builtin]
    · next hb =>
      simp only [hb, Bool.false_eq_true, if_false] at h
      exact .bind hpre₁ hpre₂ (concur_resolveItem hpre₁ hpre₂ v.element h) fun d₁ d₂ hd =>
        sameNamed_pure (by rw [hd rfl]) fun _ => by simp [Descriptor.array]
  · next hs =>
    simp only [hs, Bool.false_and, Bool.false_eq_true, if_false] at h
    exact sameNamed_resolveItem hpre₁ hpre₂ v (by simpa using hs) h hread

/-! ## Properties -/

theorem twin_property (hpre₁ : L.Stable pre₁) (hpre₂ : L.Stable pre₂) (f : Field)
    (wire : WireField)
    (h : ∀ i ∈ r.variableVisits f.var, Concur L a pre₁ pre₂ (inner₁ i) (inner₂ i))
    (hread : ∀ i ∈ r.ownReads a f wire, ConcurBehind L a pre₁ pre₂ (inner₁ i) (inner₂ i)) :
    L.Twin pre₁ pre₂ (r.property inner₁ f wire) (r.property inner₂ f wire)
      fun x₁ x₂ _ _ => a.property x₁ = a.property x₂ := by
  unfold property
  cases a with
  | outline =>
    exact .bind_read (concur_resolveVariable hpre₁ hpre₂ f.var h) fun _ _ _ _ _ _ _ => rfl
  | whole =>
    cases hs : wire.asString with
    | true =>
      refine .bind_read (sameNamed_resolveVariable hpre₁ hpre₂ f.var h fun i hi => hread i ?_) ?_
      · simpa [ownReads, hs] using hi
      · rintro d _ c₁ c₂ - - ⟨rfl, hbody⟩
        simp only [if_true, stringEncoded_congr hbody]
    | false =>
      refine .bind_read (concur_resolveVariable hpre₁ hpre₂ f.var h) ?_
      intro d₁ d₂ c₁ c₂ _ _ hd
      rw [hd rfl]
      rfl

/-- The same promoted properties, if any. -/
def AlikePromoted (a : Aspect) (o₁ o₂ : Option (List (Property Descriptor))) : Prop :=
  o₁.map (List.map a.property) = o₂.map (List.map a.property)

theorem twin_promoted (f : Field)
    (h : ∀ i ∈ spliced f, ConcurBehind L a pre₁ pre₂ (inner₁ i) (inner₂ i)) :
    L.Twin pre₁ pre₂ (promoted inner₁ f) (promoted inner₂ f)
      fun o₁ o₂ _ _ => AlikePromoted a o₁ o₂ := by
  cases hf : f.var.isSequence || f.var.isMap with
  | true =>
    unfold promoted
    rw [hf]
    exact .pure rfl
  | false =>
    rw [promoted_eq inner₁ f hf, promoted_eq inner₂ f hf]
    refine .bind_read (h f.var.type (by simp [spliced, hf])) ?_
    intro d₁ d₂ c₁ c₂ _ _ hd
    let loosen (p : Property Descriptor) : Property Descriptor :=
      { p with optional := p.optional || 0 < f.var.pointers }
    have hloosen (ps : List (Property Descriptor)) :
        (ps.map loosen).map a.property = (ps.map a.property).map loosen := by
      rw [List.map_map, List.map_map]
      refine List.map_congr_left fun p _ => ?_
      exact (Aspect.property_optional p _).trans (by simp [loosen])
    calc ((c₁.registry.promotedBy d₁).map (List.map loosen)).map (List.map a.property)
        = ((c₁.registry.promotedBy d₁).map (List.map a.property)).map (List.map loosen) := by
          simp only [Option.map_map, Function.comp_def, hloosen]
      _ = ((c₂.registry.promotedBy d₂).map (List.map a.property)).map (List.map loosen) := by
          rw [hd.promoted]
      _ = ((c₂.registry.promotedBy d₂).map (List.map loosen)).map (List.map a.property) := by
          simp only [Option.map_map, Function.comp_def, hloosen]

/-- What an aspect shows of an entry. -/
def Entry.seen (a : Aspect) (e : Entry) : Entry := ⟨a.property e.property, e.promoted⟩

theorem twin_fieldEntries (hpre₁ : L.Stable pre₁) (hpre₂ : L.Stable pre₂) (f : Field)
    (h : ∀ i ∈ r.fieldVisits f, Concur L a pre₁ pre₂ (inner₁ i) (inner₂ i))
    (hread : ∀ i ∈ r.fieldReads a f, ConcurBehind L a pre₁ pre₂ (inner₁ i) (inner₂ i)) :
    L.Twin pre₁ pre₂ (r.fieldEntries inner₁ f) (r.fieldEntries inner₂ f)
      fun es₁ es₂ _ _ => es₁.map (Entry.seen a) = es₂.map (Entry.seen a) := by
  have hpure {es₁ es₂ : List Entry} (h : es₁.map (Entry.seen a) = es₂.map (Entry.seen a)) :
      L.Twin pre₁ pre₂ (pure es₁) (pure es₂)
        fun es₁ es₂ _ _ => es₁.map (Entry.seen a) = es₂.map (Entry.seen a) :=
    .pure h
  unfold fieldEntries
  unfold fieldVisits at h
  unfold fieldReads at hread
  split
  · exact hpure rfl
  · next wire hr =>
    simp only [hr] at h hread
    refine .bind hpre₁ hpre₂ (twin_property hpre₁ hpre₂ f wire h hread) fun x₁ x₂ hx => hpure ?_
    simp [Entry.seen, hx]
  · next fallback hr =>
    simp only [hr] at h hread
    refine .bind hpre₁ hpre₂ (twin_promoted f fun i hi => hread i (List.mem_append_left _ hi))
      fun o₁ o₂ ho => ?_
    match o₁, o₂, ho with
    | some ps₁, some ps₂, ho =>
      refine hpure ?_
      have hps : ps₁.map a.property = ps₂.map a.property := by simpa [AlikePromoted] using ho
      have hentry (ps : List (Property Descriptor)) :
          (ps.map (Entry.mk · true)).map (Entry.seen a) =
            (ps.map a.property).map (Entry.mk · true) := by
        simp [Entry.seen]
      rw [hentry, hentry, hps]
    | none, none, _ =>
      dsimp only
      split
      · next he =>
        refine .bind hpre₁ hpre₂ (twin_property hpre₁ hpre₂ f fallback (fun i hi => h i ?_)
          fun i hi => hread i ?_) fun x₁ x₂ hx => hpure ?_
        · exact List.mem_append_right _ (by simpa [he] using hi)
        · exact List.mem_append_right _ (by simpa [he] using hi)
        · simp [Entry.seen, hx]
      · exact hpure rfl

/-- Which entries are selected depends on names and on what is promoted, and both are seen. -/
theorem map_selectEntries (es : List Entry) :
    (selectEntries es).map a.property = selectEntries (es.map (Entry.seen a)) := by
  have hname (e : Entry) : (e.seen a).property.name = e.property.name := Aspect.name_property _
  unfold selectEntries
  dsimp only
  rw [map_distinctOn fun p => Aspect.name_property p, List.filter_map, List.filter_map,
    List.map_map, List.map_map, List.map_map]
  simp only [Function.comp_def, hname]
  rfl

theorem twin_properties (hpre₁ : L.Stable pre₁) (hpre₂ : L.Stable pre₂) (fields : List Field)
    (h : ∀ i ∈ fields.flatMap r.fieldVisits, Concur L a pre₁ pre₂ (inner₁ i) (inner₂ i))
    (hread : ∀ i ∈ fields.flatMap (r.fieldReads a),
      ConcurBehind L a pre₁ pre₂ (inner₁ i) (inner₂ i)) :
    L.Twin pre₁ pre₂ (r.properties inner₁ fields) (r.properties inner₂ fields)
      fun ps₁ ps₂ _ _ => ps₁.map a.property = ps₂.map a.property := by
  unfold properties
  refine .bind hpre₁ hpre₂ (.mapM hpre₁ hpre₂ fields fun f hf => twin_fieldEntries hpre₁ hpre₂ f
    (fun i hi => h i (List.mem_flatMap.2 ⟨f, hf, hi⟩))
    fun i hi => hread i (List.mem_flatMap.2 ⟨f, hf, hi⟩)) fun ess₁ ess₂ hess => ?_
  refine .pure ?_
  have hflat : ess₁.flatten.map (Entry.seen a) = ess₂.flatten.map (Entry.seen a) := by
    induction hess with
    | nil => rfl
    | cons hes _ ih => simp [hes, ih]
  rw [map_selectEntries, map_selectEntries, hflat]

/-! ## Methods -/

theorem twin_params (hpre₁ : L.Stable pre₁) (hpre₂ : L.Stable pre₂) (slot : Slot)
    (vars : List Variable)
    (h : ∀ i ∈ vars.flatMap r.variableVisits, Concur L a pre₁ pre₂ (inner₁ i) (inner₂ i)) :
    L.Twin pre₁ pre₂ (r.params inner₁ slot vars) (r.params inner₂ slot vars)
      fun ps₁ ps₂ _ _ => a = .whole → ps₁ = ps₂ := by
  unfold params
  refine .bind hpre₁ hpre₂ (.mapM hpre₁ hpre₂ vars fun v hv => concur_resolveVariable hpre₁ hpre₂ v
    fun i hi => h i (List.mem_flatMap.2 ⟨v, hv, hi⟩)) fun ts₁ ts₂ hts => .pure fun ha => ?_
  have : ts₁ = ts₂ := List.forall₂_eq_eq_eq ▸ hts.imp fun _ _ hd => hd ha
  rw [this]

theorem twin_callShape (hpre₁ : L.Stable pre₁) (hpre₂ : L.Stable pre₂) (s : Signature)
    (h : ∀ i ∈ r.callVisits s, Concur L a pre₁ pre₂ (inner₁ i) (inner₂ i)) :
    L.Twin pre₁ pre₂ (r.callShape inner₁ s) (r.callShape inner₂ s)
      fun call₁ call₂ _ _ => a = .whole → call₁ = call₂ := by
  unfold callShape
  unfold callVisits at h
  rw [List.flatMap_append] at h
  refine .bind hpre₁ hpre₂ (twin_params hpre₁ hpre₂ .request s.params
    fun i hi => h i (List.mem_append_left _ hi)) fun ps₁ ps₂ hps => ?_
  refine .bind hpre₁ hpre₂ (twin_params hpre₁ hpre₂ .response s.results
    fun i hi => h i (List.mem_append_right _ hi)) fun rs₁ rs₂ hrs => .pure fun ha => ?_
  rw [hps ha, hrs ha]

theorem twin_embeddedMethods (embed : TypeId)
    (h : Concur L a pre₁ pre₂ (inner₁ embed) (inner₂ embed))
    (hread : a = .whole → ConcurBehind L a pre₁ pre₂ (inner₁ embed) (inner₂ embed)) :
    L.Twin pre₁ pre₂ (embeddedMethods inner₁ embed) (embeddedMethods inner₂ embed)
      fun ms₁ ms₂ _ _ => a = .whole → ms₁ = ms₂ := by
  rw [embeddedMethods_eq, embeddedMethods_eq]
  cases a with
  | outline => exact .bind_read h fun _ _ _ _ _ _ _ ha => by simp at ha
  | whole =>
    refine .bind_read (hread rfl) fun d₁ d₂ c₁ c₂ _ _ hd _ => ?_
    obtain ⟨rfl, hbody⟩ := hd.behind rfl
    exact Registry.methodsBy_congr hbody

theorem twin_methodSet (hpre₁ : L.Stable pre₁) (hpre₂ : L.Stable pre₂) (embeds : List TypeId)
    (methods : List InterfaceMethod)
    (h : ∀ i ∈ methods.flatMap (r.callVisits ·.signature) ++ embeds,
      Concur L a pre₁ pre₂ (inner₁ i) (inner₂ i))
    (hread : a = .whole → ∀ i ∈ embeds, ConcurBehind L a pre₁ pre₂ (inner₁ i) (inner₂ i)) :
    L.Twin pre₁ pre₂ (r.methodSet inner₁ embeds methods) (r.methodSet inner₂ embeds methods)
      fun ms₁ ms₂ _ _ => a = .whole → ms₁ = ms₂ := by
  have hmethod (m : InterfaceMethod) (hm : m ∈ methods) :
      L.Twin pre₁ pre₂ (do return MethodShape.mk m.name (← r.callShape inner₁ m.signature))
        (do return MethodShape.mk m.name (← r.callShape inner₂ m.signature))
        fun m₁ m₂ _ _ => a = .whole → m₁ = m₂ := by
    refine .bind hpre₁ hpre₂ (twin_callShape hpre₁ hpre₂ m.signature fun i hi => h i ?_)
      fun call₁ call₂ hcall => .pure fun ha => by rw [hcall ha]
    exact List.mem_append_left _ (List.mem_flatMap.2 ⟨m, hm, hi⟩)
  unfold methodSet
  refine .bind hpre₁ hpre₂ (.mapM hpre₁ hpre₂ methods hmethod) fun ds₁ ds₂ hds => ?_
  refine .bind hpre₁ hpre₂ (.mapM hpre₁ hpre₂ embeds fun i hi => twin_embeddedMethods i
    (h i (List.mem_append_right _ hi)) fun ha => hread ha i hi) fun ess₁ ess₂ hess =>
      .pure fun ha => ?_
  have hds' : ds₁ = ds₂ := List.forall₂_eq_eq_eq ▸ hds.imp fun _ _ hd => hd ha
  have hess' : ess₁ = ess₂ := List.forall₂_eq_eq_eq ▸ hess.imp fun _ _ he => he ha
  rw [hds', hess']

/-! ## Bodies -/

/-- What is neither a name nor a struct in place shows in an outline as nothing at all. -/
theorem descriptor_eq_of_same {d₁ d₂ : Descriptor} (hd : Same a d₁ d₂)
    (h₁ : Aspect.outline.descriptor d₁ = .bareOpaque)
    (h₂ : Aspect.outline.descriptor d₂ = .bareOpaque) : a.descriptor d₁ = a.descriptor d₂ := by
  cases a with
  | outline => exact h₁.trans h₂.symm
  | whole => rw [hd rfl]

theorem twin_arrayShape (hpre₁ : L.Stable pre₁) (hpre₂ : L.Stable pre₂) (t : ArrayType)
    (h : ∀ i ∈ r.arrayVisits t, Concur L a pre₁ pre₂ (inner₁ i) (inner₂ i)) :
    L.Twin pre₁ pre₂ (r.arrayShape inner₁ t) (r.arrayShape inner₂ t)
      fun d₁ d₂ _ _ => a.descriptor d₁ = a.descriptor d₂ := by
  unfold arrayVisits at h
  unfold arrayShape
  split
  · exact .pure rfl
  · next hb =>
    refine .bind hpre₁ hpre₂ (h t.elem (by simp [hb])) fun d₁ d₂ hd => .pure ?_
    exact descriptor_eq_of_same (fun ha => by rw [hd ha]) rfl rfl

theorem twin_mapShape (hpre₁ : L.Stable pre₁) (hpre₂ : L.Stable pre₂) (m : MapType)
    (hk : Concur L a pre₁ pre₂ (inner₁ m.key) (inner₂ m.key))
    (hv : Concur L a pre₁ pre₂ (inner₁ m.value) (inner₂ m.value)) :
    L.Twin pre₁ pre₂ (mapShape inner₁ m) (mapShape inner₂ m)
      fun d₁ d₂ _ _ => a.descriptor d₁ = a.descriptor d₂ := by
  unfold mapShape
  refine .bind hpre₁ hpre₂ hk fun k₁ k₂ hkey => .bind hpre₁ hpre₂ hv fun d₁ d₂ hd => .pure ?_
  exact descriptor_eq_of_same (fun ha => by rw [hkey ha, hd ha]) rfl rfl

theorem twin_aliasBase (id : TypeId) (links : AliasLinks)
    (hlink : ∀ i ∈ r.usableLink? id links, L.Twin pre₁ pre₂ (inner₁ i) (inner₂ i)
      fun d₁ d₂ _ _ => a.descriptor d₁ = a.descriptor d₂) :
    L.Twin pre₁ pre₂ (r.aliasBase inner₁ id links) (r.aliasBase inner₂ id links)
      fun d₁ d₂ _ _ => a.descriptor d₁ = a.descriptor d₂ := by
  unfold aliasBase
  split
  · next hl => exact hlink _ hl
  · exact .pure rfl
  · exact .pure rfl
  · exact .pure rfl
  · exact .pure rfl

/-- The body of a type is the same in both chains, as far as an aspect shows. -/
theorem twin_body (hpre₁ : L.Stable pre₁) (hpre₂ : L.Stable pre₂) (id : TypeId) (k : Kind)
    (h : ∀ i ∈ r.visits id k, Concur L a pre₁ pre₂ (inner₁ i) (inner₂ i))
    (hread : ∀ i ∈ r.reads a k, ConcurBehind L a pre₁ pre₂ (inner₁ i) (inner₂ i))
    (hlink : ∀ links, k = .aliasOf links → ∀ i ∈ r.usableLink? id links,
      L.Twin pre₁ pre₂ (inner₁ i) (inner₂ i) fun d₁ d₂ _ _ => a.descriptor d₁ = a.descriptor d₂) :
    L.Twin pre₁ pre₂ (r.body inner₁ id k) (r.body inner₂ id k)
      fun b₁ b₂ _ _ => a.body b₁ = a.body b₂ := by
  have halias {d₁ d₂ : Descriptor} (hd : a.descriptor d₁ = a.descriptor d₂) :
      a.body (.aliasOf d₁) = a.body (.aliasOf d₂) := by
    simp [Aspect.body, hd]
  cases k with
  | scalar s => exact .pure rfl
  | struct fields =>
    refine .map (twin_properties hpre₁ hpre₂ fields h hread) fun ps₁ ps₂ _ _ hps => ?_
    simp [Aspect.body, hps]
  | interface embeds methods =>
    refine .map (twin_methodSet hpre₁ hpre₂ embeds methods h fun ha i hi => hread i ?_)
      fun ms₁ ms₂ _ _ hms => ?_
    · simpa [reads, ha] using hi
    · cases a with
      | outline => rfl
      | whole => rw [hms rfl]
  | aliasOf links =>
    exact .map (twin_aliasBase id links fun i hi => hlink links rfl i hi)
      fun _ _ _ _ hd => halias hd
  | array t => exact .map (twin_arrayShape hpre₁ hpre₂ t h) fun _ _ _ _ hd => halias hd
  | map m =>
    exact .map (twin_mapShape hpre₁ hpre₂ m (h _ (by simp [visits])) (h _ (by simp [visits])))
      fun _ _ _ _ hd => halias hd
  | function s =>
    refine .bind hpre₁ hpre₂ (twin_callShape hpre₁ hpre₂ s h) fun call₁ call₂ hcall => .pure ?_
    exact halias (descriptor_eq_of_same (fun ha => by rw [hcall ha]) rfl rfl)
  | channel | any => exact .pure rfl

end Resolver

end ClientTypes

import ClientTypes.Proofs.Resolve.Exhaust

/-!
# What aliases lean on

The definition of an alias holds the name of another type: the one that its links lead to, through
aliases without a name. Whoever follows that name in a direction wants to know that what stands
behind it will not change any more. It will not once that type is settled in the direction; and so
it is, after the alias has been expanded, unless the alias itself is opaque.

## Main definitions

* `Resolver.Fronts` — a named type itself, and for an unnamed alias what its links lead to
* `Resolver.Leans` — an alias, and what its link leads to
* `Resolver.Leaning` — aliases are defined by the names of what they lean on
* `Resolver.Anchored` — what expanded aliases lean on is settled

The main statements are `steps_leaning` and `keeps_anchored`.
-/

namespace ClientTypes

namespace Resolver

variable {r : Resolver} {I : Registry → Prop} {dir : Direction} {P : List TypeId}
  {reg reg' : Registry} {id last : TypeId} {decl : TypeDecl} {links : AliasLinks} {link : TypeId}
  {name q : QName} {c : Chain} {n : Nat} {inner : TypeId → Resolving Descriptor}

/-! ## Links -/

/-- A named type itself, and for an alias without a name what its link leads to. -/
inductive Fronts (r : Resolver) : TypeId → TypeId → Prop
  | named {id : TypeId} {q : QName} : r.project.Names id q → Fronts r id id
  | link {id link last : TypeId} {dir : Direction} {decl : TypeDecl} {links : AliasLinks} :
      r.Opens dir id decl → decl.qname? = none → decl.kind = .aliasOf links →
        r.usableLink? id links = some link → Fronts r link last → Fronts r id last

/-- The named type that the link of an alias leads to. -/
def Leans (r : Resolver) (id last : TypeId) : Prop :=
  ∃ dir decl links link, r.Opens dir id decl ∧ decl.kind = .aliasOf links ∧
    r.usableLink? id links = some link ∧ r.Fronts link last

theorem Fronts.behind (h : r.Fronts id last) : r.Behind id last := by
  induction h with
  | named => exact .refl _
  | link ho _ hk hl _ ih => exact .link ho hk hl ih

theorem Leans.behind (h : r.Leans id last) : r.Behind id last := by
  obtain ⟨dir, decl, links, link, ho, hk, hl, hlast⟩ := h
  exact .link ho hk hl hlast.behind

theorem Fronts.exists_names (h : r.Fronts id last) : ∃ q, r.project.Names last q := by
  induction h with
  | named hq => exact ⟨_, hq⟩
  | link _ _ _ _ _ ih => exact ih

theorem Fronts.eq_of_named (h : r.Fronts id last) (hd : r.project.type? id = some decl)
    (hname : decl.qname? = some name) : last = id := by
  cases h with
  | named => rfl
  | link ho hnone =>
    rw [← ho.decl_eq hd, hname] at hnone
    cases hnone

theorem Fronts.exists_link (h : r.Fronts id last) (hd : r.project.type? id = some decl)
    (hname : decl.qname? = none) : ∃ links link, decl.kind = .aliasOf links ∧
      r.usableLink? id links = some link ∧ r.Fronts link last := by
  cases h with
  | named hq =>
    rw [hq.qname?_eq hd] at hname
    cases hname
  | link ho _ hk hl hlast =>
    obtain rfl := ho.decl_eq hd
    exact ⟨_, _, hk, hl, hlast⟩

/-- No path of links ends in an unnamed type. -/
theorem Fronts.ne_of_unnamed (h : r.Fronts id last) {i : TypeId}
    (hd : r.project.type? i = some decl) (hname : decl.qname? = none) : last ≠ i := by
  rintro rfl
  obtain ⟨q, decl', hd', hq⟩ := h.exists_names
  rw [Option.some.inj (hd'.symm.trans hd), hname] at hq
  cases hq

theorem isBareOpaque_inlined {b : Body} (h : b.isOpaque) : b.inlined.shape.isBareOpaque := by
  cases b with
  | aliasOf t => exact h
  | struct ps => cases h
  | interface ms => cases h

/-! ## The names of aliases -/

/-- A name that is answered for an id is the name of the type that the id stands for. -/
def Stands (r : Resolver) (id : TypeId) (d : Descriptor) : Prop :=
  ∀ q, d.shape = .named q → ∃ last, r.Fronts id last ∧ r.project.Names last q

theorem stands_of_elementary (h : d.Elementary) : r.Stands id d := by
  intro q hq
  have hshape := h.reference?_eq_none
  rw [hq] at hshape
  cases hshape

theorem stands_named (hq : r.project.Names id name) : r.Stands id (.named name) := by
  intro q heq
  obtain rfl : name = q := Shape.named.inj heq
  exact ⟨id, .named hq, hq⟩

theorem leans_of_body (h : ∀ i c, r.Stands i ((inner i).run c).1) (ho : r.Opens dir id decl)
    {t : Descriptor} (hb : ((r.body inner id decl.kind).run c).1 = .aliasOf t)
    (hq : t.shape = .named q) : ∃ last, r.Leans id last ∧ r.project.Names last q := by
  obtain ⟨links, link, hk, hl, rfl⟩ := body_eq_aliasOf_named hb hq
  obtain ⟨last, hlast, hnames⟩ := h link c q hq
  exact ⟨last, ⟨dir, decl, links, link, ho, hk, hl, hlast⟩, hnames⟩

/-- An unnamed alias is answered with what is answered for its link. -/
theorem stands_inlined (h : ∀ i c, r.Stands i ((inner i).run c).1) (ho : r.Opens dir id decl)
    (hname : decl.qname? = none) (c : Chain) :
    r.Stands id ((r.body inner id decl.kind).run c).1.inlined := by
  intro q hq
  obtain ⟨t, ht, hshape⟩ := exists_aliasOf_of_shape_inlined hq
  obtain ⟨links, link, hk, hl, rfl⟩ := body_eq_aliasOf_named ht hshape
  obtain ⟨last, hlast, hnames⟩ := h link _ q hshape
  exact ⟨last, .link ho hname hk hl hlast, hnames⟩

theorem stands_resolveType (n : Nat) (id : TypeId) (c : Chain) :
    r.Stands id ((r.resolveType n id).run c).1 :=
  answer_resolveType (fun _ _ => stands_of_elementary) (fun _ _ _ _ hq => by cases hq)
    (fun _ _ => stands_named)
    (fun _ _ _ _ c h ho hname => stands_inlined h ho hname c) n id c

/-- A definition that is an alias of a name has it from the type that it leans on. -/
def Leaning (r : Resolver) (reg : Registry) : Prop :=
  ∀ e ∈ reg.definitions, ∀ t q, e.body = .aliasOf t → t.shape = .named q →
    ∃ last, r.Leans e.typeId last ∧ r.project.Names last q

theorem leaning_empty (r : Resolver) : r.Leaning {} := by simp [Leaning]

theorem steps_leaning (r : Resolver) : r.Steps r.Leaning where
  hide hc _ _ := by
    refine Registry.forall_mem_merge hc.registry fun t q ht hq => ?_
    obtain rfl : Descriptor.bareOpaque = t := Body.aliasOf.inj ht
    cases hq
  back {c id decl name stub} hc _ _ _ hstub := by
    refine Registry.forall_mem_merge hc.registry fun t q ht _ => ?_
    obtain rfl : stub = .aliasOf t := ht
    simpa using Kind.stub?_cases hstub
  complete {n id decl name c c' b} hs _ _ hrun hc' _ := by
    have hb : ((r.body (r.resolveType n) id decl.kind).run c).1 = b := congrArg Prod.fst hrun
    have hnew (t : Descriptor) (q : QName) (ht : b = .aliasOf t) (hq : t.shape = .named q) :
        ∃ last, r.Leans id last ∧ r.project.Names last q := by
      rw [ht] at hb
      exact leans_of_body (stands_resolveType n) hs.opens hb hq
    intro e he
    rw [Registry.definitions_markExpanded] at he
    rcases Registry.mem_definitions_of_mem_merge he with rfl | he
    · exact hnew
    · exact hc'.registry e he

/-! ## Anchors -/

/-- What expanded aliases lean on is settled, up to what is being expanded, unless the alias is
opaque. -/
def Anchored (r : Resolver) (c : Chain) : Prop :=
  ∀ id dir q last, (id, dir) ∈ c.registry.expanded → r.project.Names id q → r.Leans id last →
    (∃ e, c.registry.get? q = some e ∧ e.isOpaque) ∨ last ∈ pending c dir ∨
      r.Settled dir c.registry last

/-- What an id stands for is settled, up to what is being expanded, unless the answer is opaque. -/
def AnchoredBy (r : Resolver) (id : TypeId) (d : Descriptor) (c : Chain) : Prop :=
  ∀ last, r.Fronts id last → d.shape.isBareOpaque ∨ last ∈ c.processing ∨
    r.Settled c.direction c.registry last

theorem AnchoredBy.of_extends {d : Descriptor} {c' : Chain} (h : r.AnchoredBy id d c)
    (hext : c.Extends c') : r.AnchoredBy id d c' := by
  intro last hlast
  rw [hext.direction, hext.processing]
  exact (h last hlast).imp_right (.imp_right fun hs => hs.of_extends hext.registry)

theorem Anchored.of_extends {c' : Chain} (h : r.Anchored c) (hext : c.Extends c')
    (hexp : c'.registry.expanded = c.registry.expanded) : r.Anchored c' := by
  intro id dir q last hid hq hlast
  rw [hexp] at hid
  rw [pending_eq hext.direction hext.processing]
  rcases h id dir q last hid hq hlast with ⟨e, he, hop⟩ | hmem | hs
  · exact .inl ⟨e, hext.registry.isOpaque he hop, hop⟩
  · exact .inr (.inl hmem)
  · exact .inr (.inr (hs.of_extends hext.registry))

/-- Inside of an expansion there is one more type that need not be settled. -/
theorem Anchored.push {c' : Chain} (h : r.Anchored c) (hdir : c'.direction = c.direction)
    (hp : c'.processing = id :: c.processing) (hreg : c'.registry = c.registry) :
    r.Anchored c' := by
  intro i d q last hi hq hlast
  rw [hreg] at hi ⊢
  refine (h i d q last hi hq hlast).imp_right (.imp_left fun hmem => ?_)
  unfold pending at hmem ⊢
  rw [hdir, hp]
  split
  · next hd =>
    rw [if_pos hd] at hmem
    exact List.mem_cons_of_mem id hmem
  · next hd => rwa [if_neg hd] at hmem

/-- When the expansion of a type ends, and the type is settled or has no name, nothing needs to be
left out for it. -/
theorem Anchored.pop {c' : Chain} (h : r.Anchored c') (hp : c'.processing = id :: P)
    (hext : c'.registry.Extends reg) (hid : ∀ i, r.Fronts i id → r.Settled c'.direction reg id)
    {i : TypeId} {d : Direction} (hi : (i, d) ∈ c'.registry.expanded) (hq : r.project.Names i q)
    (hlast : r.Leans i last) : (∃ e, reg.get? q = some e ∧ e.isOpaque) ∨
      last ∈ (if d = c'.direction then P else []) ∨ r.Settled d reg last := by
  rcases h i d q last hi hq hlast with ⟨e, he, hop⟩ | hmem | hs
  · exact .inl ⟨e, hext.isOpaque he hop, hop⟩
  · unfold pending at hmem
    rw [hp] at hmem
    split at hmem
    · next hd =>
      rw [if_pos hd]
      rcases List.mem_cons.1 hmem with rfl | hmem
      · obtain ⟨dir, decl, links, link, -, -, -, hfronts⟩ := hlast
        exact .inr (.inr (hd ▸ hid _ hfronts))
      · exact .inr (.inl hmem)
    · cases hmem
  · exact .inr (.inr (hs.of_extends hext))

theorem anchored_hide :
    (Chain.law r.Anchored).Keeps (fun c => r.Hides c.direction id decl) (hide id decl)
      (r.AnchoredBy id) := by
  intro c hc hh
  cases hname : decl.qname? with
  | none =>
    rw [hide_of_unnamed hname]
    exact ⟨hc, .refl c, fun _ _ => .inl rfl⟩
  | some name =>
    rw [run_hide_of_named hname]
    have hext := Chain.extends_register (definition id decl name (.aliasOf .bareOpaque)) c
    refine ⟨hc.of_extends hext (by simp), hext, fun last hlast => .inr (.inr ?_)⟩
    obtain rfl := hlast.eq_of_named hh.declared hname
    rw [hext.direction, Chain.registry_register]
    refine settled_of_hides hh fun q hq => ?_
    obtain rfl : name = q := Option.some.inj (hname.symm.trans hq)
    exact Registry.exists_isOpaque_get?_merge rfl

theorem anchored_referBack (hname : decl.qname? = some name) :
    (Chain.law r.Anchored).Keeps (fun c => r.Opens c.direction id decl ∧ id ∈ c.processing)
      (referBack id decl name) (r.AnchoredBy id) := by
  rintro c hc ⟨ho, hmem⟩
  have hin (d : Descriptor) : r.AnchoredBy id d c := by
    intro last hlast
    obtain rfl := hlast.eq_of_named ho.declared hname
    exact .inr (.inl hmem)
  rw [run_referBack]
  split
  · next stub _ =>
    have hext := Chain.extends_register (definition id decl name stub) c
    exact ⟨hc.of_extends hext (by simp), hext, (hin _).of_extends hext⟩
  · have hext := Chain.extends_note name c
    exact ⟨hc.of_extends hext (by simp), hext, (hin _).of_extends hext⟩

theorem anchored_refer (hname : decl.qname? = some name) :
    (Chain.law r.Anchored).Keeps
      (fun c => r.Opens c.direction id decl ∧ (id, c.direction) ∈ c.registry.expanded)
      (Chain.refer name) (r.AnchoredBy id) := by
  rintro c hc ⟨ho, hexp⟩
  have hin (d : Descriptor) : r.AnchoredBy id d c := by
    intro last hlast
    obtain rfl := hlast.eq_of_named ho.declared hname
    exact .inr (.inr (settled_of_opens ho fun _ => hexp))
  have hext := Chain.extends_note name c
  have hsame : (c.note name).registry.expanded = c.registry.expanded := by simp
  exact ⟨hc.of_extends hext hsame, hext, (hin _).of_extends hext⟩

theorem anchored_meet {pre : Chain → Prop}
    {expansion : TypeId → TypeDecl → Resolving Descriptor}
    (h : ∀ decl, (Chain.law r.Anchored).Keeps (fun c => pre c ∧ r.Opens c.direction id decl ∧
      id ∉ c.processing ∧ (decl.qname? ≠ none → (id, c.direction) ∉ c.registry.expanded))
      (expansion id decl) (r.AnchoredBy id)) :
    (Chain.law r.Anchored).Keeps pre (r.meet expansion id) (r.AnchoredBy id) := by
  refine .meet (fun hd c _ _ last hlast => ?_) (fun decl s hd hs c _ _ last hlast => ?_)
    (fun decl => anchored_hide.mono (fun c hp => hp.2) fun _ _ _ h => h)
    (fun decl name hname => (anchored_referBack hname).mono (fun c hp => hp.2) fun _ _ _ h => h)
    (fun decl name hname =>
      (anchored_refer hname).mono (fun c hp => ⟨hp.2.1, hp.2.2.2⟩) fun _ _ _ h => h)
    (fun decl hname c _ _ _ _ last _ => .inl rfl) h
  · cases hlast with
    | named hq =>
      obtain ⟨decl, hd', -⟩ := hq
      simp [hd] at hd'
    | link ho =>
      have hd' := ho.declared
      simp [hd] at hd'
  · -- Only named types are substituted.
    obtain ⟨q, hq, -⟩ := Option.bind_eq_some_iff.1 hs
    obtain rfl := hlast.eq_of_named hd hq
    exact .inr (.inr (settled_of_substituted (by simp [hd, hs])))

/-- The body of an alias is opaque, or what its link stands for is settled. -/
theorem anchored_body
    (h : ∀ i, (r.lawWith I r.Anchored).Keeps (r.Underway n i) (r.resolveType n i)
      (r.AnchoredBy i)) :
    (r.lawWith I r.Anchored).Keeps (r.Site I n id decl) (r.body (r.resolveType n) id decl.kind)
      fun b c => ∀ links link last, decl.kind = .aliasOf links →
        r.usableLink? id links = some link → r.Fronts link last →
          b.isOpaque ∨ last ∈ c.processing ∨ r.Settled c.direction c.registry last := by
  have hbody : (r.lawWith I r.Anchored).Marks (r.Site I n id decl) (fun _ _ => True)
      (r.body (r.resolveType n) id decl.kind) (r.visits id decl.kind) := by
    refine marks_body stable_site_lawWith (fun _ => Law.stable_const True) id decl.kind ?_
    exact fun i hi => (h i).mono (fun c hs => hs.underway.visit hs.opens hi)
      fun _ _ _ _ _ _ => trivial
  intro c hc hs
  obtain ⟨hc', hle, -⟩ := hbody c hc hs
  refine ⟨hc', hle, fun links link last hk hl hlast => ?_⟩
  have hvisit : link ∈ r.visits id decl.kind := by
    rw [hk]
    simp [visits, hl]
  obtain ⟨-, -, hin⟩ := h link c hc (hs.underway.visit hs.opens hvisit)
  rw [hk, run_body_of_link hl]
  exact hin last hlast

theorem anchored_expand
    (h : ∀ i, (r.lawWith I r.Anchored).Keeps (r.Underway n i) (r.resolveType n i)
      (r.AnchoredBy i)) :
    (Chain.law r.Anchored).Keeps (fun c => r.Inv I c ∧ r.Underway (n + 1) id c ∧
      r.Opens c.direction id decl ∧ id ∉ c.processing)
      (r.expand (r.resolveType n) id decl) (r.AnchoredBy id) := by
  refine keeps_expand_everywhere (anchored_body h) (fun hname c hc ho => ?_)
    fun name hname c hc ho => ?_
  · refine ⟨hc.push rfl rfl rfl, fun b c' hc' hle hb => ?_⟩
    have hnone (i : TypeId) (hi : r.Fronts i id) : r.Settled c'.direction c'.registry id :=
      absurd rfl (hi.ne_of_unnamed ho.declared hname)
    refine ⟨fun i d q last hi hq hlast => ?_, fun last hlast => ?_⟩
    · exact hc'.pop hle.processing (.refl _) hnone hi hq hlast
    · obtain ⟨links, link, hk, hl, hlast⟩ := hlast.exists_link ho.declared hname
      rcases hb links link last hk hl hlast with hop | hmem | hs
      · exact .inl (isBareOpaque_inlined hop)
      · rw [hle.processing] at hmem
        have hne := hlast.ne_of_unnamed ho.declared hname
        exact .inr (.inl ((List.mem_cons.1 hmem).resolve_left hne))
      · exact .inr (.inr hs)
  · refine ⟨hc.push rfl rfl rfl, fun b c' hc' hle hb => ?_⟩
    have ho' : r.Opens c'.direction id decl := hle.direction ▸ ho
    have hext := Chain.extends_complete (definition id decl name b) (c.leave c')
    have hself : r.Settled c'.direction
        ((c.leave c').complete (definition id decl name b)).registry id :=
      settled_of_opens ho' fun _ => Chain.mem_expanded_complete _ _
    refine ⟨fun i d q last hi hq hlast => ?_, fun last hlast => ?_⟩
    · unfold pending
      rw [hext.direction, hext.processing]
      rw [Chain.registry_complete, Registry.mem_expanded_markExpanded,
        Registry.expanded_merge] at hi
      rcases hi with ⟨rfl, rfl⟩ | hi
      · -- The alias has been expanded just now.
        obtain ⟨dir, decl', links, link, hopens, hk, hl, hfronts⟩ := hlast
        obtain rfl := ho.decl_eq hopens.declared
        rw [if_pos rfl]
        rcases hb links link last hk hl hfronts with hop | hin | hs
        · refine .inl ?_
          obtain rfl := Option.some.inj (hname.symm.trans (hq.qname?_eq ho.declared))
          simp only [Chain.registry_complete, Registry.get?_markExpanded]
          exact Registry.exists_isOpaque_get?_merge hop
        · rw [hle.processing] at hin
          rcases List.mem_cons.1 hin with rfl | hin
          · exact .inr (.inr hself)
          · exact .inr (.inl hin)
        · exact .inr (.inr (hs.of_extends hext.registry))
      · exact hc'.pop hle.processing hext.registry (fun _ _ => hself) hi hq hlast
    · obtain rfl := hlast.eq_of_named ho.declared hname
      exact .inr (.inr (hext.direction ▸ hself))

/-- Wherever resolution comes to an alias, what it stands for is settled afterwards. -/
theorem keeps_anchored (hI : r.Steps I) (n : Nat) (id : TypeId) :
    (r.lawWith I r.Anchored).Keeps (r.Underway n id) (r.resolveType n id) (r.AnchoredBy id) :=
  keeps_resolveType_everywhere hI r.AnchoredBy (fun _ _ _ => anchored_meet)
    (fun _ _ _ => anchored_expand) n id

end Resolver

end ClientTypes

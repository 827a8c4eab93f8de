import Mathlib.Data.List.Perm.Subperm
import ClientTypes.Proofs.Resolve.Closed
import ClientTypes.Proofs.Resolve.Origin
import ClientTypes.Proofs.Resolve.Steady

/-!
# What bodies are born from

The body of a definition is the result of an expansion, in a chain where everything that is being
expanded leads to the type at hand and where there is room for all expansions to come. To compare
two bodies is thus to compare two such expansions. That in turn takes such knowledge of the
definitions that they read; so it comes in layers, each of which is about expansions in chains where
the layers below hold.

## Main definitions

* `Resolver.Underway` — a chain that has come to a type by a path of visits, with room to go on
* `Resolver.Replies` — what is known of the answer for an id
* `Resolver.Born`, `Resolver.Bred` — bodies that come from an expansion
* `Resolver.layer` — knowledge of bodies in layers

The main statement is `steps_layer`.
-/

namespace ClientTypes

namespace Resolver

variable {r : Resolver} {I J : Registry → Prop} {reg : Registry} {id i : TypeId} {decl : TypeDecl}
  {name : QName} {c : Chain} {n : Nat}

/-! ## Room for expansions -/

/-- Everything that is being expanded leads to the id, and there is room to expand all the rest. -/
structure Underway (r : Resolver) (n : Nat) (id : TypeId) (c : Chain) : Prop where
  path : ∀ p ∈ c.processing, r.Leads p id
  room : r.project.types.length ≤ n + c.processing.length

/-- Without room every declared type is being expanded. -/
theorem mem_processing_of_no_room (hc : r.Grounded c) (hu : r.Underway 0 id c)
    (hd : (r.project.type? id).isSome) : id ∈ c.processing := by
  have hmem {i : TypeId} (hd : (r.project.type? i).isSome) : i ∈ r.project.types.map (·.1) := by
    obtain ⟨decl, hd⟩ := Option.isSome_iff_exists.1 hd
    exact List.mem_map_of_mem (Project.mem_types_of_type? hd)
  have hsub : c.processing ⊆ r.project.types.map (·.1) := fun i hi => hmem (hc.declared i hi)
  have hperm := (hc.nodup.subperm hsub).perm_of_length_le (by simpa using hu.room)
  exact hperm.mem_iff.2 (hmem hd)

theorem Underway.inside (hu : r.Underway (n + 1) id c) (ho : r.Opens c.direction id decl) :
    r.Underway n id (c.inside id) := by
  refine ⟨fun p hp => ?_, ?_⟩
  · rcases List.mem_cons.1 hp with rfl | hp
    · exact .refl
    · exact hu.path p hp
  · have := hu.room
    simp only [Chain.inside, List.length_cons]
    omega

theorem Underway.visit (hu : r.Underway n id c) (ho : r.Opens c.direction id decl)
    (hi : i ∈ r.visits id decl.kind) : r.Underway n i c :=
  ⟨fun p hp => (hu.path p hp).tail ⟨_, decl, ho, hi⟩, hu.room⟩

/-! ## Replies -/

/-- The invariants of chains, with one of the registry. -/
structure Inv (r : Resolver) (I : Registry → Prop) (c : Chain) : Prop where
  closed : r.ClosedChain c
  grounded : r.Grounded c
  registry : I c.registry

theorem Inv.mono (hIJ : ∀ reg, I reg → J reg) (hc : r.Inv I c) : r.Inv J c :=
  ⟨hc.closed, hc.grounded, hIJ _ hc.registry⟩

def lawOf (r : Resolver) (I : Registry → Prop) : Law Chain := Chain.law (r.Inv I)

/-- An answer is the one by name if there is one. A name that is answered stands at the end of the
aliases behind the id. -/
structure Replies (r : Resolver) (id : TypeId) (d : Descriptor) (c : Chain) : Prop where
  answer : ∀ d', r.answer? c.direction id = some d' → d = d'
  refers : d.All (r.RefersIn c)
  behind : ∀ q, d.shape = .named q → ∃ i, r.Behind id i ∧ r.project.Names i q

theorem Replies.of_answer {d : Descriptor} (h : r.answer? c.direction id = some d)
    (hrefers : d.All (r.RefersIn c)) : r.Replies id d c := by
  refine ⟨fun d' hd' => Option.some.inj (h.symm.trans hd'), hrefers, fun q hq => ?_⟩
  obtain ⟨decl, ho, hname⟩ := opens_of_answer?_named h hq
  exact ⟨id, .refl id, decl, ho.declared, hname⟩

theorem Replies.eq_named {d : Descriptor} (h : r.Replies id d c)
    (ho : r.Opens c.direction id decl) (hq : decl.qname? = some name) : d = .named name :=
  h.answer _ (by rw [answer?_of_opens ho, hq]; rfl)

theorem shape_arrayShape_ne_named {inner : TypeId → Resolving Descriptor} (a : ArrayType)
    (q : QName) : ((r.arrayShape inner a).run c).1.shape ≠ .named q := by
  unfold arrayShape
  split
  · intro h
    have hshape : Shape.builtin .bytes = .named q := h
    cases hshape
  · intro h
    have hshape : Shape.array _ = .named q := h
    cases hshape

/-- The body of an alias that goes by a link is an alias of the answer for the link. -/
theorem run_body_of_link {inner : TypeId → Resolving Descriptor} {links : AliasLinks}
    {link : TypeId} (hl : r.usableLink? id links = some link) (c : Chain) :
    (r.body inner id (.aliasOf links)).run c =
      (.aliasOf ((inner link).run c).1, ((inner link).run c).2) := by
  simp only [body, aliasBase_of_link inner hl]
  rfl

/-- The alias of a name is an alias in the graph, and its target is the answer for the link. -/
theorem body_eq_aliasOf_named {inner : TypeId → Resolving Descriptor} {k : Kind} {t : Descriptor}
    {q : QName} (h : ((r.body inner id k).run c).1 = .aliasOf t) (hq : t.shape = .named q) :
    ∃ links link, k = .aliasOf links ∧ r.usableLink? id links = some link ∧
      t = ((inner link).run c).1 := by
  have helem {d : Descriptor} (hd : d.Elementary) (ht : Body.aliasOf d = .aliasOf t) : False := by
    obtain rfl : d = t := Body.aliasOf.inj ht
    simpa [hq, Shape.reference?] using hd.reference?_eq_none
  cases k with
  | scalar s => exact (helem s.elementary_descriptor h).elim
  | struct fields => exact Body.noConfusion h
  | interface embeds methods => exact Body.noConfusion h
  | aliasOf links =>
    have ht : ((r.aliasBase inner id links).run c).1 = t := Body.aliasOf.inj h
    cases hl : r.usableLink? id links with
    | some link =>
      refine ⟨links, link, rfl, hl, ?_⟩
      rw [← ht, aliasBase_of_link inner hl]
    | none =>
      obtain ⟨d, hd, hbase⟩ := aliasBase_of_no_link inner hl
      rw [hbase] at ht
      exact (helem hd (congrArg Body.aliasOf ht)).elim
  | array a =>
    have ht : ((r.arrayShape inner a).run c).1 = t := Body.aliasOf.inj h
    exact (shape_arrayShape_ne_named a q (ht ▸ hq)).elim
  | map m =>
    have ht : Descriptor.map _ _ = t := Body.aliasOf.inj h
    have hshape : Shape.map _ _ = .named q := (congrArg Descriptor.shape ht).trans hq
    cases hshape
  | function s =>
    have ht : { shape := Shape.function _ } = t := Body.aliasOf.inj h
    have hshape : Shape.function _ = .named q := (congrArg Descriptor.shape ht).trans hq
    cases hshape
  | channel | any => exact (helem .bareOpaque h).elim

/-! ## Steps -/

/-- A chain in which the body of a type is about to be resolved. -/
structure Site (r : Resolver) (I : Registry → Prop) (n : Nat) (id : TypeId) (decl : TypeDecl)
    (c : Chain) : Prop where
  inv : r.Inv I c
  underway : r.Underway n id c
  opens : r.Opens c.direction id decl

theorem Site.mono (hIJ : ∀ reg, I reg → J reg) (hs : r.Site I n id decl c) : r.Site J n id decl c :=
  ⟨hs.inv.mono hIJ, hs.underway, hs.opens⟩

theorem stable_underway : (r.lawOf I).Stable (r.Underway n id) := by
  intro c c' _ hle hu
  exact ⟨hle.processing ▸ hu.path, hle.processing ▸ hu.room⟩

theorem stable_site : (r.lawOf I).Stable (r.Site I n id decl) := by
  intro c c' hc' hle hs
  exact ⟨hc', stable_underway hc' hle hs.underway, hle.direction ▸ hs.opens⟩

/-- An invariant of registries that the steps of resolution keep: a hidden type is registered, a
type is registered without members, and the expansion of a type ends. -/
structure Steps (r : Resolver) (I : Registry → Prop) : Prop where
  hide : ∀ {c id decl name}, r.Inv I c → r.Hides c.direction id decl → decl.qname? = some name →
    I (c.registry.merge (definition id decl name (.aliasOf .bareOpaque)))
  back : ∀ {c id decl name stub}, r.Inv I c → r.Opens c.direction id decl →
    decl.qname? = some name → id ∈ c.processing → decl.kind.stub? = some stub →
      I (c.registry.merge (definition id decl name stub))
  complete : ∀ {n id decl name c c' b}, r.Site I n id decl c → id ∈ c.processing →
    decl.qname? = some name → (r.body (r.resolveType n) id decl.kind).run c = (b, c') →
      r.Inv I c' → c.Extends c' →
        I ((c'.registry.merge (definition id decl name b)).markExpanded id c'.direction)

/-- What steps keep apart they keep together. -/
theorem Steps.and (hI : r.Steps I) (hJ : r.Steps J) : r.Steps fun reg => I reg ∧ J reg where
  hide hc hh hname := ⟨hI.hide (hc.mono fun _ h => h.1) hh hname,
    hJ.hide (hc.mono fun _ h => h.2) hh hname⟩
  back hc ho hname hmem hstub := ⟨hI.back (hc.mono fun _ h => h.1) ho hname hmem hstub,
    hJ.back (hc.mono fun _ h => h.2) ho hname hmem hstub⟩
  complete hs hmem hname hrun hc' hle :=
    ⟨hI.complete (hs.mono fun _ h => h.1) hmem hname hrun (hc'.mono fun _ h => h.1) hle,
      hJ.complete (hs.mono fun _ h => h.2) hmem hname hrun (hc'.mono fun _ h => h.2) hle⟩

/-- Steps keep what holds of every registry. -/
theorem steps_true (r : Resolver) : r.Steps fun _ => True where
  hide _ _ _ := trivial
  back _ _ _ _ _ := trivial
  complete _ _ _ _ _ _ := trivial

theorem judges_refersIn_lawOf : (r.lawOf I).Judges r.RefersIn where
  stable s _ _ ht hle h := (judges_refersIn r).stable s ht.closed hle h
  solid _ := plain_refers.solid
  bodies _ hc := hc.closed.closed.bodies

/-- The body of a type is resolved in its chain, and the chain goes on from there. -/
theorem keeps_site_body
    (h : ∀ i, (r.lawOf I).Keeps (r.Underway n i) (r.resolveType n i) (r.Replies i)) :
    (r.lawOf I).Keeps (fun c => r.Site I n id decl c ∧ id ∈ c.processing)
      (r.body (r.resolveType n) id decl.kind) fun b c' => b.All (r.RefersIn c') ∧
        ∃ c, r.Site I n id decl c ∧ id ∈ c.processing ∧ c.Extends c' ∧
          (r.body (r.resolveType n) id decl.kind).run c = (b, c') := by
  have hbody := keeps_body judges_refersIn_lawOf stable_site id decl.kind (fun _ _ => plain_refers)
    fun i hi => (h i).mono (fun c hs => hs.underway.visit hs.opens hi) fun _ _ _ hd => hd.refers
  rintro c hc ⟨hs, hmem⟩
  obtain ⟨hc', hle, hb⟩ := hbody c hc hs
  exact ⟨hc', hle, hb, c, hs, hmem, hle, rfl⟩

theorem Site.inside (hc : r.Inv I c) (hu : r.Underway (n + 1) id c)
    (ho : r.Opens c.direction id decl) (hmem : id ∉ c.processing) :
    r.Site I n id decl (c.inside id) := by
  have hd : (r.project.type? id).isSome := by simp [ho.declared]
  exact ⟨⟨hc.closed.inside id, hc.grounded.inside hd hmem, hc.registry⟩, hu.inside ho, ho⟩

theorem Site.enter (hc : r.Inv I c) (hu : r.Underway (n + 1) id c)
    (ho : r.Opens c.direction id decl) (hmem : id ∉ c.processing) (ns : String) :
    r.Site I n id decl (c.enter id ns) := by
  have hd : (r.project.type? id).isSome := by simp [ho.declared]
  exact ⟨⟨hc.closed.enter id ns, hc.grounded.enter ns hd hmem, hc.registry⟩,
    ⟨(hu.inside ho).path, (hu.inside ho).room⟩, ho⟩

/-- The name that an alias is resolved to stands at the end of the aliases behind it. -/
theorem Site.behind
    (h : ∀ i, (r.lawOf I).Keeps (r.Underway n i) (r.resolveType n i) (r.Replies i))
    (hs : r.Site I n id decl c) {t : Descriptor} {q : QName}
    (hb : ((r.body (r.resolveType n) id decl.kind).run c).1 = .aliasOf t)
    (hq : t.shape = .named q) : ∃ i, r.Behind id i ∧ r.project.Names i q := by
  obtain ⟨links, link, hk, hl, rfl⟩ := body_eq_aliasOf_named hb hq
  have hvisit : link ∈ r.visits id decl.kind := by
    rw [hk]
    simp [visits, hl]
  obtain ⟨-, -, hreplies⟩ := h link c hs.inv (hs.underway.visit hs.opens hvisit)
  obtain ⟨i, hi, hq'⟩ := hreplies.behind q hq
  exact ⟨i, .link hs.opens hk hl hi, hq'⟩

theorem exists_aliasOf_of_shape_inlined {b : Body} {q : QName} (h : b.inlined.shape = .named q) :
    ∃ t, b = .aliasOf t ∧ t.shape = .named q := by
  cases b with
  | struct ps =>
    have hshape : Shape.object ps = .named q := h
    cases hshape
  | aliasOf t => exact ⟨t, rfl, h⟩
  | interface ms => cases ms <;> cases h

theorem keeps_expand_of_steps (hI : r.Steps I)
    (h : ∀ i, (r.lawOf I).Keeps (r.Underway n i) (r.resolveType n i) (r.Replies i)) :
    (r.lawOf I).Keeps
      (fun c => r.Underway (n + 1) id c ∧ r.Opens c.direction id decl ∧ id ∉ c.processing)
      (r.expand (r.resolveType n) id decl) (r.Replies id) := by
  refine .expand (keeps_site_body h) (fun hname c hc hp => ?_) fun name hname c hc hp => ?_
  all_goals obtain ⟨hu, ho, hmem⟩ := hp
  · have hsite := Site.inside hc hu ho hmem
    refine ⟨hsite.inv, ⟨hsite, by simp [Chain.inside]⟩, ?_⟩
    rintro b c' hc' hle ⟨hb, c₀, hsite₀, -, -, hrun⟩
    have hnone : ∀ q, ¬ r.project.Names id q := by
      intro q hq
      rw [hq.qname?_eq ho.declared] at hname
      cases hname
    refine ⟨⟨hc'.closed.outside hle hnone, hc.grounded.outside hc'.grounded hle ho.declared hname,
      hc'.registry⟩, fun d' hd' => ?_, ?_, fun q hq => ?_⟩
    · have hdir : (c.outside c').direction = c.direction := hle.direction
      rw [hdir, answer?_of_opens ho, hname] at hd'
      simp at hd'
    · exact (hb.imp fun s => refers_outside hle hnone).inlined plain_refers
    · obtain ⟨t, rfl, ht⟩ := exists_aliasOf_of_shape_inlined hq
      exact hsite₀.behind h (congrArg Prod.fst hrun) ht
  · have hsite := Site.enter hc hu ho hmem name.ns
    refine ⟨hsite.inv, ⟨hsite, by simp [Chain.enter]⟩, ?_⟩
    rintro b c' hc' hle ⟨hb, c₀, hsite₀, hmem₀, hle₀, hrun⟩
    have hcomplete := hI.complete hsite₀ hmem₀ hname hrun hc' hle₀
    have hdir : ((c.leave c').complete (definition id decl name b)).direction = c.direction :=
      (Chain.extends_complete _ _).direction.trans hle.direction
    refine ⟨⟨hc.closed.complete hc'.closed hle ho.declared hname hb,
      hc.grounded.complete hc'.grounded hle ho hname b, ?_⟩, .of_answer ?_ ?_⟩
    · rw [Chain.registry_complete]
      exact hcomplete
    · rw [hdir, answer?_of_opens ho, hname]
      rfl
    · exact Descriptor.all_named
        ⟨id, ⟨decl, ho.declared, hname⟩, .inr ⟨_, Chain.mem_expanded_complete _ _⟩⟩

theorem keeps_hide_of_steps (hI : r.Steps I) :
    (r.lawOf I).Keeps (fun c => r.Hides c.direction id decl) (hide id decl) (r.Replies id) := by
  intro c hc hh
  cases hname : decl.qname? with
  | none =>
    rw [hide_of_unnamed hname]
    refine ⟨hc, .refl c, .of_answer ?_ (Descriptor.all_bareOpaque plain_refers)⟩
    exact (answer?_of_hides hh).trans (by rw [hname]; rfl)
  | some name =>
    obtain ⟨hclosed, hle, hrefers⟩ := answers_hide hname c hc.closed trivial
    rw [run_hide_of_named hname] at hclosed hle hrefers ⊢
    refine ⟨⟨hclosed, (hc.grounded.offer ⟨hh.declared, hname, hh.unsubstituted, rfl,
      .inr (.inr ⟨⟨_, hh⟩, rfl⟩)⟩).note _, ?_⟩, hle, .of_answer ?_ hrefers⟩
    · rw [Chain.registry_register]
      exact hI.hide hc hh hname
    · rw [show (c.register _).direction = c.direction from hle.direction]
      exact (answer?_of_hides hh).trans (by rw [hname]; rfl)

theorem keeps_referBack_of_steps (hI : r.Steps I) (hname : decl.qname? = some name) :
    (r.lawOf I).Keeps (fun c => r.Opens c.direction id decl ∧ id ∈ c.processing)
      (referBack id decl name) (r.Replies id) := by
  rintro c hc ⟨ho, hmem⟩
  have hanswers : r.closedLaw.Answers r.RefersIn (fun c => r.RefersIn c (.named name))
      (referBack id decl name) := answers_referBack name
  obtain ⟨hclosed, hle, hrefers⟩ := hanswers c hc.closed ⟨id, ⟨decl, ho.declared, hname⟩, .inl hmem⟩
  rw [run_referBack] at hclosed hle hrefers ⊢
  refine ⟨⟨hclosed, ?_, ?_⟩, hle, .of_answer ?_ hrefers⟩
  · split
    · next stub hstub =>
      exact (hc.grounded.offer ⟨ho.declared, hname, ho.unsubstituted, rfl,
        .inr (.inl ⟨hmem, hstub⟩)⟩).note _
    · exact hc.grounded.note _
  · split
    · next stub hstub =>
      rw [Chain.registry_register]
      exact hI.back hc ho hname hmem hstub
    · rw [Chain.registry_note]
      exact hc.registry
  · rw [hle.direction, answer?_of_opens ho, hname]
    rfl

theorem keeps_refer_of_opens (hname : decl.qname? = some name) :
    (r.lawOf I).Keeps
      (fun c => r.Opens c.direction id decl ∧ (id, c.direction) ∈ c.registry.expanded)
      (Chain.refer name) (r.Replies id) := by
  rintro c hc ⟨ho, hexp⟩
  obtain ⟨hclosed, hle, hrefers⟩ := answers_refer name c hc.closed
    ⟨id, ⟨decl, ho.declared, hname⟩, .inr ⟨_, hexp⟩⟩
  have hreg : ((Chain.refer name).run c).2.registry = c.registry := Chain.registry_note name c
  refine ⟨⟨hclosed, hc.grounded.note name, hreg ▸ hc.registry⟩, hle, .of_answer ?_ hrefers⟩
  rw [hle.direction, answer?_of_opens ho, hname]
  rfl

/-- Resolution keeps what its steps keep, and replies. -/
theorem keeps_of_steps (hI : r.Steps I) (n : Nat) (id : TypeId) :
    (r.lawOf I).Keeps (r.Underway n id) (r.resolveType n id) (r.Replies id) := by
  have hmeet (n : Nat) (expansion : TypeId → TypeDecl → Resolving Descriptor) (id : TypeId)
      (h : ∀ decl, (r.lawOf I).Keeps
        (fun c => r.Underway n id c ∧ r.Opens c.direction id decl ∧ id ∉ c.processing)
        (expansion id decl) (r.Replies id)) :
      (r.lawOf I).Keeps (r.Underway n id) (r.meet expansion id) (r.Replies id) := by
    refine .meet (fun hd c _ _ => ?_) (fun decl s hd hs c _ _ => ?_) (fun decl => ?_)
      (fun decl name hname => ?_) (fun decl name hname => ?_) (fun decl hname c _ _ ho _ => ?_)
      fun decl => (h decl).mono (fun c hp => ⟨hp.1, hp.2.1, hp.2.2.1⟩) fun _ _ _ h => h
    · have hguess := r.substitutions.elementary_guess id.text
      exact .of_answer (by simp [answer?, hd]) (hguess.all plain_refers)
    · exact .of_answer (by simp [answer?, hd, hs]) (s.elementary_descriptor.all plain_refers)
    · exact (keeps_hide_of_steps hI).mono (fun c hp => hp.2) fun _ _ _ h => h
    · exact (keeps_referBack_of_steps hI hname).mono (fun c hp => hp.2) fun _ _ _ h => h
    · exact (keeps_refer_of_opens hname).mono (fun c hp => ⟨hp.2.1, hp.2.2.2⟩) fun _ _ _ h => h
    · refine ⟨fun d' hd' => ?_, Descriptor.all_bareOpaque plain_refers, fun q hq => ?_⟩
      · rw [answer?_of_opens ho, hname] at hd'
        simp at hd'
      · cases hq
  induction n generalizing id with
  | zero =>
    refine hmeet 0 _ id fun decl => ?_
    rintro c hc ⟨hu, ho, hmem⟩
    exact absurd (mem_processing_of_no_room hc.grounded hu (by simp [ho.declared])) hmem
  | succ n ih => exact hmeet (n + 1) _ id fun _ => keeps_expand_of_steps hI ih

/-! ## Births -/

/-- A body that is the result of an expansion. -/
def Born (r : Resolver) (I : Registry → Prop) (id : TypeId) (b : Body) : Prop :=
  ∃ n decl c, r.Site I n id decl c ∧ b = ((r.body (r.resolveType n) id decl.kind).run c).1

theorem Born.exists_struct {b : Body} {fields : List Field} (hb : r.Born I id b)
    (hd : r.project.type? id = some decl) (hk : decl.kind = .struct fields) :
    ∃ ps, b = .struct ps := by
  obtain ⟨n, decl', c, hsite, rfl⟩ := hb
  rw [← hsite.opens.decl_eq hd, hk]
  exact ⟨_, rfl⟩

/-- The definitions of expanded types have such bodies, if both directions treat the type alike. -/
def Bred (r : Resolver) (I : Registry → Prop) (reg : Registry) : Prop :=
  ∀ id q d, r.project.Names id q → r.Even id → Done reg id → reg.get? q = some d →
    r.Born I id d.body

theorem Origin.names {P : List TypeId} {d : Definition} (h : r.Origin P reg d decl) :
    r.project.Names d.typeId d.name :=
  ⟨decl, h.declared, h.named⟩

/-- The definition of a name comes from the type of that name. -/
theorem Grounded.typeId_eq (hdistinct : r.project.Distinct) (hc : r.Grounded c) {q : QName}
    {d : Definition} (hd : c.registry.get? q = some d) (hq : r.project.Names id q) :
    d.typeId = id := by
  obtain ⟨decl, h⟩ := hc.origin d (Registry.mem_of_get? hd)
  exact hdistinct _ _ _ (Registry.name_of_get? hd ▸ h.names) hq

theorem Even.not_done_of_hides (he : r.Even id) (hc : r.Grounded c) {dir : Direction}
    (hh : r.Hides dir id decl) : ¬ Done c.registry id := by
  rintro ⟨dir', hd⟩
  obtain ⟨decl', ho⟩ := hc.opened hd
  exact ho.not_hides (he.hides hh dir')

theorem completeness_of_stub? {k : Kind} {stub : Body} (h : k.stub? = some stub) :
    stub.completeness = 0 ∧ stub.isOpaque = false := by
  rcases Kind.stub?_cases h with rfl | rfl <;> exact ⟨rfl, rfl⟩

/-- A definition without members replaces nothing. -/
theorem get?_merge_of_stub {stub : Body} (hstub : decl.kind.stub? = some stub)
    (hname : reg.contains name) (q : QName) :
    (reg.merge (definition id decl name stub)).get? q = reg.get? q := by
  obtain ⟨hzero, hclear⟩ := completeness_of_stub? hstub
  obtain ⟨e, he⟩ := Option.isSome_iff_exists.1 hname
  rw [Registry.get?_merge, if_neg]
  rintro ⟨-, hne⟩
  refine hne ?_
  refine Registry.outcome_kept_iff.2 ⟨e, he, .inr ⟨hclear, ?_⟩⟩
  exact Nat.le_trans (Nat.le_of_eq hzero) (Nat.zero_le _)

/-- The body of a struct or interface that has no members is what stood for it before. -/
theorem eq_stub_of_completeness {inner : TypeId → Resolving Descriptor} {k : Kind} {stub : Body}
    (hstub : k.stub? = some stub)
    (h : ((r.body inner id k).run c).1.completeness = 0) :
    ((r.body inner id k).run c).1 = stub := by
  cases k with
  | struct fields =>
    obtain rfl : Body.struct [] = stub := Option.some.inj hstub
    have h' : ((r.properties inner fields).run c).1.length = 0 := h
    have hb : ((r.body inner id (.struct fields)).run c).1 =
        .struct ((r.properties inner fields).run c).1 := rfl
    rw [hb, List.length_eq_zero_iff.1 h']
  | interface embeds methods =>
    obtain rfl : Body.interface [] = stub := Option.some.inj hstub
    have h' : ((r.methodSet inner embeds methods).run c).1.length = 0 := h
    have hb : ((r.body inner id (.interface embeds methods)).run c).1 =
        .interface ((r.methodSet inner embeds methods).run c).1 := rfl
    rw [hb, List.length_eq_zero_iff.1 h']
  | _ => simp [Kind.stub?] at hstub

/-- A definition that is offered matters to its own name only. -/
theorem Bred.merge {d : Definition} (h : r.Bred I reg)
    (hnew : ∀ id e, r.project.Names id d.name → r.Even id → Done reg id →
      (reg.merge d).get? d.name = some e → r.Born I id e.body) : r.Bred I (reg.merge d) := by
  intro id q e hq he hdone hget
  have hdone' : Done reg id := by simpa [Done] using hdone
  by_cases hname : q = d.name
  · subst hname
    exact hnew id e hq he hdone' hget
  · rw [Registry.get?_merge, if_neg fun h => hname h.1] at hget
    exact h id q e hq he hdone' hget

/-- Where a body is offered that has just been born, the definition of the name is born: it is the
new one, or an earlier birth, or the stub that the new one did not replace. -/
theorem born_of_get?_merge (hdistinct : r.project.Distinct) (hs : r.Site I n id decl c)
    (hname : decl.qname? = some name) (he : r.Even id) {c' : Chain} (hc' : r.Grounded c')
    (hbred : r.Bred I c'.registry) {b : Body} {d : Definition}
    (hb : ((r.body (r.resolveType n) id decl.kind).run c).1 = b)
    (hget : (c'.registry.merge (definition id decl name b)).get? name = some d) :
    r.Born I id d.body := by
  have hborn : r.Born I id b := ⟨n, decl, c, hs, hb.symm⟩
  have hnames : r.project.Names id name := ⟨decl, hs.opens.declared, hname⟩
  rw [Registry.get?_merge] at hget
  split at hget
  · obtain rfl := Option.some.inj hget
    exact hborn
  · next hcond =>
    have hkept : c'.registry.outcome (definition id decl name b) = .kept := by
      simpa [definition] using hcond
    obtain ⟨decl', horigin⟩ := hc'.origin d (Registry.mem_of_get? hget)
    have htype := hc'.typeId_eq hdistinct hget hnames
    obtain rfl : decl' = decl := hs.opens.decl_eq (htype ▸ horigin.declared)
    rcases horigin.reason with hdone | ⟨-, hstub⟩ | ⟨⟨dir, hh⟩, -⟩
    · exact hbred id name d hnames he (htype ▸ hdone) hget
    · have hget' : c'.registry.get? (definition id decl' name b).name = some d := hget
      obtain ⟨hd, hopaque⟩ := completeness_of_stub? hstub
      have hle : b.completeness ≤ d.body.completeness :=
        Registry.completeness_le_of_kept hget' hopaque hkept
      have hzero : b.completeness = 0 := by omega
      have hbody : b = d.body := by
        rw [← hb]
        exact eq_stub_of_completeness hstub (hb ▸ hzero)
      exact hbody ▸ hborn
    · exact (hs.opens.not_hides (he.hides (htype ▸ hh) _)).elim

/-- If the steps keep an invariant, they keep it and that bodies are born under it. -/
theorem steps_bred (hdistinct : r.project.Distinct) (hI : r.Steps I) :
    r.Steps fun reg => I reg ∧ r.Bred I reg where
  hide {c id decl name} hc hh hname := by
    refine ⟨hI.hide (hc.mono fun _ h => h.1) hh hname, hc.registry.2.merge ?_⟩
    intro i e hq he hdone _
    obtain rfl : i = id := hdistinct _ _ _ hq ⟨decl, hh.declared, hname⟩
    exact (he.not_done_of_hides hc.grounded hh hdone).elim
  back {c id decl name stub} hc ho hname hmem hstub := by
    refine ⟨hI.back (hc.mono fun _ h => h.1) ho hname hmem hstub, hc.registry.2.merge ?_⟩
    rintro i e hq he ⟨dir, hexp⟩ hget
    have hdefined : c.registry.contains name := hc.closed.closed.defined hexp hq
    rw [get?_merge_of_stub hstub hdefined] at hget
    exact hc.registry.2 i name e hq he ⟨dir, hexp⟩ hget
  complete {n id decl name c c' b} hs hmem hname hrun hc' hle := by
    have hs' : r.Site I n id decl c := hs.mono fun _ h => h.1
    have hb : ((r.body (r.resolveType n) id decl.kind).run c).1 = b := congrArg Prod.fst hrun
    refine ⟨hI.complete hs' hmem hname hrun (hc'.mono fun _ h => h.1) hle, ?_⟩
    have hborn {i : TypeId} {e : Definition} (hq : r.project.Names i name) (he : r.Even i)
        (hget : (c'.registry.merge (definition id decl name b)).get? name = some e) :
        r.Born I i e.body := by
      obtain rfl : i = id := hdistinct _ _ _ hq ⟨decl, hs.opens.declared, hname⟩
      exact born_of_get?_merge hdistinct hs' hname he hc'.grounded hc'.registry.2 hb hget
    have hbred := hc'.registry.2.merge fun i e hq he _ hget => hborn hq he hget
    intro i q d hq he hdone hget
    rw [Registry.get?_markExpanded] at hget
    by_cases hid : i = id
    · subst hid
      obtain rfl : q = name :=
        Option.some.inj ((hq.qname?_eq hs.opens.declared).symm.trans hname)
      exact hborn hq he hget
    · refine hbred i q d hq he ?_ hget
      obtain ⟨dir, hd⟩ := hdone
      rcases Registry.mem_expanded_markExpanded.1 hd with ⟨heq, -⟩ | hd
      · exact absurd heq hid
      · exact ⟨dir, hd⟩

/-- Knowledge of bodies in layers: those of a layer are born where the layers below hold. -/
def layer (r : Resolver) : Nat → Registry → Prop
  | 0, _ => True
  | k + 1, reg => layer r k reg ∧ r.Bred (layer r k) reg

/-- Where each expansion of a type leaves a name defined, the name is defined once the type has been
expanded. -/
theorem steps_contains (hI : r.Steps I) {q : QName}
    (h : ∀ n decl c, r.Site I n id decl c →
      ((r.body (r.resolveType n) id decl.kind).run c).2.registry.contains q) :
    r.Steps fun reg => I reg ∧ (Done reg id → reg.contains q) where
  hide hc hh hname := by
    refine ⟨hI.hide (hc.mono fun _ h => h.1) hh hname, fun hdone => ?_⟩
    rw [Registry.contains_merge]
    exact .inr (hc.registry.2 (by simpa [Done] using hdone))
  back hc ho hname hmem hstub := by
    refine ⟨hI.back (hc.mono fun _ h => h.1) ho hname hmem hstub, fun hdone => ?_⟩
    rw [Registry.contains_merge]
    exact .inr (hc.registry.2 (by simpa [Done] using hdone))
  complete {n i decl name c c' b} hsite hmem hname hrun hc' hle := by
    have hsite' : r.Site I n i decl c := hsite.mono fun _ h => h.1
    refine ⟨hI.complete hsite' hmem hname hrun (hc'.mono fun _ h => h.1) hle, fun hdone => ?_⟩
    rw [Registry.contains_markExpanded, Registry.contains_merge]
    obtain ⟨dir, hdone⟩ := hdone
    rcases Registry.mem_expanded_markExpanded.1 hdone with ⟨rfl, -⟩ | hdone
    · have hcontains := h n decl c hsite'
      rw [hrun] at hcontains
      exact .inr hcontains
    · exact .inr (hc'.registry.2 ⟨dir, by simpa using hdone⟩)

theorem layer_empty (r : Resolver) (k : Nat) : r.layer k {} := by
  induction k with
  | zero => trivial
  | succ k ih =>
    refine ⟨ih, fun id q d _ _ _ hget => ?_⟩
    cases hget

theorem steps_layer (hdistinct : r.project.Distinct) (k : Nat) : r.Steps (r.layer k) := by
  induction k with
  | zero => exact ⟨fun _ _ _ => trivial, fun _ _ _ _ _ => trivial, fun _ _ _ _ _ _ => trivial⟩
  | succ k ih => exact steps_bred hdistinct ih

end Resolver

end ClientTypes

import ClientTypes.Proofs.Resolve.Agreement

/-!
# The methods of an interface

An interface has the methods that it declares and those of the interfaces that it embeds. It finds
the latter in the registry, where they stand once the embedded interface has been expanded. While
that interface is being expanded there is nothing to be found yet; but this is so only if it leads
back to the one that embeds it. Where nothing leads back, down to the last embedded interface, an
interface has all of these methods and no others.

## Main definitions

* `Resolver.Draws` — a type takes over the methods of another one
* `Resolver.Bears` — the methods that a type has by right
* `Resolver.Firm` — nothing that methods are drawn from leads back

The main statement is `tells`.
-/

namespace ClientTypes

/-- The names of the methods of an interface. -/
def Body.methodNames? : Body → Option (List String)
  | .interface ms => some (ms.map (·.name))
  | _ => none

def Kind.isInterface : Kind → Bool
  | .interface _ _ => true
  | _ => false

def Kind.isAlias : Kind → Bool
  | .aliasOf _ => true
  | _ => false

/-! ## Descriptors without methods -/

namespace Descriptor

/-- An embedded type with this descriptor brings in no methods. -/
def Barren (d : Descriptor) : Prop := ∀ reg : Registry, reg.methodsBy d = []

theorem barren_withPointers {d : Descriptor} {n : Nat} : (d.withPointers n).Barren ↔ d.Barren :=
  .rfl

theorem Elementary.barren {d : Descriptor} (h : d.Elementary) : d.Barren := by
  induction h with
  | substitute s =>
    obtain ⟨target, nullable⟩ := s
    cases target <;> exact fun _ => rfl
  | withPointers n _ ih => exact barren_withPointers.2 ih
  | builtin | bareOpaque | array | map => exact fun _ => rfl

end Descriptor

namespace Resolver

variable {r : Resolver} {I : Registry → Prop} {inner : TypeId → Resolving Descriptor}
  {id i : TypeId} {decl : TypeDecl} {dir : Direction} {q : QName} {c : Chain} {k n : Nat}
  {embeds : List TypeId} {methods : List InterfaceMethod} {name : String}

/-- Without a link an alias stands for nothing that has methods. -/
theorem barren_aliasBase {links : AliasLinks} (hl : r.usableLink? id links = none) (c : Chain) :
    ((r.aliasBase inner id links).run c).1.Barren := by
  obtain ⟨d, hd, hbase⟩ := aliasBase_of_no_link inner hl
  rw [hbase]
  exact hd.barren

/-- In place, only interfaces and aliases have methods. -/
theorem barren_inlined_body {kd : Kind} (hi : kd.isInterface = false) (ha : kd.isAlias = false)
    (c : Chain) : ((r.body inner id kd).run c).1.inlined.Barren := by
  cases kd with
  | scalar s => exact s.elementary_descriptor.barren
  | struct fields => exact fun _ => rfl
  | interface embeds methods => simp [Kind.isInterface] at hi
  | aliasOf links => simp [Kind.isAlias] at ha
  | array a =>
    change ((r.arrayShape inner a).run c).1.Barren
    unfold arrayShape
    split <;> exact fun _ => rfl
  | map m => exact fun _ => rfl
  | function s => exact fun _ => rfl
  | channel | any => exact fun _ => rfl

/-! ## Where methods are drawn from -/

/-- What an interface embeds, and what an alias stands for. -/
def sources (r : Resolver) (id : TypeId) : Kind → List TypeId
  | .interface embeds _ => embeds
  | .aliasOf links => (r.usableLink? id links).toList
  | _ => []

theorem sources_subset_visits (id : TypeId) (kd : Kind) : r.sources id kd ⊆ r.visits id kd := by
  intro i hi
  cases kd with
  | interface embeds methods => exact List.mem_append_right _ hi
  | aliasOf links => exact hi
  | _ => simp [sources] at hi

/-- Who embeds the type finds methods there: it is an interface, or an alias without a name, which
is no more than what it stands for. -/
def Conveys (r : Resolver) (i : TypeId) : Prop :=
  ∃ decl, r.project.type? i = some decl ∧
    (decl.kind.isInterface = true ∨ decl.kind.isAlias = true ∧ decl.qname? = none)

/-- A type takes over the methods of another one. -/
structure Draws (r : Resolver) (id i : TypeId) : Prop where
  source : ∃ dir decl, r.Opens dir id decl ∧ i ∈ r.sources id decl.kind
  conveys : r.Conveys i

/-- The methods that a type has by right: those that it declares as an interface, and those of the
types that it draws from. -/
inductive Bears (r : Resolver) : TypeId → String → Prop
  | declared {dir : Direction} {id : TypeId} {decl : TypeDecl} {embeds : List TypeId}
      {methods : List InterfaceMethod} {m : InterfaceMethod} :
      r.Opens dir id decl → decl.kind = .interface embeds methods → m ∈ methods → Bears r id m.name
  | drawn {id i : TypeId} {name : String} : r.Draws id i → Bears r i name → Bears r id name

/-- Firm as far as a number of types drawn from one behind the other. -/
def FirmAt (r : Resolver) : Nat → TypeId → Prop := r.OnwardAt r.sources r.Draws

/-- Nothing that a type draws methods from leads back to where they are drawn, and both directions
treat all of it alike. -/
def Firm (r : Resolver) (id : TypeId) : Prop := ∃ k, r.FirmAt k id

theorem Draws.hands (h : r.Draws id i) : r.Hands id i := by
  obtain ⟨dir, decl, ho, hi⟩ := h.source
  exact ⟨dir, decl, ho, sources_subset_visits id decl.kind hi⟩

theorem firm_of_rank {rank : TypeId → Nat}
    (h : ∀ t ∈ r.project.types, ∀ i ∈ r.visits t.1 t.2.kind, rank i < rank t.1)
    (heven : ∀ t ∈ r.project.types,
      Direction.outbound.isOverriddenBy t.2.capabilities =
        Direction.inbound.isOverriddenBy t.2.capabilities) (id : TypeId) :
    r.Firm id :=
  ⟨_, onwardAt_of_rank h heven r.sources (fun _ i hi => ⟨i, hi.hands, .refl⟩) id⟩

theorem Bears.exists_opens (h : r.Bears id name) : ∃ dir decl, r.Opens dir id decl := by
  cases h with
  | declared ho _ _ => exact ⟨_, _, ho⟩
  | drawn hdraws _ =>
    obtain ⟨dir, decl, ho, -⟩ := hdraws.source
    exact ⟨dir, decl, ho⟩

theorem bears_iff (ho : r.Opens dir id decl) : r.Bears id name ↔
    (∃ embeds methods, decl.kind = .interface embeds methods ∧ ∃ m ∈ methods, m.name = name) ∨
      ∃ i ∈ r.sources id decl.kind, r.Draws id i ∧ r.Bears i name := by
  constructor
  · intro h
    cases h with
    | declared ho' hk hm =>
      obtain rfl := ho.decl_eq ho'.declared
      exact .inl ⟨_, _, hk, _, hm, rfl⟩
    | drawn hdraws hname =>
      obtain ⟨dir', decl', ho', hi⟩ := hdraws.source
      obtain rfl := ho.decl_eq ho'.declared
      exact .inr ⟨_, hi, hdraws, hname⟩
  · rintro (⟨embeds, methods, hk, m, hm, rfl⟩ | ⟨i, -, hdraws, hname⟩)
    · exact .declared ho hk hm
    · exact .drawn hdraws hname

/-! ## Method sets -/

theorem mem_names_selectMethods (declared embedded : List (MethodShape Descriptor)) :
    name ∈ (selectMethods declared embedded).map (·.name) ↔
      name ∈ declared.map (·.name) ∨ name ∈ embedded.map (·.name) := by
  have hsorted := (List.mergeSort_perm (distinctOn (·.name) (declared.reverse ++ embedded))
    fun a b => decide (a.name ≤ b.name)).map (·.name)
  rw [selectMethods, hsorted.mem_iff, mem_map_distinctOn]
  simp

/-- The methods of an interface go by the names that it declares and by those that its embeds bring
in. -/
theorem keeps_methodSet_names {L : Law Chain} {pre : Chain → Prop}
    {P : TypeId → List (MethodShape Descriptor) → Chain → Prop} (hpre : L.Stable pre)
    (hP : ∀ e ms, L.Stable (P e ms))
    (hcall : ∀ m ∈ methods, L.Keeps pre (r.callShape inner m.signature) fun _ _ => True)
    (h : ∀ e ∈ embeds, L.Keeps pre (embeddedMethods inner e) (P e)) :
    L.Keeps pre (r.methodSet inner embeds methods) fun ms c =>
      ∃ mss, List.Forall₂ (P · · c) embeds mss ∧ ∀ name, name ∈ ms.map (·.name) ↔
        (∃ m ∈ methods, m.name = name) ∨ ∃ brought ∈ mss, name ∈ brought.map (·.name) := by
  unfold methodSet
  have hdeclared : L.Keeps pre
      (methods.mapM fun m => do return (⟨m.name, ← r.callShape inner m.signature⟩ : MethodShape _))
      fun ds _ => List.Forall₂ (fun m (d : MethodShape Descriptor) => d.name = m.name) methods ds :=
    .mapM hpre (fun m d => Law.stable_const _) methods fun m hm =>
      .bind hpre (hcall m hm) fun _ => .pure fun _ _ _ => rfl
  refine .bind hpre hdeclared fun ds => ?_
  refine .bind (hpre.and (Law.stable_const _)) ((Law.Keeps.mapM hpre hP embeds h).mono
    (fun _ hp => hp.1) fun _ _ _ h => h) fun mss => .pure ?_
  rintro c - ⟨⟨-, hds⟩, hmss⟩
  have hnames : ds.map (·.name) = methods.map (·.name) := by
    clear hcall hdeclared
    induction hds with
    | nil => rfl
    | cons hd _ ih => simp [hd, ih]
  refine ⟨mss, hmss, fun name => ?_⟩
  rw [mem_names_selectMethods, hnames, List.map_flatten, List.mem_flatten]
  simp

/-! ## Methods in a chain -/

/-- Wherever the body of the type is resolved, far enough down, its methods in place are those that
it has by right. -/
def Tells (r : Resolver) (k : Nat) : Prop :=
  ∀ ⦃id decl n c⦄, r.FirmAt k id → r.Site (r.layer k) n id decl c →
    ∀ name, name ∈ ((((r.body (r.resolveType n) id decl.kind).run c).2.registry.methodsBy
      ((r.body (r.resolveType n) id decl.kind).run c).1.inlined).map (·.name)) ↔ r.Bears id name

theorem map_name_methodsBy_named {reg : Registry} {e : Definition} (he : reg.get? q = some e) :
    (reg.methodsBy (.named q)).map (·.name) = e.body.methodNames?.getD [] := by
  have hbody : reg.body? q = some e.body := by rw [Registry.body?, he]; rfl
  simp only [Registry.methodsBy, Descriptor.named, hbody]
  cases e.body <;> rfl

theorem methodsBy_inlined_interface (reg : Registry) (ms : List (MethodShape Descriptor)) :
    reg.methodsBy (Body.interface ms).inlined = ms := by
  cases ms <;> rfl

theorem eq_interface_of_isInterface {kd : Kind} (h : kd.isInterface = true) :
    ∃ embeds methods, kd = .interface embeds methods := by
  cases kd with
  | interface embeds methods => exact ⟨embeds, methods, rfl⟩
  | _ => simp [Kind.isInterface] at h

theorem Born.exists_methodNames {b : Body} (hb : r.Born I id b)
    (hd : r.project.type? id = some decl) (hk : decl.kind.isInterface = true) :
    ∃ names, b.methodNames? = some names := by
  obtain ⟨n, decl', c, hsite, rfl⟩ := hb
  obtain rfl := hsite.opens.decl_eq hd
  obtain ⟨embeds, methods, hk⟩ := eq_interface_of_isInterface hk
  rw [hk]
  exact ⟨_, rfl⟩

/-- A body of an interface has the methods that the interface has by right. -/
theorem Tells.born (h : r.Tells k) (hf : r.FirmAt k id) (hd : r.project.type? id = some decl)
    (hk : decl.kind.isInterface = true) {b : Body} (hb : r.Born (r.layer k) id b) :
    ∃ names, b.methodNames? = some names ∧ ∀ name, name ∈ names ↔ r.Bears id name := by
  obtain ⟨n, decl', c, hsite, rfl⟩ := hb
  obtain rfl := hsite.opens.decl_eq hd
  have hnames := h hf hsite
  obtain ⟨embeds, methods, hk⟩ := eq_interface_of_isInterface hk
  rw [hk] at hnames ⊢
  refine ⟨((r.methodSet (r.resolveType n) embeds methods).run c).1.map (·.name), rfl,
    fun name => ?_⟩
  rw [← hnames name]
  exact Iff.of_eq (congrArg (name ∈ ·.map (·.name)) (methodsBy_inlined_interface _ _).symm)

section

variable (hdistinct : r.project.Distinct) (h : r.Tells k)

include hdistinct h

/-- A firm interface that does not lead back has been expanded when it has been met, and its methods
are there. -/
theorem keeps_interface (hf : r.FirmAt k i) (hleads : ¬ r.Leads i id) {declI : TypeDecl}
    (hi : i ∈ r.visits id decl.kind) (ho : r.Opens dir i declI) (hk : declI.kind.isInterface = true)
    (hq : declI.qname? = some q) :
    (r.lawOf (r.layer (k + 1))).Keeps (r.Site (r.layer (k + 1)) n id decl) (r.resolveType n i)
      fun d c => c.registry.contains q ∧
        ∀ name, name ∈ (c.registry.methodsBy d).map (·.name) ↔ r.Bears i name := by
  refine (keeps_named hdistinct hi hleads hf.even ho hq).weaken ?_
  rintro _ c - ⟨rfl, e, he, hborn⟩
  obtain ⟨names, hnames, hiff⟩ := h.born hf ho.declared hk hborn
  refine ⟨Option.isSome_iff_exists.2 ⟨e, he⟩, fun name => ?_⟩
  rw [map_name_methodsBy_named he, hnames]
  exact hiff name

/-- The same of an interface or an alias that is expanded in place. -/
theorem keeps_unnamed (hf : r.FirmAt k i) (hleads : ¬ r.Leads i id) {declI : TypeDecl}
    (hi : i ∈ r.visits id decl.kind) (ho : r.Opens dir i declI) (hname : declI.qname? = none) :
    (r.lawOf (r.layer (k + 1))).Keeps (r.Site (r.layer (k + 1)) n id decl) (r.resolveType n i)
      fun d c => ∀ name, name ∈ (c.registry.methodsBy d).map (·.name) ↔ r.Bears i name := by
  intro c hc hsite
  have hu := hsite.underway.visit hsite.opens hi
  obtain ⟨hc', hle, -⟩ := keeps_of_steps (steps_layer hdistinct (k + 1)) n i c hc hu
  obtain ⟨m, hin, hrun⟩ := exists_site_of_unnamed (steps_layer hdistinct (k + 1)) hc hu
    (hf.even.opens ho _) hname fun hmem => hleads (hsite.underway.path i hmem)
  refine ⟨hc', hle, ?_⟩
  rw [hrun]
  exact h hf (hin.mono fun _ h => h.1)

end

/-- An answer that needs no look inside is a name, or has no methods. -/
theorem barren_or_named_of_answer? {d : Descriptor} (h : r.answer? dir i = some d) :
    d.Barren ∨ ∃ decl q, r.Opens dir i decl ∧ decl.qname? = some q ∧ d = .named q := by
  unfold answer? at h
  split at h
  · exact .inl (Option.some.inj h ▸ (SubstitutionTable.elementary_guess _ _).barren)
  · next decl hd =>
    split at h
    · next s hs => exact .inl (Option.some.inj h ▸ s.elementary_descriptor.barren)
    · next hs =>
      split at h
      · refine .inl (Option.some.inj h ▸ ?_)
        cases decl.qname? <;> exact fun _ => rfl
      · next ho =>
        obtain ⟨q, hq, rfl⟩ := Option.map_eq_some_iff.1 h
        exact .inr ⟨decl, q, ⟨hd, hs, by simpa using ho⟩, hq, rfl⟩

/-- The definition of a type that is no interface is none either. -/
theorem methodNames?_eq_none (hdistinct : r.project.Distinct) (hc : r.Inv (r.layer (k + 1)) c)
    (he : r.Even i) (hd : r.project.type? i = some decl) (hq : decl.qname? = some q)
    (hk : decl.kind.isInterface = false) {e : Definition} (hget : c.registry.get? q = some e) :
    e.body.methodNames? = none := by
  have hnames : r.project.Names i q := ⟨decl, hd, hq⟩
  obtain ⟨decl', horigin⟩ := hc.grounded.origin e (Registry.mem_of_get? hget)
  have htype := hc.grounded.typeId_eq hdistinct hget hnames
  obtain rfl : decl = decl' := Option.some.inj (hd.symm.trans (htype ▸ horigin.declared))
  rcases horigin.reason with hdone | ⟨-, hstub⟩ | ⟨-, hb⟩
  · obtain ⟨m, decl', c', hsite, hb⟩ := hc.registry.2 i q e hnames he (htype ▸ hdone) hget
    obtain rfl := hsite.opens.decl_eq hd
    rw [hb]
    cases hkind : decl.kind with
    | interface embeds methods => simp [hkind, Kind.isInterface] at hk
    | _ => rfl
  · cases hkind : decl.kind with
    | struct fields =>
      rw [hkind] at hstub
      rw [← Option.some.inj hstub]
      rfl
    | interface embeds methods => simp [hkind, Kind.isInterface] at hk
    | _ => simp [hkind, Kind.stub?] at hstub
  · rw [hb]
    rfl

/-- A type that is no interface, nor an alias in place of one, has no methods. -/
theorem keeps_barren (hdistinct : r.project.Distinct) (he : r.Even i)
    (hi : i ∈ r.visits id decl.kind)
    (hno : ∀ dir declI, r.Opens dir i declI → declI.kind.isInterface = false ∧
      (declI.qname? = none → declI.kind.isAlias = false)) :
    (r.lawOf (r.layer (k + 1))).Keeps (r.Site (r.layer (k + 1)) n id decl) (r.resolveType n i)
      fun d c => c.registry.methodsBy d = [] := by
  intro c hc hsite
  have hu := hsite.underway.visit hsite.opens hi
  obtain ⟨hc', hle, hd⟩ := keeps_of_steps (steps_layer hdistinct (k + 1)) n i c hc hu
  refine ⟨hc', hle, ?_⟩
  cases hanswer : r.answer? c.direction i with
  | some d =>
    rw [hd.answer d (hle.direction ▸ hanswer)]
    rcases barren_or_named_of_answer? hanswer with hd | ⟨declI, q, ho, hq, rfl⟩
    · exact hd _
    · cases hget : ((r.resolveType n i).run c).2.registry.get? q with
      | none => simp [Registry.methodsBy, Descriptor.named, Registry.body?, hget]
      | some e =>
        have hnone := methodNames?_eq_none hdistinct hc' he ho.declared hq (hno _ _ ho).1 hget
        have hmap := map_name_methodsBy_named hget
        rwa [hnone, Option.getD_none, List.map_eq_nil_iff] at hmap
  | none =>
    obtain ⟨declI, ho, hname⟩ := exists_opens_of_answer?_eq_none hanswer
    obtain ⟨hint, halias⟩ := hno _ _ ho
    by_cases hmem : i ∈ c.processing
    · have hrun : (r.resolveType n i).run c = (.bareOpaque, c) := by
        cases n <;> rw [resolveType, run_meet_of_unnamed ho hname, if_pos hmem]
      rw [hrun]
      rfl
    · obtain ⟨m, -, hrun⟩ :=
        exists_site_of_unnamed (steps_layer hdistinct (k + 1)) hc hu ho hname hmem
      rw [hrun]
      exact barren_inlined_body hint (halias hname) _ _

section

variable (hdistinct : r.project.Distinct) (h : r.Tells k)

include hdistinct h

/-- What a firm type embeds, or is an alias of, has the methods that it is to have if methods are
drawn from it, and none otherwise. -/
theorem keeps_source (hf : r.FirmAt (k + 1) id) (ho : r.Opens dir id decl)
    (hi : i ∈ r.sources id decl.kind) :
    (r.lawOf (r.layer (k + 1))).Keeps (r.Site (r.layer (k + 1)) n id decl) (r.resolveType n i)
      fun d c => ∀ name, name ∈ (c.registry.methodsBy d).map (·.name) ↔
        r.Draws id i ∧ r.Bears i name := by
  have hvisit := sources_subset_visits id decl.kind hi
  by_cases hconveys : ∃ dir declI, r.Opens dir i declI ∧
      (declI.kind.isInterface = true ∨ declI.kind.isAlias = true ∧ declI.qname? = none)
  · obtain ⟨dir', declI, hoI, hkind⟩ := hconveys
    have hdraws : r.Draws id i := ⟨⟨dir, decl, ho, hi⟩, declI, hoI.declared, hkind⟩
    obtain ⟨hleads, hfI⟩ := hf.2.2 i hdraws
    simp only [hdraws, true_and]
    cases hname : declI.qname? with
    | none => exact keeps_unnamed hdistinct h hfI hleads hvisit hoI hname
    | some q =>
      have hint : declI.kind.isInterface = true := hkind.resolve_right fun hk => by
        simp [hname] at hk
      exact (keeps_interface hdistinct h hfI hleads hvisit hoI hint hname).weaken
        fun _ _ _ hd => hd.2
  · refine (keeps_barren hdistinct (hf.2.1 dir decl ho i hi) hvisit fun dir' declI hoI => ?_).weaken
      fun d c _ hd name => ?_
    · refine ⟨Bool.eq_false_iff.2 fun hk => hconveys ⟨dir', declI, hoI, .inl hk⟩, fun hname => ?_⟩
      exact Bool.eq_false_iff.2 fun hk => hconveys ⟨dir', declI, hoI, .inr ⟨hk, hname⟩⟩
    · rw [hd]
      refine iff_of_false (by simp) ?_
      rintro ⟨⟨-, declI, hdI, hkind⟩, hbears⟩
      obtain ⟨dir', declI', hoI⟩ := hbears.exists_opens
      obtain rfl := hoI.decl_eq hdI
      exact hconveys ⟨dir', _, hoI, hkind⟩

end

/-- The method set of an interface where it is expanded. -/
theorem keeps_methodSet_site (hI : r.Steps I)
    {P : TypeId → List (MethodShape Descriptor) → Chain → Prop}
    (hP : ∀ e ms, (r.lawOf I).Stable (P e ms)) (hk : decl.kind = .interface embeds methods)
    (h : ∀ e ∈ embeds, (r.lawOf I).Keeps (r.Site I n id decl) (r.resolveType n e)
      fun d c => P e (c.registry.methodsBy d) c) :
    (r.lawOf I).Keeps (r.Site I n id decl) (r.methodSet (r.resolveType n) embeds methods)
      fun ms c => ∃ mss, List.Forall₂ (P · · c) embeds mss ∧ ∀ name, name ∈ ms.map (·.name) ↔
        (∃ m ∈ methods, m.name = name) ∨ ∃ brought ∈ mss, name ∈ brought.map (·.name) := by
  refine keeps_methodSet_names stable_site hP (fun m hm => ?_) fun e he => ?_
  · refine (keeps_callShape judges_refersIn_lawOf.toWeighs stable_site m.signature
      fun i hi => ?_).weaken fun _ _ _ _ => trivial
    have hvisit : i ∈ r.visits id decl.kind := by
      rw [hk]
      exact List.mem_append_left _ (List.mem_flatMap.2 ⟨m, hm, hi⟩)
    exact (keeps_of_steps hI n i).mono (fun c hs => hs.underway.visit hs.opens hvisit)
      fun _ _ _ hd => hd.refers
  · rw [embeddedMethods_eq]
    refine .bind stable_site (h e he) fun d => .read fun c₀ => .pure ?_
    rintro c - ⟨⟨-, hd⟩, rfl⟩
    exact hd

/-- Wherever a firm type is resolved, its methods are those that it has by right. -/
theorem tells (hdistinct : r.project.Distinct) (k : Nat) : r.Tells k := by
  induction k with
  | zero => exact fun _ _ _ _ hf => hf.elim
  | succ k ih =>
    intro id decl n c hf hsite name
    have hsource {i : TypeId} (hi : i ∈ r.sources id decl.kind) :=
      keeps_source hdistinct ih (n := n) hf hsite.opens hi
    rw [bears_iff hsite.opens]
    cases hk : decl.kind with
    | interface embeds methods =>
      have hembed (e : TypeId) (he : e ∈ embeds) := hsource (i := e) (by rw [hk]; exact he)
      obtain ⟨-, -, mss, hmss, hnames⟩ := keeps_methodSet_site
        (P := fun e ms _ => ∀ name, name ∈ ms.map (·.name) ↔ r.Draws id e ∧ r.Bears e name)
        (steps_layer hdistinct (k + 1)) (fun e ms => Law.stable_const _) hk hembed c hsite.inv hsite
      have hbody : (r.body (r.resolveType n) id (.interface embeds methods)).run c =
        (.interface ((r.methodSet (r.resolveType n) embeds methods).run c).1, _) := rfl
      rw [hbody, methodsBy_inlined_interface, hnames name]
      refine or_congr ?_ ?_
      · simp
      · constructor
        · rintro ⟨ms, hms, hname⟩
          obtain ⟨e, he, hiff⟩ := exists_of_mem_right hmss hms
          exact ⟨e, he, (hiff name).1 hname⟩
        · rintro ⟨e, he, hbears⟩
          obtain ⟨ms, hms, hiff⟩ := exists_of_mem_left hmss he
          exact ⟨ms, hms, (hiff name).2 hbears⟩
    | aliasOf links =>
      cases hl : r.usableLink? id links with
      | some link =>
        obtain ⟨-, -, hiff⟩ := hsource (i := link) (by simp [hk, sources, hl]) c hsite.inv hsite
        rw [run_body_of_link hl]
        refine (hiff name).trans ?_
        simp [sources, hl]
      | none =>
        have hbarren : ((r.body (r.resolveType n) id (.aliasOf links)).run c).1.inlined.Barren :=
          barren_aliasBase hl c
        rw [hbarren]
        simp [sources, hl]
    | scalar | struct | array | map | channel | function | any =>
      rw [barren_inlined_body rfl rfl]
      simp [sources]

end Resolver

end ClientTypes

import ClientTypes.Proofs.Resolve.Surface

/-!
# Names that come with copied members

A name that is answered is noted, so that its namespace is imported. But the members that an unnamed
type copies from behind a name have been resolved elsewhere, in the namespace of the definition that
they belong to, and the names in them are not noted again. So there are three kinds of names in an
answer: those of the chain's own namespace, those of imported ones, and those that are lent.

## Main definitions

* `Resolver.Backs` — the types whose definitions are found behind an id
* `Resolver.Carries`, `Resolver.Shows` — the names that may occur in the body of a type, and in the
  answer for it
* `Resolver.Lends` — the names that come with what is copied on the surface of an answer
* `Resolver.Stocked` — definitions mention no other names than their types carry
* `Resolver.InAnswer` — every name in an answer is of one of the three kinds

The main statement is `keeps_inAnswer`.
-/

namespace ClientTypes

namespace Resolver

variable {r : Resolver} {I : Registry → Prop} {K : Chain → Prop} {dir : Direction}
  {id i j u : TypeId} {decl : TypeDecl} {name q : QName} {c : Chain} {n : Nat}
  {s : Shape Descriptor}

/-! ## Names in bodies and answers -/

/-- Two types of one name, which share a definition. -/
def Namesakes (r : Resolver) (i j : TypeId) : Prop :=
  ∃ q, r.project.Names i q ∧ r.project.Names j q

/-- The types whose definitions are found behind an id: the type that the id stands for, and behind
an alias the type that it leans on. -/
inductive Backs (r : Resolver) : TypeId → TypeId → Prop
  | fronts {id last u : TypeId} : r.Fronts id last → r.Namesakes last u → Backs r id u
  | leans {id u last v : TypeId} : Backs r id u → r.Leans u last → r.Namesakes last v → Backs r id v

/-- The names that may occur in the body of a type: those of its visits, those in the bodies of
unnamed visits, and those that come with copied members. -/
inductive Carries (r : Resolver) : TypeId → QName → Prop
  | name {dir : Direction} {id i : TypeId} {decl : TypeDecl} {q : QName} :
      r.Opens dir id decl → i ∈ r.visits id decl.kind → r.project.Names i q → Carries r id q
  | inline {dir : Direction} {id i : TypeId} {decl : TypeDecl} {q : QName} :
      r.Opens dir id decl → i ∈ r.visits id decl.kind → r.Unnamed i → Carries r i q →
        Carries r id q
  | copy {dir : Direction} {id j u : TypeId} {decl : TypeDecl} {q : QName} :
      r.Opens dir id decl → j ∈ r.takes decl.kind → r.Backs j u → Carries r u q → Carries r id q

/-- The names that may occur in the answer for an id. -/
def Shows (r : Resolver) (id : TypeId) (q : QName) : Prop :=
  r.project.Names id q ∨ r.Unnamed id ∧ r.Carries id q

/-- The answer for an id may take a name from the definition of another type: one that an unnamed
type on its surface copies members from. -/
def Lends (r : Resolver) (dir : Direction) (id : TypeId) (q : QName) : Prop :=
  ∃ i decl j u, r.ShowsIn dir id i ∧ r.Opens dir i decl ∧ decl.qname? = none ∧
    j ∈ r.takes decl.kind ∧ r.Backs j u ∧ r.Carries u q

theorem Shows.carries (h : r.Shows i q) (ho : r.Opens dir id decl)
    (hi : i ∈ r.visits id decl.kind) : r.Carries id q := by
  rcases h with hq | ⟨hunnamed, hq⟩
  · exact .name ho hi hq
  · exact .inline ho hi hunnamed hq

theorem Lends.of_unfolds (h : r.Lends dir i q) (hi : r.Unfolds dir id i) : r.Lends dir id q := by
  obtain ⟨k, decl, j, u, hk, h⟩ := h
  exact ⟨k, decl, j, u, .head hi hk, h⟩

/-- Where no unnamed type copies members, no name is lent. -/
theorem not_lends_of_takes_eq_nil
    (h : ∀ t ∈ r.project.types, t.2.qname? = none → r.takes t.2.kind = []) :
    ¬ r.Lends dir id q := by
  rintro ⟨i, decl, j, u, -, ho, hname, hj, -⟩
  rw [h _ (Project.mem_types_of_type? ho.declared) hname] at hj
  simp at hj

/-- Definitions mention no other names than their types carry. -/
def Stocked (r : Resolver) (reg : Registry) : Prop :=
  ∀ e ∈ reg.definitions, e.body.All fun s => ∀ q, s.reference? = some q → r.Carries e.typeId q

/-- The name is of the chain's own namespace, or of an imported one, or it is lent. -/
def Accounts (r : Resolver) (id : TypeId) (c : Chain) (q : QName) : Prop :=
  q.ns = c.ns ∨ q.ns ∈ c.imports ∨ r.Lends c.direction id q

/-- What is known of the names in the answer for an id. -/
def InAnswer (r : Resolver) (id : TypeId) (c : Chain) (s : Shape Descriptor) : Prop :=
  ∀ q, s.reference? = some q → r.Shows id q ∧ r.Accounts id c q

/-- What is known of the names in the body of a type. -/
def InBody (r : Resolver) (id : TypeId) (c : Chain) (s : Shape Descriptor) : Prop :=
  ∀ q, s.reference? = some q → r.Carries id q ∧ (r.Unnamed id → r.Accounts id c q)

theorem plain_inAnswer : Plain (r.InAnswer id c) := by
  intro s hs q hq
  simp [hs] at hq

theorem plain_inBody : Plain (r.InBody id c) := by
  intro s hs q hq
  simp [hs] at hq

theorem Accounts.of_extends {c' : Chain} (h : r.Accounts id c q) (hext : c.Extends c') :
    r.Accounts id c' q := by
  rcases h with hq | hq | hq
  · exact .inl (hq.trans hext.ns.symm)
  · exact .inr (.inl (hext.imports hq))
  · exact .inr (.inr (hext.direction ▸ hq))

/-- A name that has been noted is accounted for. -/
theorem accounts_note (name : QName) (c : Chain) : r.Accounts id (c.note name) name := by
  by_cases hns : name.ns = c.ns
  · exact .inl (hns.trans (Chain.extends_note name c).ns.symm)
  · exact .inr (.inl (Chain.mem_imports_note.2 (.inl ⟨rfl, hns⟩)))

theorem weighs_inBody (id : TypeId) : (r.lawWith I K).Weighs (r.InBody id) where
  stable s _ _ _ hle h q hq := by
    obtain ⟨hcarries, haccounts⟩ := h q hq
    exact ⟨hcarries, fun hid => (haccounts hid).of_extends hle⟩
  solid _ := plain_inBody.solid

/-! ## Bodies -/

/-- The names in the answer for a visit occur in the body. -/
theorem inBody_of_visit (ho : r.Opens c.direction id decl) (hi : i ∈ r.visits id decl.kind)
    (h : r.InAnswer i c s) : r.InBody id c s := by
  intro q hq
  obtain ⟨hshows, haccounts⟩ := h q hq
  refine ⟨hshows.carries ho hi, fun ⟨decl', hd, hname⟩ => ?_⟩
  obtain rfl := ho.decl_eq hd
  rcases haccounts with hq | hq | hq
  · exact .inl hq
  · exact .inr (.inl hq)
  · exact .inr (.inr (hq.of_unfolds ⟨decl', ho, hname, hi⟩))

/-- The names in copied members occur in the body, and they are lent. -/
theorem inBody_of_copy (ho : r.Opens c.direction id decl) (hj : j ∈ r.takes decl.kind)
    (h : ∀ q, s.reference? = some q → ∃ u, r.Backs j u ∧ r.Carries u q) : r.InBody id c s := by
  intro q hq
  obtain ⟨u, hu, hcarries⟩ := h q hq
  refine ⟨.copy ho hj hu hcarries, fun ⟨decl', hd, hname⟩ => ?_⟩
  obtain rfl := ho.decl_eq hd
  exact .inr (.inr ⟨id, decl', j, u, .refl, ho, hname, hj, hu, hcarries⟩)

/-- The definition of a name comes from a type of that name, and mentions what the type carries. -/
theorem exists_carries_of_get? (hc : r.Inv r.Leaning c) (hs : r.Stocked c.registry)
    {e : Definition} (he : c.registry.get? q = some e) : r.project.Names e.typeId q ∧
      e.body.All fun s => ∀ q, s.reference? = some q → r.Carries e.typeId q := by
  have hmem := Registry.mem_of_get? he
  obtain ⟨decl, horigin⟩ := hc.grounded.origin e hmem
  exact ⟨Registry.name_of_get? he ▸ horigin.names, hs e hmem⟩

/-- The properties behind a name mention what the types behind it carry. -/
theorem carries_of_structFrom (hc : r.Inv r.Leaning c) (hs : r.Stocked c.registry)
    {met : List QName} {ps : List (Property Descriptor)}
    (hps : c.registry.structFrom met q = some ps)
    (hq : ∀ u, r.project.Names u q → r.Backs j u) :
    ∀ x ∈ ps, x.type.All fun s => ∀ q, s.reference? = some q →
      ∃ u, r.Backs j u ∧ r.Carries u q := by
  fun_induction Registry.structFrom c.registry met q with
  | case3 met q hmet e he ps' hb =>
    obtain rfl : ps' = ps := Option.some.inj hps
    obtain ⟨hnames, hall⟩ := exists_carries_of_get? hc hs he
    rw [hb] at hall
    intro x hx
    refine (hall x.type (List.mem_map_of_mem hx)).imp fun s h q' hq' => ?_
    exact ⟨e.typeId, hq _ hnames, h q' hq'⟩
  | case5 met q hmet e he t hb next hnext ih =>
    refine ih hps fun u hu => ?_
    obtain ⟨hnames, -⟩ := exists_carries_of_get? hc hs he
    obtain ⟨last, hlast, hlastnames⟩ :=
      hc.registry e (Registry.mem_of_get? he) t next hb hnext
    exact .leans (hq _ hnames) hlast ⟨next, hlastnames, hu⟩
  | case1 | case2 | case4 | case6 => simp at hps

/-- What can be copied from behind an answer occurs in the body. -/
theorem provides_inBody (hc : r.Inv r.Leaning c) (hs : r.Stocked c.registry)
    (ho : r.Opens c.direction id decl) (hj : j ∈ r.takes decl.kind) {d : Descriptor}
    (hstands : r.Stands j d) (hd : d.All (r.InBody id c)) :
    c.registry.Provides (r.InBody id c) d := by
  have hbacks {q : QName} (hshape : d.shape = .named q) (u : TypeId)
      (hu : r.project.Names u q) : r.Backs j u := by
    obtain ⟨last, hlast, hnames⟩ := hstands q hshape
    exact .fronts hlast ⟨q, hnames, hu⟩
  apply Registry.provides_of_named hd
  · intro q ps hshape hps x hx
    exact (carries_of_structFrom hc hs hps (hbacks hshape) x hx).imp fun _ h =>
      inBody_of_copy ho hj h
  · intro q e hshape he
    obtain ⟨hnames, hall⟩ := exists_carries_of_get? hc hs he
    refine hall.imp fun _ h => inBody_of_copy ho hj fun q' hq' => ?_
    exact ⟨e.typeId, hbacks hshape _ hnames, h q' hq'⟩

theorem keeps_inBody (h : ∀ i, (r.lawWith r.Leaning fun c => r.Stocked c.registry).Keeps
      (r.Underway n i) (r.resolveType n i) fun d c => d.All (r.InAnswer i c)) :
    (r.lawWith r.Leaning fun c => r.Stocked c.registry).Keeps (r.Site r.Leaning n id decl)
      (r.body (r.resolveType n) id decl.kind) fun b c => b.All (r.InBody id c) := by
  have hvisit (i : TypeId) (hi : i ∈ r.visits id decl.kind) :
      (r.lawWith r.Leaning fun c => r.Stocked c.registry).Keeps (r.Site r.Leaning n id decl)
        (r.resolveType n i) fun d c => d.All (r.InBody id c) ∧ r.Site r.Leaning n id decl c := by
    refine ((h i).under stable_site_lawWith).mono
      (fun c hs => ⟨hs.underway.visit hs.opens hi, hs⟩) fun d c _ ⟨hd, hs⟩ => ?_
    exact ⟨hd.imp fun _ => inBody_of_visit hs.opens hi, hs⟩
  refine keeps_body_of_provides (weighs_inBody id) stable_site_lawWith id decl.kind
    (fun _ _ => plain_inBody) (fun i hi => (hvisit i hi).weaken fun _ _ _ hd => hd.1)
    fun j hj c hc hs => ?_
  obtain ⟨hc', hle, hd, hs'⟩ := hvisit j (takes_subset_visits id decl.kind hj) c hc hs
  exact ⟨hc', hle, provides_inBody hc'.1 hc'.2 hs'.opens hj (stands_resolveType n j c) hd⟩

/-! ## Answers -/

theorem Stocked.register (h : r.Stocked c.registry) {d : Definition}
    (hd : d.body.All fun s => ∀ q, s.reference? = some q → r.Carries d.typeId q) :
    r.Stocked (c.register d).registry := by
  rw [Chain.registry_register]
  exact Registry.forall_mem_merge h hd

theorem Stocked.note (h : r.Stocked c.registry) (name : QName) :
    r.Stocked (c.note name).registry := by
  rw [Chain.registry_note]
  exact h

theorem Stocked.complete (h : r.Stocked c.registry) {d : Definition}
    (hd : d.body.All fun s => ∀ q, s.reference? = some q → r.Carries d.typeId q) :
    r.Stocked (c.complete d).registry := by
  rw [Chain.registry_complete, Stocked, Registry.definitions_markExpanded]
  exact Registry.forall_mem_merge h hd

/-- A name that is answered and noted. -/
theorem inAnswer_of_names (hq : r.project.Names id name) (h : r.Accounts id c name)
    (hs : s.reference? = some name) : r.InAnswer id c s := by
  intro q hname
  obtain rfl : name = q := Option.some.inj (hs.symm.trans hname)
  exact ⟨.inl hq, h⟩

theorem stocked_meet {pre : Chain → Prop} {expansion : TypeId → TypeDecl → Resolving Descriptor}
    (h : ∀ decl, (Chain.law fun c => r.Stocked c.registry).Keeps
      (fun c => pre c ∧ r.Opens c.direction id decl ∧ id ∉ c.processing ∧
        (decl.qname? ≠ none → (id, c.direction) ∉ c.registry.expanded))
      (expansion id decl) fun d c => d.All (r.InAnswer id c)) :
    (Chain.law fun c => r.Stocked c.registry).Keeps pre (r.meet expansion id)
      fun d c => d.All (r.InAnswer id c) := by
  refine .meet (fun _ c _ _ => (SubstitutionTable.elementary_guess _ _).all plain_inAnswer)
    (fun _ s _ _ c _ _ => s.elementary_descriptor.all plain_inAnswer) (fun decl => ?_)
    (fun decl name hname => ?_) (fun decl name hname => ?_)
    (fun _ _ c _ _ _ _ => Descriptor.all_bareOpaque plain_inAnswer) h
  · rintro c hc ⟨-, hh⟩
    cases hname : decl.qname? with
    | none =>
      rw [hide_of_unnamed hname]
      exact ⟨hc, .refl c, Descriptor.all_bareOpaque plain_inAnswer⟩
    | some name =>
      rw [run_hide_of_named hname]
      refine ⟨?_, Chain.extends_register _ c, Descriptor.all_opaqueAs ?_⟩
      · apply Stocked.register hc
        exact Body.all_aliasOf.2 (Descriptor.all_bareOpaque fun s hs q hq => by simp [hs] at hq)
      · exact inAnswer_of_names ⟨decl, hh.declared, hname⟩ (accounts_note name _) rfl
  · rintro c hc ⟨-, ho, -⟩
    have hnames : r.project.Names id name := ⟨decl, ho.declared, hname⟩
    rw [run_referBack]
    split
    · next stub hstub =>
      refine ⟨Stocked.register hc (Body.all_of_stub? hstub), Chain.extends_register _ c, ?_⟩
      exact Descriptor.all_named (inAnswer_of_names hnames (accounts_note name _) rfl)
    · refine ⟨Stocked.note hc name, Chain.extends_note name c, ?_⟩
      exact Descriptor.all_named (inAnswer_of_names hnames (accounts_note name c) rfl)
  · rintro c hc ⟨-, ho, -⟩
    refine ⟨Stocked.note hc name, Chain.extends_note name c, Descriptor.all_named ?_⟩
    exact inAnswer_of_names ⟨decl, ho.declared, hname⟩ (accounts_note name c) rfl

theorem stocked_expand (h : ∀ i, (r.lawWith r.Leaning fun c => r.Stocked c.registry).Keeps
      (r.Underway n i) (r.resolveType n i) fun d c => d.All (r.InAnswer i c)) :
    (Chain.law fun c => r.Stocked c.registry).Keeps (fun c => r.Inv r.Leaning c ∧
      r.Underway (n + 1) id c ∧ r.Opens c.direction id decl ∧ id ∉ c.processing)
      (r.expand (r.resolveType n) id decl) fun d c => d.All (r.InAnswer id c) := by
  refine keeps_expand_everywhere (keeps_inBody h) (fun hname c hc ho => ?_)
    fun name hname c hc ho => ?_
  · refine ⟨hc, fun b c' hc' hle hb => ⟨hc', ?_⟩⟩
    have hunnamed : r.Unnamed id := ⟨decl, ho.declared, hname⟩
    refine Body.All.inlined plain_inAnswer (hb.imp fun s h q hq => ?_)
    obtain ⟨hcarries, haccounts⟩ := h q hq
    exact ⟨.inr ⟨hunnamed, hcarries⟩, haccounts hunnamed⟩
  · refine ⟨hc, fun b c' hc' hle hb => ⟨?_, Descriptor.all_named ?_⟩⟩
    · have hbody : (definition id decl name b).body.All
          fun s => ∀ q, s.reference? = some q → r.Carries id q :=
        hb.imp fun s h q hq => (h q hq).1
      have hstocked : r.Stocked (c.leave c').registry := hc'
      exact hstocked.complete hbody
    · exact inAnswer_of_names ⟨decl, ho.declared, hname⟩ (accounts_note name _) rfl

/-- Every name in an answer is of the chain's own namespace, or of an imported one, or lent. -/
theorem keeps_inAnswer (n : Nat) (id : TypeId) :
    (r.lawWith r.Leaning fun c => r.Stocked c.registry).Keeps (r.Underway n id)
      (r.resolveType n id) fun d c => d.All (r.InAnswer id c) :=
  keeps_resolveType_everywhere r.steps_leaning (fun id d c => d.All (r.InAnswer id c))
    (fun _ _ _ => stocked_meet) (fun _ _ _ => stocked_expand) n id

end Resolver

end ClientTypes

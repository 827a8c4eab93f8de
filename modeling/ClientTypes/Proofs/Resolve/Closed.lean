import ClientTypes.Proofs.Resolve.Descent
import ClientTypes.Proofs.Resolve.Meet

/-!
# References have definitions

A reference is handed out before its type is defined, while the type is being expanded. So what
holds at every moment is this: a name that is referred to is the name of a type that has been
expanded in some direction, or that is being expanded right now, or of an opaque definition. When
an expansion ends its type moves from the second kind to the first, and when the chain ends none of
the second kind is left.

## Main definitions

* `Resolver.Refers` — a shape refers to a name of one of these kinds, if to any
* `Resolver.Closed` — all bodies of a registry do, and what has been expanded is defined
* `Resolver.closedLaw` — the law of chains that says so, and the same of the imports noted

The main statements are `answers_resolve` and `answers_resolveRoot`.
-/

namespace ClientTypes

theorem Body.all_of_stub? {p : Shape Descriptor → Prop} {k : Kind} {stub : Body}
    (h : k.stub? = some stub) : stub.All p := by
  rcases Kind.stub?_cases h with rfl | rfl <;> simp [Body.All, Body.types]

namespace Resolver

variable {r : Resolver} {P : List TypeId} {reg reg' : Registry} {id : TypeId} {decl : TypeDecl}
  {name : QName} {dir : Direction}

/-- A declared type of the name has been expanded, or is among those being expanded. -/
def Expands (r : Resolver) (P : List TypeId) (reg : Registry) (q : QName) : Prop :=
  ∃ id, r.project.Names id q ∧ (id ∈ P ∨ ∃ dir, (id, dir) ∈ reg.expanded)

/-- The name that a shape refers to, if any, is one that a definition stands for or will stand
for. -/
def Refers (r : Resolver) (P : List TypeId) (reg : Registry) : Shape Descriptor → Prop
  | .named q => r.Expands P reg q
  | .opaqueType (some q) => ∃ d, reg.get? q = some d ∧ d.isOpaque
  | _ => True

/-- The bodies of a registry refer to such names, and what has been expanded is defined. -/
structure Closed (r : Resolver) (P : List TypeId) (reg : Registry) : Prop where
  bodies : ∀ d ∈ reg.definitions, d.body.All (r.Refers P reg)
  defined : ∀ {id dir q}, (id, dir) ∈ reg.expanded → r.project.Names id q → reg.contains q

theorem plain_refers : Plain (r.Refers P reg) := by
  intro s hs
  cases s with
  | named => simp [Shape.reference?] at hs
  | opaqueType q => cases q <;> simp_all [Shape.reference?, Refers]
  | _ => trivial

theorem Refers.mono (hP : ∀ i ∈ P, i ∈ P' ∨ (∃ dir, (i, dir) ∈ reg'.expanded) ∨
    ∀ q, ¬ r.project.Names i q) (hreg : reg.Extends reg') {s : Shape Descriptor}
    (h : r.Refers P reg s) : r.Refers P' reg' s := by
  cases s with
  | named q =>
    obtain ⟨i, hq, hi | ⟨dir, hi⟩⟩ := h
    · rcases hP i hi with hi | hi | hi
      · exact ⟨i, hq, .inl hi⟩
      · exact ⟨i, hq, .inr hi⟩
      · exact absurd hq (hi q)
    · exact ⟨i, hq, .inr ⟨dir, hreg.expanded hi⟩⟩
  | opaqueType q =>
    cases q with
    | none => trivial
    | some q =>
      obtain ⟨d, hd, hop⟩ := h
      exact ⟨d, hreg.isOpaque hd hop, hop⟩
  | _ => trivial

theorem Refers.of_extends (hreg : reg.Extends reg') {s : Shape Descriptor}
    (h : r.Refers P reg s) : r.Refers P reg' s :=
  h.mono (fun _ hi => .inl hi) hreg

/-- Outside of any expansion, what a shape refers to is defined. -/
theorem Closed.contains_of_refers (hc : r.Closed [] reg) {s : Shape Descriptor}
    (h : r.Refers [] reg s) {q : QName} (hq : s.reference? = some q) : reg.contains q := by
  cases s with
  | named q' =>
    obtain rfl : q' = q := by simpa [Shape.reference?] using hq
    obtain ⟨i, hi, hmem | ⟨dir, hmem⟩⟩ := h
    · simp at hmem
    · exact hc.defined hmem hi
  | opaqueType q' =>
    obtain rfl : q' = some q := by simpa [Shape.reference?] using hq
    obtain ⟨d, hd, -⟩ := h
    simp [Registry.contains, hd]
  | _ => simp [Shape.reference?] at hq

theorem Closed.empty (r : Resolver) : r.Closed [] {} := ⟨by simp, by simp⟩

/-! ## Steps of the registry -/

theorem Closed.merge (hc : r.Closed P reg) {d : Definition} (hd : d.body.All (r.Refers P reg)) :
    r.Closed P (reg.merge d) where
  bodies e he := by
    rcases Registry.mem_definitions_of_mem_merge he with rfl | he
    · exact hd.imp fun _ => .of_extends (reg.extends_merge _)
    · exact (hc.bodies e he).imp fun _ => .of_extends (reg.extends_merge _)
  defined hi hq := Registry.contains_merge.2 (.inr (hc.defined (by simpa using hi) hq))

/-- When an expansion ends, references to its type are references to an expanded type. -/
theorem Closed.complete (hc : r.Closed (id :: P) reg) (hd : r.project.type? id = some decl)
    (hname : decl.qname? = some name) {b : Body} (hb : b.All (r.Refers (id :: P) reg)) :
    r.Closed P ((reg.merge (definition id decl name b)).markExpanded id dir) := by
  have hext : (reg.merge (definition id decl name b)).Extends
      ((reg.merge (definition id decl name b)).markExpanded id dir) :=
    Registry.extends_markExpanded ..
  have hmove (s : Shape Descriptor)
      (hs : r.Refers (id :: P) (reg.merge (definition id decl name b)) s) :
      r.Refers P ((reg.merge (definition id decl name b)).markExpanded id dir) s := by
    refine hs.mono (fun i hi => ?_) hext
    rcases List.mem_cons.1 hi with rfl | hi
    · exact .inr (.inl ⟨dir, by simp⟩)
    · exact .inl hi
  have hmerge : r.Closed (id :: P) (reg.merge (definition id decl name b)) := hc.merge hb
  constructor
  · intro e he
    exact (hmerge.bodies e (by simpa using he)).imp hmove
  · intro i d q hi hq
    rw [Registry.contains_markExpanded, Registry.contains_merge]
    rcases Registry.mem_expanded_markExpanded.1 hi with ⟨rfl, -⟩ | hi
    · exact .inl (Option.some.inj ((hq.qname?_eq hd).symm.trans hname))
    · exact .inr (hc.defined (by simpa using hi) hq)

/-! ## Chains -/

/-- The chain's registry is closed, and its imports are foreign namespaces of names referred to. -/
structure ClosedChain (r : Resolver) (c : Chain) : Prop where
  closed : r.Closed c.processing c.registry
  imports : ∀ ns ∈ c.imports, ns ≠ c.ns ∧
    ∃ s q, r.Refers c.processing c.registry s ∧ s.reference? = some q ∧ q.ns = ns

/-- Chains keep closed. -/
def closedLaw (r : Resolver) : Law Chain := Chain.law r.ClosedChain

/-- A shape refers to such a name in the chain. -/
def RefersIn (r : Resolver) (c : Chain) : Shape Descriptor → Prop :=
  r.Refers c.processing c.registry

theorem judges_refersIn (r : Resolver) : r.closedLaw.Judges r.RefersIn where
  stable s c c' _ hle h := by
    change r.Refers c'.processing c'.registry s
    rw [hle.processing]
    exact Refers.of_extends hle.registry h
  solid _ := plain_refers.solid
  bodies _ hc := hc.closed.bodies

theorem ClosedChain.note {c : Chain} (hc : r.ClosedChain c) {s : Shape Descriptor} {q : QName}
    (hs : r.RefersIn c s) (hq : s.reference? = some q) : r.ClosedChain (c.note q) := by
  have hext := Chain.extends_note q c
  refine ⟨by simpa using hc.closed, fun ns hns => ?_⟩
  rw [hext.ns, Chain.processing_note, Chain.registry_note]
  rcases Chain.mem_imports_note.1 hns with ⟨rfl, hne⟩ | hns
  · exact ⟨hne, s, q, hs, hq, rfl⟩
  · exact hc.imports ns hns

theorem ClosedChain.offer {c : Chain} (hc : r.ClosedChain c) {d : Definition}
    (hd : d.body.All (r.RefersIn c)) : r.ClosedChain (c.offer d) := by
  refine ⟨hc.closed.merge hd, fun ns hns => ?_⟩
  obtain ⟨hne, s, q, hs, hq⟩ := hc.imports ns hns
  exact ⟨hne, s, q, hs.of_extends (c.registry.extends_merge d), hq⟩

/-- Inside of an expansion there is one more type that may be referred to before it is defined. -/
theorem ClosedChain.inside {c : Chain} (hc : r.ClosedChain c) (id : TypeId) :
    r.ClosedChain (c.inside id) := by
  have hmove (s : Shape Descriptor) (hs : r.RefersIn c s) : r.RefersIn (c.inside id) s :=
    hs.mono (fun i hi => .inl (List.mem_cons_of_mem id hi)) (.refl _)
  refine ⟨⟨fun d hd => (hc.closed.bodies d hd).imp hmove, hc.closed.defined⟩, fun ns hns => ?_⟩
  obtain ⟨hne, s, q, hs, hq⟩ := hc.imports ns hns
  exact ⟨hne, s, q, hmove s hs, hq⟩

theorem ClosedChain.enter {c : Chain} (hc : r.ClosedChain c) (id : TypeId) (ns : String) :
    r.ClosedChain (c.enter id ns) :=
  ⟨(hc.inside id).closed, by simp [Chain.enter]⟩

/-- A type without a name is nothing that could be referred to. -/
theorem refers_outside {c c' : Chain} (hle : (c.inside id).Extends c')
    (hnone : ∀ q, ¬ r.project.Names id q) {s : Shape Descriptor} (hs : r.RefersIn c' s) :
    r.RefersIn (c.outside c') s := by
  refine hs.mono (fun i hi => ?_) (.refl _)
  rw [hle.processing] at hi
  rcases List.mem_cons.1 hi with rfl | hi
  · exact .inr (.inr hnone)
  · exact .inl hi

theorem ClosedChain.outside {c c' : Chain} (hc' : r.ClosedChain c')
    (hle : (c.inside id).Extends c') (hnone : ∀ q, ¬ r.project.Names id q) :
    r.ClosedChain (c.outside c') := by
  refine ⟨⟨fun d hd => (hc'.closed.bodies d hd).imp fun s => refers_outside hle hnone,
    hc'.closed.defined⟩, fun ns hns => ?_⟩
  obtain ⟨hne, s, q, hs, hq⟩ := hc'.imports ns hns
  exact ⟨hne, s, q, refers_outside hle hnone hs, hq⟩

/-- After the expansion of a named type its body is registered and its name is referred to. -/
theorem ClosedChain.complete {c c' : Chain} (hc : r.ClosedChain c) (hc' : r.ClosedChain c')
    (hle : (c.enter id name.ns).Extends c') (hd : r.project.type? id = some decl)
    (hname : decl.qname? = some name) {b : Body} (hb : b.All (r.RefersIn c')) :
    r.ClosedChain ((c.leave c').complete (definition id decl name b)) := by
  have hext := Chain.extends_complete (definition id decl name b) (c.leave c')
  have hprocessing : c'.processing = id :: c.processing := hle.processing
  have hclosed := hc'.closed
  unfold RefersIn at hb
  rw [hprocessing] at hclosed hb
  refine ⟨by rw [hext.processing, Chain.registry_complete]; exact hclosed.complete hd hname hb,
    fun ns hns => ?_⟩
  rw [hext.ns, hext.processing]
  rcases Chain.mem_imports_complete.1 hns with ⟨rfl, hne⟩ | hns
  · exact ⟨hne, .named name, name,
      ⟨id, ⟨decl, hd, hname⟩, .inr ⟨_, Chain.mem_expanded_complete _ _⟩⟩, rfl, rfl⟩
  · obtain ⟨hne, s, q, hs, hq⟩ := hc.imports ns hns
    exact ⟨hne, s, q, hs.of_extends (hle.registry.trans hext.registry), hq⟩

/-! ## Resolution -/

theorem answers_hide (hname : decl.qname? = some name) :
    r.closedLaw.Answers r.RefersIn (fun _ => True) (hide id decl) := by
  intro c hc _
  rw [run_hide_of_named hname]
  have hoffer := hc.offer (d := definition id decl name (.aliasOf .bareOpaque))
    (Body.all_aliasOf.2 (Descriptor.all_bareOpaque plain_refers))
  have href : r.RefersIn (c.offer (definition id decl name (.aliasOf .bareOpaque)))
      (.opaqueType (some name)) := Registry.exists_isOpaque_get?_merge rfl
  refine ⟨hoffer.note href rfl, Chain.extends_register _ c, Descriptor.all_opaqueAs ?_⟩
  exact (judges_refersIn r).stable _ (hoffer.note href rfl) (Chain.extends_note _ _) href

theorem answers_refer (name : QName) :
    r.closedLaw.Answers r.RefersIn (fun c => r.RefersIn c (.named name)) (Chain.refer name) := by
  intro c hc href
  have hnote := hc.note href rfl
  refine ⟨hnote, Chain.extends_note name c, Descriptor.all_named ?_⟩
  exact (judges_refersIn r).stable _ hnote (Chain.extends_note name c) href

theorem answers_referBack (name : QName) :
    r.closedLaw.Answers r.RefersIn (fun c => r.RefersIn c (.named name))
      (referBack id decl name) := by
  intro c hc href
  rw [run_referBack]
  split
  · next stub hstub =>
    have hoffer : r.ClosedChain (c.offer (definition id decl name stub)) := by
      exact hc.offer (Body.all_of_stub? hstub)
    have href' := (judges_refersIn r).stable _ hoffer (Chain.extends_offer _ c) href
    have hnote := hoffer.note href' rfl
    refine ⟨hnote, Chain.extends_register _ c, Descriptor.all_named ?_⟩
    exact (judges_refersIn r).stable _ hnote (Chain.extends_note _ _) href'
  · exact answers_refer name c hc href

theorem answers_expand {inner : TypeId → Resolving Descriptor}
    (h : ∀ i, r.closedLaw.Answers r.RefersIn (fun _ => True) (inner i))
    (hd : r.project.type? id = some decl) :
    r.closedLaw.Answers r.RefersIn (fun _ => True) (r.expand inner id decl) := by
  refine .expand
    (keeps_body (judges_refersIn r) (Law.stable_const True) id decl.kind (fun _ _ => plain_refers)
      fun i _ => h i)
    (fun hname c hc _ => ⟨hc.inside id, trivial, fun b c' hc' hle hb => ?_⟩)
    fun name hname c hc _ => ⟨hc.enter id name.ns, trivial, fun b c' hc' hle hb => ?_⟩
  · have hnone : ∀ q, ¬ r.project.Names id q := by
      rintro q ⟨decl', hd', hq⟩
      obtain rfl : decl' = decl := Option.some.inj (hd'.symm.trans hd)
      simp [hname] at hq
    exact ⟨hc'.outside hle hnone, (hb.imp fun s => refers_outside hle hnone).inlined plain_refers⟩
  · exact ⟨hc.complete hc' hle hd hname hb, Descriptor.all_named
      ⟨id, ⟨decl, hd, hname⟩, .inr ⟨_, Chain.mem_expanded_complete _ _⟩⟩⟩

/-- What is resolved refers to names that have been or are being expanded, and to opaque ones. -/
theorem answers_resolveType (r : Resolver) (depth : Nat) (id : TypeId) :
    r.closedLaw.Answers r.RefersIn (fun _ => True) (r.resolveType depth id) := by
  have hmeet (expansion : TypeId → TypeDecl → Resolving Descriptor) (id : TypeId)
      (h : ∀ decl, r.project.type? id = some decl →
        r.closedLaw.Answers r.RefersIn (fun _ => True) (expansion id decl)) :
      r.closedLaw.Answers r.RefersIn (fun _ => True) (r.meet expansion id) := by
    refine .meet (fun _ c _ _ => (SubstitutionTable.elementary_guess _ _).all plain_refers)
      (fun _ s _ _ c _ _ => s.elementary_descriptor.all plain_refers) (fun decl => ?_)
      (fun decl name hname => ?_) (fun decl name hname => ?_)
      (fun _ _ c _ _ _ _ => Descriptor.all_bareOpaque plain_refers) fun decl => ?_
    · cases hname : decl.qname? with
      | none =>
        rw [hide_of_unnamed hname]
        exact .pure fun c _ _ => Descriptor.all_bareOpaque plain_refers
      | some name => exact (answers_hide hname).mono (fun _ _ => trivial) fun _ _ _ h => h
    · refine (answers_referBack name).mono ?_ fun _ _ _ h => h
      rintro c ⟨-, ho, hmem⟩
      exact ⟨id, ⟨decl, ho.declared, hname⟩, .inl hmem⟩
    · refine (answers_refer name).mono ?_ fun _ _ _ h => h
      rintro c ⟨-, ho, -, hmem⟩
      exact ⟨id, ⟨decl, ho.declared, hname⟩, .inr ⟨_, hmem⟩⟩
    · intro c hc hp
      exact h decl hp.2.1.declared c hc trivial
  induction depth generalizing id with
  | zero => exact hmeet _ id fun _ _ => .pure fun c _ _ => Descriptor.all_bareOpaque plain_refers
  | succ depth ih => exact hmeet _ id fun decl hd => answers_expand ih hd

theorem answers_resolve (r : Resolver) (id : TypeId) (pointers : Nat) :
    r.closedLaw.Answers r.RefersIn (fun _ => True) (r.resolve id pointers) :=
  .bind (Law.stable_const True) (answers_resolveType r _ id) fun _ =>
    .pure fun _ _ hc => Descriptor.all_withPointers.2 hc.2

theorem answers_resolveRoot (r : Resolver) (v : Variable) :
    r.closedLaw.Answers r.RefersIn (fun _ => True) (r.resolveRoot v) :=
  answers_resolveVariable (judges_refersIn r).toWeighs (Law.stable_const True) v fun i _ =>
    answers_resolveType r _ i

end Resolver

end ClientTypes

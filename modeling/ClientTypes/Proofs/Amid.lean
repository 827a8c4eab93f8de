import ClientTypes.Proofs.Session

/-!
# Chains as they occur

What the body of a type reads of the registry has been put there by what was resolved before. So not
every chain will do to say what a body comes to; it is to be one that occurs in a run. A run starts
with an empty registry, opens chains on it one after another, and resolves ids in them. Where a type
has to be expanded it goes inside, and there it resolves ids that the type visits.

## Main definitions

* `Resolver.Outside` — the chains of a run in which nothing is being expanded
* `Resolver.Begins` — the chain in which an expansion begins
* `Resolver.Amid` — the chains of a run in which the body of a type is being resolved
* `Resolver.Left` — the registries that a run leaves

The main statements are `Amid.site`, `left_session` and `Pass.left_contracts`.
-/

namespace ClientTypes

namespace Resolver

variable {r : Resolver} {I : Registry → Prop} {id i : TypeId} {decl : TypeDecl} {n : Nat}
  {c c' : Chain}

/-- A run between expansions: it opens a chain, on an empty registry or on the one that an earlier
chain has left, and resolves any ids there. -/
inductive Outside (r : Resolver) : Chain → Prop
  | start (ns : String) (dir : Direction) : Outside r { ns, direction := dir, registry := {} }
  | again {c : Chain} (ns : String) (dir : Direction) :
      Outside r c → Outside r { ns, direction := dir, registry := c.registry }
  | next {c : Chain} (id : TypeId) :
      Outside r c → Outside r ((r.resolveType r.depthLimit id).run c).2

/-- A type is met that has to be expanded, and its expansion begins. -/
inductive Begins (r : Resolver) (id : TypeId) (decl : TypeDecl) (c : Chain) : Chain → Prop
  | unnamed : r.Opens c.direction id decl → decl.qname? = none → id ∉ c.processing →
      Begins r id decl c (c.inside id)
  | named {name : QName} : r.Opens c.direction id decl → decl.qname? = some name →
      id ∉ c.processing → (id, c.direction) ∉ c.registry.expanded →
        Begins r id decl c (c.enter id name.ns)

/-- A run inside of an expansion, with some nested expansions still allowed: the expansion begins,
outside of all others or for a type that another one visits, and ids are resolved that its type
visits. -/
inductive Amid (r : Resolver) : Nat → TypeId → TypeDecl → Chain → Prop
  | outer {n : Nat} {id : TypeId} {decl : TypeDecl} {c c' : Chain} : r.Outside c →
      r.depthLimit = n + 1 → r.Begins id decl c c' → Amid r n id decl c'
  | inner {n : Nat} {id i : TypeId} {decl declI : TypeDecl} {c c' : Chain} :
      Amid r (n + 1) id decl c → i ∈ r.visits id decl.kind → r.Begins i declI c c' →
        Amid r n i declI c'
  | next {n : Nat} {id i : TypeId} {decl : TypeDecl} {c : Chain} :
      Amid r n id decl c → i ∈ r.visits id decl.kind →
        Amid r n id decl ((r.resolveType n i).run c).2

/-! ## What holds in them -/

theorem Outside.inv (hI : r.Steps I) (hempty : I {}) (h : r.Outside c) :
    r.Inv I c ∧ c.processing = [] := by
  induction h with
  | start ns dir => exact ⟨(Rests.empty r hempty).inv ns dir, rfl⟩
  | again ns dir _ ih => exact ⟨(ih.1.rests ih.2).inv ns dir, rfl⟩
  | next id _ ih =>
    obtain ⟨hinv, hle, -⟩ := keeps_start hI id _ ih.1 ih.2
    exact ⟨hinv, hle.processing.trans ih.2⟩

theorem Begins.site (h : r.Begins id decl c c') (hc : r.Inv I c) (hu : r.Underway (n + 1) id c) :
    r.Site I n id decl c' := by
  cases h with
  | unnamed ho _ hmem => exact .inside hc hu ho hmem
  | named ho _ hmem _ => exact .enter hc hu ho hmem _

/-- Whatever the steps of resolution keep holds where a body is being resolved. -/
theorem Amid.site (hI : r.Steps I) (hempty : I {}) (h : r.Amid n id decl c) :
    r.Site I n id decl c := by
  induction h with
  | outer hc hn hbegins =>
    obtain ⟨hinv, hp⟩ := hc.inv hI hempty
    exact hbegins.site hinv (hn ▸ underway_of_start hp)
  | inner _ hi hbegins ih => exact hbegins.site ih.inv (ih.underway.visit ih.opens hi)
  | next _ hi ih =>
    obtain ⟨hinv, hle, -⟩ :=
      keeps_of_steps hI _ _ _ ih.inv (ih.underway.visit ih.opens hi)
    exact stable_site hinv hle ih

/-! ## Fields on the way -/

/-- The law of chains that occur: nothing but that they do. -/
def occurring (P : Chain → Prop) : Law Chain :=
  ⟨P, fun _ _ => True, fun _ => trivial, fun _ _ => trivial⟩

/-- Where the body of a struct is being resolved, it still is after some of its fields. -/
theorem Amid.fields {fields passed : List Field} (h : r.Amid n id decl c)
    (hk : decl.kind = .struct fields) (hpassed : passed ⊆ fields) :
    r.Amid n id decl ((passed.mapM (r.fieldEntries (r.resolveType n))).run c).2 := by
  have hvisit (f : Field) (hf : f ∈ fields) (i : TypeId) (hi : i ∈ r.fieldVisits f) :
      (occurring (r.Amid n id decl)).Answers (fun _ _ => True) (fun _ => True)
        (r.resolveType n i) := by
    have hmem : i ∈ r.visits id decl.kind := hk ▸ List.mem_flatMap.2 ⟨f, hf, hi⟩
    have hnext : (occurring (r.Amid n id decl)).Keeps (fun _ => True) (r.resolveType n i)
        fun _ _ => True :=
      fun _ hc _ => ⟨hc.next hmem, trivial, trivial⟩
    exact hnext.answers
  have hentries (f : Field) (hf : f ∈ passed) :
      (occurring (r.Amid n id decl)).Keeps (fun _ => True) (r.fieldEntries (r.resolveType n) f)
        fun _ _ => True :=
    (keeps_fieldEntries (Law.judges_true _).toWeighs (Law.stable_const True) f
      (hvisit f (hpassed hf)) fun i hi => (Law.judges_true _).provides
        (hvisit f (hpassed hf) i (fieldSplices_subset f hi))).weaken fun _ _ _ _ => trivial
  exact (Law.Keeps.mapM_forall (Law.stable_const True) (fun _ => Law.stable_const True) passed
    hentries c h trivial).1

/-! ## Passes are such runs -/

/-- A registry that a run leaves where nothing is being expanded. -/
def Left (r : Resolver) (reg : Registry) : Prop := ∃ c, r.Outside c ∧ c.registry = reg

theorem Left.outside {reg : Registry} (h : r.Left reg) (ns : String) (dir : Direction) :
    r.Outside { ns, direction := dir, registry := reg } := by
  obtain ⟨c, hc, rfl⟩ := h
  exact hc.again ns dir

theorem keeps_outside (id : TypeId) :
    (occurring r.Outside).Keeps (fun _ => True) (r.resolveType r.depthLimit id) fun _ _ => True :=
  fun _ hc _ => ⟨hc.next id, trivial, trivial⟩

theorem preserves_left {dir : Direction} {act : Resolving Descriptor}
    {ok : Descriptor → Chain → Prop} (hrests : Pass.Preserves (r.Rests Registry.Unique) dir act)
    (h : (occurring r.Outside).Keeps (fun _ => True) act ok) :
    Pass.Preserves (fun reg => r.Rests Registry.Unique reg ∧ r.Left reg) dir act := by
  intro ns reg hreg
  obtain ⟨hrests', hle⟩ := hrests ns reg hreg.1
  exact ⟨⟨hrests', _, (h _ (hreg.2.outside ns dir) trivial).1, rfl⟩, hle⟩

theorem preserves_left_resolve (id : TypeId) (pointers : Nat) {dir : Direction} :
    Pass.Preserves (fun reg => r.Rests Registry.Unique reg ∧ r.Left reg) dir
      (r.resolve id pointers) := by
  have hkeeps : (occurring r.Outside).Keeps (fun _ => True) (r.resolve id pointers)
      fun _ _ => True :=
    .bind (Law.stable_const True) (keeps_outside id) fun _ => .pure fun _ _ _ => trivial
  exact preserves_left (preserves_resolve r.steps_unique id pointers) hkeeps

theorem preserves_left_resolveRoot (v : Variable) {dir : Direction} :
    Pass.Preserves (fun reg => r.Rests Registry.Unique reg ∧ r.Left reg) dir (r.resolveRoot v) :=
  preserves_left (preserves_resolveRoot r.steps_unique v)
    (answers_resolveVariable (Law.judges_true _).toWeighs (Law.stable_const True) v
      fun i _ => (keeps_outside i).answers)

theorem Left.serve {reg : Registry} (h : r.Left reg) (request : Request) :
    r.Left (r.serve request reg).2.registry := by
  have hanswer (query : Query) :
      (occurring r.Outside).Keeps (fun _ => True) (r.answer query) fun _ _ => True :=
    (answers_answer (Law.stable_const True) (Law.judges_true _).toWeighs query
      fun root _ => (keeps_outside root).answers).weaken fun _ _ _ _ => trivial
  have hrun := Law.Keeps.mapM_forall (Law.stable_const True) (fun _ => Law.stable_const True)
    request.queries (fun query _ => hanswer query)
  exact ⟨_, (hrun _ (h.outside request.ns request.direction) trivial).1, rfl⟩

/-- A run leaves the registry with which a session ends. -/
theorem left_session (r : Resolver) (requests : List Request) :
    r.Left ((r.session requests).run {}).2 := by
  have hsession (reg : Registry) (h : r.Left reg) : r.Left ((r.session requests).run reg).2 := by
    induction requests generalizing reg with
    | nil => exact h
    | cons request requests ih =>
      have hrun := congrArg Prod.snd (r.session_append [request] requests reg)
      rw [List.singleton_append] at hrun
      exact hrun ▸ ih _ (h.serve request)
  exact hsession {} ⟨_, .start "" .outbound, rfl⟩

end Resolver

/-- A run leaves the registry with which a pass ends. -/
theorem Pass.left_contracts (p : Pass) (cs : List Contract) :
    p.resolver.Left (p.contracts cs {}).2 := by
  have hempty : p.resolver.Rests Registry.Unique {} ∧ p.resolver.Left {} :=
    ⟨.empty _ .empty, _, .start "" .outbound, rfl⟩
  exact (keeps_contracts (fun _ => Law.stable_const True) (fun _ _ => Law.stable_const True)
    (fun c _ => keeps_contract_of_preserves
      (fun _ _ v _ => Resolver.preserves_left_resolveRoot v)
      (fun _ _ v _ => Resolver.preserves_left_resolveRoot v)
      (fun _ _ id _ => Resolver.preserves_left_resolve id 0)
      fun id _ => Resolver.preserves_left_resolve id 0) hempty).1.2

end ClientTypes

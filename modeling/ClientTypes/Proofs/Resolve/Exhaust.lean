import ClientTypes.Proofs.Resolve.Marks
import ClientTypes.Proofs.Resolve.Provenance

/-!
# Nothing that resolution comes to is left out

A type that has been expanded before is not expanded again, and one that is being expanded is not
entered again. Still everything is done in the end that a path of visits leads to. What holds at
every moment is this: a path that starts at an expanded type, and does not pass a type that is being
expanded, leads to such a type or to one that is settled. When the expansion of a type ends, paths
may pass it, and what they lead to behind it has been visited inside.

## Main definitions

* `Resolver.lawWith` — the law of chains with the invariants of resolution and one more
* `Resolver.LeadsPast` — a path of visits in a direction that passes none of some types
* `Resolver.Settled` — expanded, if it is a named type that opens; opaque, if it hides
* `Resolver.Exhausted` — all that such paths lead to is settled

The main statements are `keeps_resolveType` and `keeps_exhausted`.
-/

namespace ClientTypes

namespace Resolver

variable {r : Resolver} {I : Registry → Prop} {K : Chain → Prop} {dir : Direction}
  {P : List TypeId} {reg reg' : Registry} {id x last : TypeId} {decl : TypeDecl} {name : QName}
  {c : Chain} {n : Nat}

/-! ## Induction on nested expansions -/

/-- Chains with the invariants of resolution, and with one more. -/
def lawWith (r : Resolver) (I : Registry → Prop) (K : Chain → Prop) : Law Chain :=
  Chain.law fun c => r.Inv I c ∧ K c

theorem stable_site_lawWith : (r.lawWith I K).Stable (r.Site I n id decl) :=
  fun _ _ ht hle hs => stable_site ht.1 hle hs

/-- To show that resolution keeps an invariant, one may assume the other ones wherever it meets a
type, and need not consider what becomes of a type that there is no room to expand. -/
theorem keeps_resolveType (hI : r.Steps I) (pre : TypeId → Chain → Prop)
    (ok : TypeId → Descriptor → Chain → Prop)
    (hmeet : ∀ n expansion id,
      (∀ decl, (Chain.law K).Keeps (fun c => (r.Inv I c ∧ r.Underway n id c ∧ pre id c) ∧
        r.Opens c.direction id decl ∧ id ∉ c.processing ∧
          (decl.qname? ≠ none → (id, c.direction) ∉ c.registry.expanded))
        (expansion id decl) (ok id)) →
      (Chain.law K).Keeps (fun c => r.Inv I c ∧ r.Underway n id c ∧ pre id c)
        (r.meet expansion id) (ok id))
    (hexpand : ∀ n id decl,
      (∀ i, (r.lawWith I K).Keeps (fun c => r.Underway n i c ∧ pre i c) (r.resolveType n i)
        (ok i)) →
      (Chain.law K).Keeps (fun c => (r.Inv I c ∧ r.Underway (n + 1) id c ∧ pre id c) ∧
        r.Opens c.direction id decl ∧ id ∉ c.processing ∧
          (decl.qname? ≠ none → (id, c.direction) ∉ c.registry.expanded))
        (r.expand (r.resolveType n) id decl) (ok id))
    (n : Nat) (id : TypeId) :
    (r.lawWith I K).Keeps (fun c => r.Underway n id c ∧ pre id c) (r.resolveType n id) (ok id) := by
  have hwith (n : Nat) (id : TypeId)
      (h : (Chain.law K).Keeps (fun c => r.Inv I c ∧ r.Underway n id c ∧ pre id c)
        (r.resolveType n id) (ok id)) :
      (r.lawWith I K).Keeps (fun c => r.Underway n id c ∧ pre id c) (r.resolveType n id)
        (ok id) := by
    rintro c ⟨hinv, hK⟩ ⟨hu, hp⟩
    obtain ⟨hinv', hle, -⟩ := keeps_of_steps hI n id c hinv hu
    obtain ⟨hK', -, hok⟩ := h c hK ⟨hinv, hu, hp⟩
    exact ⟨⟨hinv', hK'⟩, hle, hok⟩
  induction n generalizing id with
  | zero =>
    apply hwith
    apply hmeet
    rintro decl c - ⟨⟨hinv, hu, -⟩, ho, hmem, -⟩
    exact absurd (mem_processing_of_no_room hinv.grounded hu (by simp [ho.declared])) hmem
  | succ n ih =>
    apply hwith
    apply hmeet
    intro decl
    exact hexpand n id decl ih

/-- The case in which nothing is demanded of the types that resolution comes to. -/
theorem keeps_resolveType_everywhere (hI : r.Steps I) (ok : TypeId → Descriptor → Chain → Prop)
    (hmeet : ∀ pre expansion id,
      (∀ decl, (Chain.law K).Keeps (fun c => pre c ∧ r.Opens c.direction id decl ∧
        id ∉ c.processing ∧ (decl.qname? ≠ none → (id, c.direction) ∉ c.registry.expanded))
        (expansion id decl) (ok id)) →
      (Chain.law K).Keeps pre (r.meet expansion id) (ok id))
    (hexpand : ∀ n id decl,
      (∀ i, (r.lawWith I K).Keeps (r.Underway n i) (r.resolveType n i) (ok i)) →
      (Chain.law K).Keeps (fun c => r.Inv I c ∧ r.Underway (n + 1) id c ∧
        r.Opens c.direction id decl ∧ id ∉ c.processing)
        (r.expand (r.resolveType n) id decl) (ok id))
    (n : Nat) (id : TypeId) :
    (r.lawWith I K).Keeps (r.Underway n id) (r.resolveType n id) (ok id) := by
  have hwhere {n : Nat} {i : TypeId}
      (h : (r.lawWith I K).Keeps (fun c => r.Underway n i c ∧ True) (r.resolveType n i) (ok i)) :
      (r.lawWith I K).Keeps (r.Underway n i) (r.resolveType n i) (ok i) :=
    h.mono (fun _ hu => ⟨hu, trivial⟩) fun _ _ _ h => h
  refine hwhere (keeps_resolveType hI (fun _ _ => True) ok (fun _ _ _ => hmeet _ _ _) ?_ n id)
  intro n id decl h
  refine (hexpand n id decl fun i => hwhere (h i)).mono ?_ fun _ _ _ h => h
  rintro c ⟨⟨hinv, hu, -⟩, ho, hmem, -⟩
  exact ⟨hinv, hu, ho, hmem⟩

/-- The invariants of resolution hold inside of an expansion because they hold outside. What is left
to show of another one is that it holds where the expansion begins and where it ends. -/
theorem keeps_expand_everywhere {okb : Body → Chain → Prop} {ok : Descriptor → Chain → Prop}
    (hbody : (r.lawWith I K).Keeps (r.Site I n id decl) (r.body (r.resolveType n) id decl.kind) okb)
    (hunnamed : decl.qname? = none → ∀ c, K c → r.Opens c.direction id decl →
      K (c.inside id) ∧ ∀ b c', K c' → (c.inside id).Extends c' → okb b c' →
        K (c.outside c') ∧ ok b.inlined (c.outside c'))
    (hnamed : ∀ name, decl.qname? = some name → ∀ c, K c → r.Opens c.direction id decl →
      K (c.enter id name.ns) ∧ ∀ b c', K c' → (c.enter id name.ns).Extends c' → okb b c' →
        K ((c.leave c').complete (definition id decl name b)) ∧
          ok (.named name) ((c.leave c').complete (definition id decl name b))) :
    (Chain.law K).Keeps (fun c => r.Inv I c ∧ r.Underway (n + 1) id c ∧
      r.Opens c.direction id decl ∧ id ∉ c.processing)
      (r.expand (r.resolveType n) id decl) ok := by
  refine .expand hbody (fun hname c hc hp => ?_) fun name hname c hc hp => ?_
  all_goals obtain ⟨hinv, hu, ho, hmem⟩ := hp
  · have hsite := Site.inside hinv hu ho hmem
    obtain ⟨hin, hout⟩ := hunnamed hname c hc ho
    exact ⟨⟨hsite.inv, hin⟩, hsite, fun b c' hc' => hout b c' hc'.2⟩
  · have hsite := Site.enter hinv hu ho hmem name.ns
    obtain ⟨hin, hout⟩ := hnamed name hname c hc ho
    exact ⟨⟨hsite.inv, hin⟩, hsite, fun b c' hc' => hout b c' hc'.2⟩

/-! ## Paths of visits -/

/-- The expansion of a type visits another one in a direction. -/
def HandsIn (r : Resolver) (dir : Direction) (id i : TypeId) : Prop :=
  ∃ decl, r.Opens dir id decl ∧ i ∈ r.visits id decl.kind

/-- A path of visits in a direction. -/
def LeadsIn (r : Resolver) (dir : Direction) : TypeId → TypeId → Prop :=
  Relation.ReflTransGen (r.HandsIn dir)

/-- A path of visits in a direction: none of the types before the last one is among some. -/
def LeadsPast (r : Resolver) (dir : Direction) (P : List TypeId) : TypeId → TypeId → Prop :=
  Relation.ReflTransGen fun id i => id ∉ P ∧ r.HandsIn dir id i

theorem leadsPast_nil : r.LeadsPast dir [] id last ↔ r.LeadsIn dir id last := by
  unfold LeadsPast LeadsIn
  simp

theorem LeadsPast.mono {P' : List TypeId} (hP : P ⊆ P') (h : r.LeadsPast dir P' id last) :
    r.LeadsPast dir P id last :=
  Relation.ReflTransGen.mono (fun _ _ hab => ⟨fun ha => hab.1 (hP ha), hab.2⟩) _ _ h

theorem LeadsPast.eq_of_mem (h : r.LeadsPast dir P id last) (hid : id ∈ P) : last = id := by
  rcases Relation.ReflTransGen.cases_head h with heq | ⟨i, hi, -⟩
  · exact heq.symm
  · exact absurd hid hi.1

theorem LeadsPast.eq_of_forall_not (h : r.LeadsPast dir P id last)
    (hid : ∀ i, ¬ r.HandsIn dir id i) : last = id := by
  rcases Relation.ReflTransGen.cases_head h with heq | ⟨i, hi, -⟩
  · exact heq.symm
  · exact absurd hi.2 (hid i)

/-- A path either passes a type or not; if it does, there is a rest that passes it no more. -/
theorem LeadsPast.split (h : r.LeadsPast dir P x last) (id : TypeId) :
    r.LeadsPast dir (id :: P) x last ∨
      ∃ i, r.HandsIn dir id i ∧ r.LeadsPast dir (id :: P) i last := by
  induction h using Relation.ReflTransGen.head_induction_on with
  | refl => exact .inl .refl
  | @head a i hai _ ih =>
    rcases ih with h | h
    · by_cases ha : a = id
      · subst ha
        exact .inr ⟨i, hai.2, h⟩
      · exact .inl (.head ⟨by simp [ha, hai.1], hai.2⟩ h)
    · exact .inr h

/-! ## Settled types -/

/-- A named type that opens in a direction has been expanded in it, and one that hides is opaque. -/
structure Settled (r : Resolver) (dir : Direction) (reg : Registry) (id : TypeId) : Prop where
  expanded : ∀ {decl q}, r.Opens dir id decl → decl.qname? = some q → (id, dir) ∈ reg.expanded
  hidden : ∀ {decl q}, r.Hides dir id decl → decl.qname? = some q →
    ∃ d, reg.get? q = some d ∧ d.isOpaque

theorem Settled.of_extends (h : r.Settled dir reg id) (hreg : reg.Extends reg') :
    r.Settled dir reg' id := by
  constructor
  · intro decl q ho hq
    exact hreg.expanded (h.expanded ho hq)
  · intro decl q hh hq
    obtain ⟨d, hd, hop⟩ := h.hidden hh hq
    exact ⟨d, hreg.isOpaque hd hop, hop⟩

/-- All that paths from a type lead to is settled, as far as they pass none of some types. -/
def Exhausted (r : Resolver) (dir : Direction) (P : List TypeId) (reg : Registry) (id : TypeId) :
    Prop :=
  ∀ last, r.LeadsPast dir P id last → last ∈ P ∨ r.Settled dir reg last

theorem Exhausted.of_extends (h : r.Exhausted dir P reg id) (hreg : reg.Extends reg') :
    r.Exhausted dir P reg' id := by
  intro last hlast
  rcases h last hlast with hmem | hs
  · exact .inl hmem
  · exact .inr (hs.of_extends hreg)

theorem settled_of_hides (hh : r.Hides dir id decl)
    (h : ∀ q, decl.qname? = some q → ∃ d, reg.get? q = some d ∧ d.isOpaque) :
    r.Settled dir reg id := by
  constructor
  · intro decl' q ho
    exact (ho.not_hides hh).elim
  · intro decl' q hh' hq
    obtain rfl : decl' = decl := Option.some.inj (hh'.declared.symm.trans hh.declared)
    exact h q hq

theorem settled_of_opens (ho : r.Opens dir id decl)
    (h : decl.qname? ≠ none → (id, dir) ∈ reg.expanded) : r.Settled dir reg id := by
  constructor
  · intro decl' q ho' hq
    obtain rfl := ho.decl_eq ho'.declared
    exact h (by simp [hq])
  · intro decl' q hh
    exact (ho.not_hides hh).elim

/-- A type that is missing or substituted neither opens nor hides. -/
theorem settled_of_substituted
    (h : ∀ decl, r.project.type? id = some decl → r.substitute? decl ≠ none) :
    r.Settled dir reg id :=
  ⟨fun ho => absurd ho.unsubstituted (h _ ho.declared),
    fun hh => absurd hh.unsubstituted (h _ hh.declared)⟩

theorem exhausted_of_mem (h : id ∈ P) : r.Exhausted dir P reg id := by
  intro last hlast
  obtain rfl := hlast.eq_of_mem h
  exact .inl h

theorem exhausted_of_forall_not (h : ∀ i, ¬ r.HandsIn dir id i) (hs : r.Settled dir reg id) :
    r.Exhausted dir P reg id := by
  intro last hlast
  obtain rfl := hlast.eq_of_forall_not h
  exact .inr hs

theorem Exhausted.cons (h : r.Exhausted dir P reg x) (id : TypeId) :
    r.Exhausted dir (id :: P) reg x := by
  intro last hlast
  rcases h last (hlast.mono (List.subset_cons_self id P)) with hmem | hs
  · exact .inl (List.mem_cons_of_mem id hmem)
  · exact .inr hs

/-- Once a type is settled and its visits are exhausted, paths may pass it. -/
theorem Exhausted.pop (hvisits : ∀ i, r.HandsIn dir id i → r.Exhausted dir (id :: P) reg i)
    (hid : r.Settled dir reg id) (h : r.Exhausted dir (id :: P) reg x) :
    r.Exhausted dir P reg x := by
  intro last hlast
  have hcons : last ∈ id :: P ∨ r.Settled dir reg last := by
    rcases hlast.split id with hlast | ⟨i, hi, hlast⟩
    · exact h last hlast
    · exact hvisits i hi last hlast
  rcases hcons with hmem | hs
  · rcases List.mem_cons.1 hmem with rfl | hmem
    · exact .inr hid
    · exact .inl hmem
  · exact .inr hs

/-! ## Chains -/

/-- What is being expanded in a direction. -/
def pending (c : Chain) (dir : Direction) : List TypeId :=
  if dir = c.direction then c.processing else []

/-- What has been expanded is exhausted, up to what is being expanded. -/
def Thorough (r : Resolver) (c : Chain) : Prop :=
  ∀ id dir, (id, dir) ∈ c.registry.expanded → r.Exhausted dir (pending c dir) c.registry id

/-- The same of a type in the direction of the chain. -/
def ExhaustedIn (r : Resolver) (id : TypeId) (c : Chain) : Prop :=
  r.Exhausted c.direction c.processing c.registry id

theorem pending_eq {c' : Chain} (hdir : c'.direction = c.direction)
    (hp : c'.processing = c.processing) : pending c' dir = pending c dir := by
  unfold pending
  rw [hdir, hp]

theorem ExhaustedIn.of_extends {c' : Chain} (h : r.ExhaustedIn id c) (hext : c.Extends c') :
    r.ExhaustedIn id c' := by
  unfold ExhaustedIn
  rw [hext.direction, hext.processing]
  exact Exhausted.of_extends h hext.registry

theorem stable_exhaustedIn {L : Law Chain} (hle : ∀ {c c'}, L.le c c' → c.Extends c')
    (id : TypeId) : L.Stable (r.ExhaustedIn id) :=
  fun _ _ _ h hid => hid.of_extends (hle h)

/-- Whatever happens to a chain, it stays thorough as long as nothing else is expanded. -/
theorem Thorough.of_extends {c' : Chain} (h : r.Thorough c) (hext : c.Extends c')
    (hexp : c'.registry.expanded = c.registry.expanded) : r.Thorough c' := by
  intro i d hi
  rw [pending_eq hext.direction hext.processing]
  rw [hexp] at hi
  exact (h i d hi).of_extends hext.registry

/-- Inside of an expansion paths may pass one type less. -/
theorem Thorough.push {c' : Chain} (h : r.Thorough c) (hdir : c'.direction = c.direction)
    (hp : c'.processing = id :: c.processing) (hreg : c'.registry = c.registry) :
    r.Thorough c' := by
  intro i d hi
  rw [hreg] at hi ⊢
  have hi' := h i d hi
  unfold pending at hi' ⊢
  rw [hdir, hp]
  split
  · next hd =>
    rw [if_pos hd] at hi'
    exact hi'.cons id
  · next hd =>
    rw [if_neg hd] at hi'
    exact hi'

/-- When the expansion of a type ends, and the type is settled, paths may pass it again. -/
theorem Thorough.pop {c' : Chain} (h : r.Thorough c') (hp : c'.processing = id :: P)
    (hext : c'.registry.Extends reg)
    (hexp : ∀ i d, (i, d) ∈ reg.expanded →
      (i, d) ∈ c'.registry.expanded ∨ i = id ∧ d = c'.direction)
    (hvisits : ∀ i, r.HandsIn c'.direction id i → r.ExhaustedIn i c')
    (hid : r.Settled c'.direction reg id) :
    (∀ i d, (i, d) ∈ reg.expanded →
      r.Exhausted d (if d = c'.direction then P else []) reg i) ∧
    r.Exhausted c'.direction P reg id := by
  have hpop {x : TypeId} (hx : r.Exhausted c'.direction (id :: P) reg x) :
      r.Exhausted c'.direction P reg x := by
    refine .pop (fun i hi => ?_) hid hx
    have hi := hvisits i hi
    unfold ExhaustedIn at hi
    rw [hp] at hi
    exact hi.of_extends hext
  have hself : r.Exhausted c'.direction P reg id := hpop (exhausted_of_mem List.mem_cons_self)
  refine ⟨fun i d hi => ?_, hself⟩
  rcases hexp i d hi with hi | ⟨rfl, rfl⟩
  · have hi := (h i d hi).of_extends hext
    unfold pending at hi
    rw [hp] at hi
    split
    · next hd =>
      subst hd
      rw [if_pos rfl] at hi
      exact hpop hi
    · next hd =>
      rw [if_neg hd] at hi
      exact hi
  · rw [if_pos rfl]
    exact hself

/-! ## Resolution -/

theorem not_handsIn_of_hides (hh : r.Hides dir id decl) (i : TypeId) : ¬ r.HandsIn dir id i :=
  fun ⟨_, ho, _⟩ => ho.not_hides hh

theorem thorough_hide :
    (Chain.law r.Thorough).Keeps (fun c => r.Hides c.direction id decl) (hide id decl)
      fun _ => r.ExhaustedIn id := by
  intro c hc hh
  cases hname : decl.qname? with
  | none =>
    rw [hide_of_unnamed hname]
    have hs : r.Settled c.direction c.registry id := settled_of_hides hh (by simp [hname])
    exact ⟨hc, .refl c, exhausted_of_forall_not (not_handsIn_of_hides hh) hs⟩
  | some name =>
    rw [run_hide_of_named hname]
    have hext := Chain.extends_register (definition id decl name (.aliasOf .bareOpaque)) c
    refine ⟨hc.of_extends hext (by simp), hext, ?_⟩
    change r.Exhausted _ _ _ id
    rw [hext.direction, hext.processing, Chain.registry_register]
    refine exhausted_of_forall_not (not_handsIn_of_hides hh) (settled_of_hides hh ?_)
    intro q hq
    obtain rfl : name = q := Option.some.inj (hname.symm.trans hq)
    exact Registry.exists_isOpaque_get?_merge rfl

theorem thorough_referBack :
    (Chain.law r.Thorough).Keeps (fun c => id ∈ c.processing) (referBack id decl name)
      fun _ => r.ExhaustedIn id := by
  intro c hc hmem
  have hin : r.ExhaustedIn id c := exhausted_of_mem hmem
  rw [run_referBack]
  split
  · next stub _ =>
    have hext := Chain.extends_register (definition id decl name stub) c
    exact ⟨hc.of_extends hext (by simp), hext, hin.of_extends hext⟩
  · have hext := Chain.extends_note name c
    exact ⟨hc.of_extends hext (by simp), hext, hin.of_extends hext⟩

theorem thorough_refer :
    (Chain.law r.Thorough).Keeps (fun c => (id, c.direction) ∈ c.registry.expanded)
      (Chain.refer name) fun _ => r.ExhaustedIn id := by
  intro c hc hexp
  have hin : r.ExhaustedIn id c := by
    have h := hc id c.direction hexp
    unfold pending at h
    rwa [if_pos rfl] at h
  have hext := Chain.extends_note name c
  have hsame : (c.note name).registry.expanded = c.registry.expanded := by simp
  exact ⟨hc.of_extends hext hsame, hext, hin.of_extends hext⟩

theorem thorough_meet {pre : Chain → Prop}
    {expansion : TypeId → TypeDecl → Resolving Descriptor}
    (h : ∀ decl, (Chain.law r.Thorough).Keeps (fun c => pre c ∧ r.Opens c.direction id decl ∧
      id ∉ c.processing ∧ (decl.qname? ≠ none → (id, c.direction) ∉ c.registry.expanded))
      (expansion id decl) fun _ => r.ExhaustedIn id) :
    (Chain.law r.Thorough).Keeps pre (r.meet expansion id) fun _ => r.ExhaustedIn id := by
  have hneither (hs : ∀ decl, r.project.type? id = some decl → r.substitute? decl ≠ none)
      (c : Chain) : r.ExhaustedIn id c :=
    exhausted_of_forall_not (fun i ⟨_, ho, _⟩ => hs _ ho.declared ho.unsubstituted)
      (settled_of_substituted hs)
  refine .meet (fun hd c _ _ => hneither (by simp [hd]) c)
    (fun decl s hd hs c _ _ => hneither (by simp [hd, hs]) c) (fun decl => ?_)
    (fun decl name hname => ?_) (fun decl name hname => ?_)
    (fun decl hname c _ _ _ hmem => exhausted_of_mem hmem) h
  · exact thorough_hide.mono (fun c hp => hp.2) fun _ _ _ h => h
  · exact thorough_referBack.mono (fun c hp => hp.2.2) fun _ _ _ h => h
  · exact thorough_refer.mono (fun c hp => hp.2.2.2) fun _ _ _ h => h

theorem thorough_expand
    (h : ∀ i, (r.lawWith I r.Thorough).Keeps (r.Underway n i) (r.resolveType n i)
      fun _ => r.ExhaustedIn i) :
    (Chain.law r.Thorough).Keeps (fun c => r.Inv I c ∧ r.Underway (n + 1) id c ∧
      r.Opens c.direction id decl ∧ id ∉ c.processing)
      (r.expand (r.resolveType n) id decl) fun _ => r.ExhaustedIn id := by
  have hbody : (r.lawWith I r.Thorough).Keeps (r.Site I n id decl)
      (r.body (r.resolveType n) id decl.kind)
      fun _ c => ∀ i ∈ r.visits id decl.kind, r.ExhaustedIn i c := by
    refine marks_body stable_site_lawWith
      (stable_exhaustedIn fun h => h) id decl.kind fun i hi => ?_
    refine (h i).mono (fun c hs => hs.underway.visit hs.opens hi) ?_
    intro _ c _ hin j hj
    obtain rfl := List.mem_singleton.1 hj
    exact hin
  refine keeps_expand_everywhere hbody (fun hname c hc ho => ?_) fun name hname c hc ho => ?_
  · refine ⟨hc.push rfl rfl rfl, fun b c' hc' hle hvisits => ?_⟩
    have ho' : r.Opens c'.direction id decl := hle.direction ▸ ho
    exact hc'.pop hle.processing (.refl _) (fun _ _ => .inl) (fun i ⟨_, hi, hmem⟩ =>
      hvisits i (ho'.decl_eq hi.declared ▸ hmem)) (settled_of_opens ho' (absurd hname))
  · refine ⟨hc.push rfl rfl rfl, fun b c' hc' hle hvisits => ?_⟩
    have ho' : r.Opens c'.direction id decl := hle.direction ▸ ho
    have hext := Chain.extends_complete (definition id decl name b) (c.leave c')
    have hpop := hc'.pop hle.processing hext.registry (fun i d hi => ?_) (fun i ⟨_, hi, hmem⟩ =>
      hvisits i (ho'.decl_eq hi.declared ▸ hmem))
      (settled_of_opens ho' fun _ => Chain.mem_expanded_complete _ _)
    · unfold Thorough ExhaustedIn pending
      rw [hext.direction, hext.processing]
      exact hpop
    · rw [Chain.registry_complete, Registry.mem_expanded_markExpanded,
        Registry.expanded_merge] at hi
      exact hi.symm

/-- Wherever resolution comes to a type, all that paths from it lead to is settled afterwards. -/
theorem keeps_exhausted (hI : r.Steps I) (n : Nat) (id : TypeId) :
    (r.lawWith I r.Thorough).Keeps (r.Underway n id) (r.resolveType n id)
      fun _ => r.ExhaustedIn id :=
  keeps_resolveType_everywhere hI (fun i _ => r.ExhaustedIn i) (fun _ _ _ => thorough_meet)
    (fun _ _ _ => thorough_expand) n id

end Resolver

end ClientTypes

import Mathlib.Data.List.Induction
import ClientTypes.Proofs.Session

/-!
# Cycles and opaque shapes

Where all types have a known format, opaque shapes come from cycles only: a type without a name that
is met while it is being expanded has nothing to be referred to by. A cycle that has a name in it
may be cut there, but it is cut where resolution comes back first. So none is cut at an unnamed type
if every cycle is entered at a named one, or has been resolved before.

## Main definitions

* `Resolver.Transparent` — all types have a known format
* `Resolver.NamesCycles` — every cycle of the type graph has a named type in it
* `Resolver.Trail` — a path of visits without repetition
* `Resolver.EntersNamed` — trails come back to named types only

The main statement is `isOpaque_eq_false_session`.
-/

namespace ClientTypes

/-- A shape of a known format. -/
def Shape.Known (s : Shape Descriptor) : Prop := s.isOpaque = false

theorem Shape.solid_known : Solid Shape.Known := fun _ _ h => h

namespace Resolver

variable {r : Resolver} {I : Registry → Prop} {id i start : TypeId} {decl : TypeDecl} {q : QName}
  {dir : Direction} {n : Nat} {passed : List TypeId} {done : TypeId → Prop} {c : Chain}

/-! ## Transparent projects -/

/-- Types do not control their wire format, have no substitutes, and mention declared types only;
they are no channels, complex numbers or types of any value; interfaces have names; and the target
of an alias is another type. -/
structure Transparent (r : Resolver) : Prop where
  closed : ∀ id decl, r.project.type? id = some decl → ∀ i ∈ decl.kind.links,
    (r.project.type? i).isSome
  capabilities : ∀ id decl, r.project.type? id = some decl → decl.capabilities = {}
  unsubstituted : ∀ id decl, r.project.type? id = some decl → r.substitute? decl = none
  format : ∀ id decl, r.project.type? id = some decl → decl.kind.isFormless = false
  interface : ∀ id decl embeds methods, r.project.type? id = some decl →
    decl.kind = .interface embeds methods → decl.qname? ≠ none
  target : ∀ id decl links, r.project.type? id = some decl → decl.kind = .aliasOf links →
    ∃ target, links.target = some target ∧ target ≠ id

/-- No cycle of the type graph consists of unnamed types only. -/
def NamesCycles (r : Resolver) : Prop :=
  ∀ id, ¬ Relation.TransGen (fun a b => r.Unnamed a ∧
    ∃ decl, r.project.type? a = some decl ∧ b ∈ decl.kind.links) id id

theorem Transparent.opens (hr : r.Transparent) (hd : r.project.type? id = some decl)
    (dir : Direction) : r.Opens dir id decl := by
  refine ⟨hd, hr.unsubstituted id decl hd, ?_⟩
  rw [hr.capabilities id decl hd, hr.format id decl hd]
  cases dir <;> rfl

theorem Transparent.isSome_type? (hr : r.Transparent) (h : r.HandsIn dir id i) :
    (r.project.type? i).isSome := by
  obtain ⟨decl, ho, hi⟩ := h
  exact hr.closed id decl ho.declared i (visits_subset_links id decl.kind hi)

/-- No body is opaque in itself. -/
theorem Transparent.not_blank (hr : r.Transparent) (hd : r.project.type? id = some decl) :
    ¬ r.Blank id decl.kind := by
  have hformat := hr.format id decl hd
  intro hblank
  cases hk : decl.kind with
  | scalar s =>
    rw [hk] at hblank hformat
    have hnone : s.builtin? = none := hblank
    simp [Kind.isFormless, hnone] at hformat
  | aliasOf links =>
    rw [hk] at hblank
    have hnone : r.usableLink? id links = none := hblank
    obtain ⟨target, htarget, hne⟩ := hr.target id decl links hd hk
    have hlink : target ∈ decl.kind.links := by simp [hk, Kind.links, htarget]
    have hdeclared := hr.closed id decl hd target hlink
    have hnot := List.find?_eq_none.1 hnone target (by simp [htarget])
    simp [hne, hdeclared] at hnot
  | channel elem =>
    rw [hk] at hformat
    simp [Kind.isFormless] at hformat
  | any =>
    rw [hk] at hformat
    simp [Kind.isFormless] at hformat
  | struct | interface | array | map | function =>
    rw [hk] at hblank
    exact hblank

/-- Only the body of an interface has methods. -/
theorem exists_eq_interface_of_body {inner : TypeId → Resolving Descriptor} {k : Kind}
    {ms : List (MethodShape Descriptor)} (h : ((r.body inner id k).run c).1 = .interface ms) :
    ∃ embeds methods, k = .interface embeds methods := by
  cases k with
  | interface embeds methods => exact ⟨embeds, methods, rfl⟩
  | scalar | struct | aliasOf | array | map | function | channel | any => cases h

/-! ## Trails -/

/-- A path of visits in a direction that passes no type twice, and none that is done. The types that
it has passed stand in a list, the latest first. -/
inductive Trail (r : Resolver) (dir : Direction) (done : TypeId → Prop) (start : TypeId) :
    List TypeId → TypeId → Prop
  | start : Trail r dir done start [] start
  | step {passed : List TypeId} {id i : TypeId} : Trail r dir done start passed id → id ∉ passed →
      ¬ done id → r.HandsIn dir id i → Trail r dir done start (id :: passed) i

/-- Where a trail from a type comes back to a type that it has passed, that one has a name. -/
def ReturnsNamed (r : Resolver) (dir : Direction) (done : TypeId → Prop) (start : TypeId) : Prop :=
  ∀ passed id, r.Trail dir done start passed id → id ∈ passed → ¬ r.Unnamed id

/-- Where a trail is, the types lead to that it has passed. -/
theorem Trail.transGen (h : r.Trail dir done start passed id) {x : TypeId} (hx : x ∈ passed) :
    Relation.TransGen (r.HandsIn dir) x id := by
  induction h with
  | start => simp at hx
  | step _ _ _ hands ih =>
    rcases List.mem_cons.1 hx with rfl | hx
    · exact .single hands
    · exact (ih hx).tail hands

/-- A named type to which a request has led in a direction. -/
def Familiar (r : Resolver) (requests : List Request) (dir : Direction) (id : TypeId) : Prop :=
  (∃ q, r.project.Names id q) ∧ r.ComesTo requests dir id

/-- No trail from a root of a request comes back to an unnamed type, unless it passes a named one to
which an earlier request has led in the same direction. -/
def EntersNamed (r : Resolver) (requests : List Request) : Prop :=
  ∀ before request after, requests = before ++ request :: after → ∀ root ∈ r.roots request,
    r.ReturnsNamed request.direction (r.Familiar before request.direction) root

/-- In particular it is enough that no unnamed type leads back to itself. -/
theorem entersNamed_of_forall_not
    (h : ∀ dir id, r.Unnamed id → ¬ Relation.TransGen (r.HandsIn dir) id id)
    (requests : List Request) : r.EntersNamed requests := by
  intro _ request _ _ _ _ passed id htrail hmem hunnamed
  exact h request.direction id hunnamed (htrail.transGen hmem)

theorem EntersNamed.of_append {s t : List Request} (h : r.EntersNamed (s ++ t)) :
    r.EntersNamed s := by
  intro before request after heq
  apply h before request (after ++ t)
  rw [heq]
  simp

/-! ## Resolution -/

/-- Nothing in the definitions of a registry is opaque. -/
def Clear (reg : Registry) : Prop := ∀ d ∈ reg.definitions, d.body.All Shape.Known

/-- Nothing in the definitions of a chain is opaque. -/
def ClearIn (c : Chain) : Prop := Clear c.registry

theorem ClearIn.note (hc : ClearIn c) (name : QName) : ClearIn (c.note name) := by
  unfold ClearIn
  rw [Chain.registry_note]
  exact hc

theorem ClearIn.register (hc : ClearIn c) {d : Definition} (hd : d.body.All Shape.Known) :
    ClearIn (c.register d) := by
  unfold ClearIn
  rw [Chain.registry_register]
  exact Registry.forall_mem_merge hc hd

theorem ClearIn.complete (hc : ClearIn c) {d : Definition} (hd : d.body.All Shape.Known) :
    ClearIn (c.complete d) := by
  unfold ClearIn Clear
  rw [Chain.registry_complete, Registry.definitions_markExpanded]
  exact Registry.forall_mem_merge hc hd

theorem judges_known : (r.lawWith I ClearIn).Judges fun _ => Shape.Known where
  stable _ := Law.stable_const _
  solid _ := Shape.solid_known
  bodies _ hc := hc.2

/-- In a chain of a direction, what is done has a name and has been expanded. -/
structure Setting (r : Resolver) (dir : Direction) (done : TypeId → Prop) (c : Chain) : Prop where
  direction : c.direction = dir
  named : ∀ i, done i → ∃ q, r.project.Names i q
  expanded : ∀ i, done i → (i, dir) ∈ c.registry.expanded

/-- What is known where resolution comes to a type: it is declared, and at the end of a trail of
what is being expanded. -/
structure Underfoot (r : Resolver) (dir : Direction) (done : TypeId → Prop) (start id : TypeId)
    (c : Chain) : Prop where
  setting : r.Setting dir done c
  declared : (r.project.type? id).isSome
  trail : r.Trail dir done start c.processing id

theorem stable_setting : (r.lawWith I ClearIn).Stable (r.Setting dir done) := by
  intro c c' _ hle h
  have hext : c.Extends c' := hle
  exact ⟨hext.direction.trans h.direction, h.named,
    fun i hi => hext.registry.expanded (h.expanded i hi)⟩

theorem stable_underfoot : (r.lawWith I ClearIn).Stable (r.Underfoot dir done start id) := by
  intro c c' hc' hle h
  have hext : c.Extends c' := hle
  refine ⟨stable_setting hc' hle h.setting, h.declared, ?_⟩
  rw [hext.processing]
  exact h.trail

/-- What is about to be expanded is not done, so that the trail goes on from there. -/
theorem Underfoot.visit (hr : r.Transparent) (h : r.Underfoot dir done start id c)
    (ho : r.Opens c.direction id decl) (hmem : id ∉ c.processing)
    (hexp : decl.qname? ≠ none → (id, c.direction) ∉ c.registry.expanded) {c' : Chain}
    (hdir : c'.direction = c.direction) (hp : c'.processing = id :: c.processing)
    (hreg : c'.registry = c.registry) (hi : i ∈ r.visits id decl.kind) :
    r.Underfoot dir done start i c' := by
  have hdone : ¬ done id := by
    intro hdone
    obtain ⟨q, decl', hd, hq⟩ := h.setting.named id hdone
    obtain rfl := ho.decl_eq hd
    rw [h.setting.direction] at hexp
    exact hexp (by simp [hq]) (h.setting.expanded id hdone)
  have hands : r.HandsIn dir id i := ⟨decl, h.setting.direction ▸ ho, hi⟩
  refine ⟨⟨hdir.trans h.setting.direction, h.setting.named, ?_⟩, hr.isSome_type? hands, ?_⟩
  · rw [hreg]
    exact h.setting.expanded
  · rw [hp]
    exact .step h.trail hmem hdone hands

theorem clear_referBack :
    (Chain.law ClearIn).Keeps (fun _ => True) (referBack id decl q)
      fun d _ => d.All Shape.Known := by
  intro c hc _
  have hnamed : (Descriptor.named q).All Shape.Known := Descriptor.all_named rfl
  rw [run_referBack]
  split
  · next stub hstub =>
    have hregister : ClearIn (c.register (definition id decl q stub)) :=
      ClearIn.register hc (Body.all_of_stub? hstub)
    exact ⟨hregister, Chain.extends_register _ c, hnamed⟩
  · exact ⟨ClearIn.note hc q, Chain.extends_note q c, hnamed⟩

theorem clear_meet (hr : r.Transparent) (hreturns : r.ReturnsNamed dir done start)
    {pre : Chain → Prop} (hpre : ∀ c, pre c → r.Underfoot dir done start id c)
    {expansion : TypeId → TypeDecl → Resolving Descriptor}
    (h : ∀ decl, (Chain.law ClearIn).Keeps (fun c => pre c ∧ r.Opens c.direction id decl ∧
      id ∉ c.processing ∧ (decl.qname? ≠ none → (id, c.direction) ∉ c.registry.expanded))
      (expansion id decl) fun d _ => d.All Shape.Known) :
    (Chain.law ClearIn).Keeps pre (r.meet expansion id) fun d _ => d.All Shape.Known := by
  refine .meet (fun hd c _ hp => ?_) (fun decl s hd hs c _ _ => ?_) (fun decl => ?_)
    (fun decl name _ => ?_) (fun decl name _ => ?_) (fun decl hname c _ hp ho hmem => ?_) h
  · have hdeclared := (hpre c hp).declared
    simp [hd] at hdeclared
  · have hnone := hr.unsubstituted id decl hd
    simp [hs] at hnone
  · rintro c - ⟨-, hh⟩
    exact ((hr.opens hh.declared c.direction).not_hides hh).elim
  · exact clear_referBack.mono (fun _ _ => trivial) fun _ _ _ h => h
  · rintro c hc -
    exact ⟨ClearIn.note hc name, Chain.extends_note name c, Descriptor.all_named rfl⟩
  · -- An unnamed type that is being expanded would have been passed by the trail.
    exact absurd ⟨decl, ho.declared, hname⟩ (hreturns _ id (hpre c hp).trail hmem)

theorem clear_expand (hr : r.Transparent)
    (h : ∀ i, (r.lawWith I ClearIn).Keeps
      (fun c => r.Underway n i c ∧ r.Underfoot dir done start i c) (r.resolveType n i)
      fun d _ => d.All Shape.Known) :
    (Chain.law ClearIn).Keeps (fun c => (r.Inv I c ∧ r.Underway (n + 1) id c ∧
      r.Underfoot dir done start id c) ∧ r.Opens c.direction id decl ∧ id ∉ c.processing ∧
        (decl.qname? ≠ none → (id, c.direction) ∉ c.registry.expanded))
      (r.expand (r.resolveType n) id decl) fun d _ => d.All Shape.Known := by
  -- The project is transparent, so that a body is as clear as what it visits.
  have hbody : (r.lawWith I ClearIn).Keeps
      (fun c => r.Site I n id decl c ∧
        ∀ i ∈ r.visits id decl.kind, r.Underfoot dir done start i c)
      (r.body (r.resolveType n) id decl.kind) fun b _ => b.All Shape.Known ∧
        (decl.qname? = none → b ≠ .interface []) := by
    have hstable : (r.lawWith I ClearIn).Stable fun c => r.Site I n id decl c ∧
        ∀ i ∈ r.visits id decl.kind, r.Underfoot dir done start i c :=
      stable_site_lawWith.and fun _ _ ht hle h i hi => stable_underfoot ht hle (h i hi)
    rintro c hc ⟨hs, hfoot⟩
    obtain ⟨hc', hle, hall⟩ := keeps_body judges_known hstable id decl.kind
      (fun hblank => absurd hblank (hr.not_blank hs.opens.declared))
      (fun i hi => (h i).mono
        (fun c hp => ⟨hp.1.underway.visit hp.1.opens hi, hp.2 i hi⟩) fun _ _ _ h => h) c hc
      ⟨hs, hfoot⟩
    refine ⟨hc', hle, hall, fun hname hb => ?_⟩
    obtain ⟨embeds, methods, hk⟩ := exists_eq_interface_of_body hb
    exact hr.interface id decl embeds methods hs.opens.declared hk hname
  refine .expand hbody (fun hname c hc hp => ?_) fun name hname c hc hp => ?_
  all_goals obtain ⟨⟨hinv, hu, hfoot⟩, ho, hmem, hexp⟩ := hp
  · have hsite := Site.inside hinv hu ho hmem
    refine ⟨⟨hsite.inv, hc⟩, ⟨hsite, fun i hi => hfoot.visit hr ho hmem hexp rfl rfl rfl hi⟩, ?_⟩
    rintro b c' ⟨-, hc'⟩ - ⟨hall, hb⟩
    exact ⟨hc', hall.inlined_of_solid Shape.solid_known fun hempty => absurd hempty (hb hname)⟩
  · have hsite := Site.enter hinv hu ho hmem name.ns
    refine ⟨⟨hsite.inv, hc⟩, ⟨hsite, fun i hi => hfoot.visit hr ho hmem hexp rfl rfl rfl hi⟩, ?_⟩
    rintro b c' ⟨-, hc'⟩ - ⟨hall, -⟩
    have hleave : ClearIn (c.leave c') := hc'
    exact ⟨hleave.complete hall, Descriptor.all_named rfl⟩

/-- Nothing opaque comes of a type from which trails come back to named types only. -/
theorem clear_resolveType (hI : r.Steps I) (hr : r.Transparent)
    (hreturns : r.ReturnsNamed dir done start) (n : Nat) (id : TypeId) :
    (r.lawWith I ClearIn).Keeps (fun c => r.Underway n id c ∧ r.Underfoot dir done start id c)
      (r.resolveType n id) fun d _ => d.All Shape.Known :=
  keeps_resolveType hI (fun i => r.Underfoot dir done start i) (fun _ d _ => d.All Shape.Known)
    (fun _ _ _ h => clear_meet hr hreturns (fun _ hp => hp.2.2) h)
    (fun _ _ _ h => clear_expand hr h) n id

/-! ## Sessions -/

theorem clear_serve (hI : r.Steps I) (hr : r.Transparent) {reg : Registry} (h : r.Ready I reg)
    (hclear : Clear reg) (request : Request)
    (hdeclared : ∀ root ∈ r.roots request, (r.project.type? root).isSome)
    (hreturns : ∀ root ∈ r.roots request, r.ReturnsNamed request.direction done root)
    (hsetting : r.Setting request.direction done
      { ns := request.ns, direction := request.direction, registry := reg }) :
    Clear (r.serve request reg).2.registry ∧
      ∀ d ∈ (r.serve request reg).1, d.All Shape.Known := by
  have hpre : (r.lawWith I ClearIn).Stable fun c =>
      c.processing = [] ∧ r.Setting request.direction done c :=
    stable_start_lawWith.and stable_setting
  have hroot (root : TypeId) (hroot : root ∈ r.roots request) :
      (r.lawWith I ClearIn).Answers (fun _ => Shape.Known)
        (fun c => c.processing = [] ∧ r.Setting request.direction done c)
        (r.resolveType r.depthLimit root) := by
    refine (clear_resolveType hI hr (hreturns root hroot) r.depthLimit root).mono ?_
      fun _ _ _ h => h
    rintro c ⟨hp, hsetting⟩
    refine ⟨underway_of_start hp, hsetting, hdeclared root hroot, ?_⟩
    rw [hp]
    exact .start
  obtain ⟨⟨-, hclear'⟩, -, hknown⟩ := Law.Keeps.mapM_forall hpre
    (judges_known (r := r) (I := I)).stable_all request.queries
    (fun query hquery => answers_answer hpre judges_known.toWeighs query fun root hmem =>
      hroot root (List.mem_flatMap.2 ⟨query, hquery, hmem⟩)) _
    ⟨h.rests.inv request.ns request.direction, hclear⟩ ⟨rfl, hsetting⟩
  exact ⟨hclear', hknown⟩

/-- In a transparent project a session ends without anything opaque, in answers or in definitions,
if its requests come back to named types only, along trails that pass nothing that earlier requests
have made familiar. -/
theorem isOpaque_eq_false_session (r : Resolver) (hr : r.Transparent) (requests : List Request)
    (hdeclared : ∀ request ∈ requests, ∀ root ∈ r.roots request, (r.project.type? root).isSome)
    (henters : r.EntersNamed requests) :
    let session := (r.session requests).run {}
    (∀ types ∈ session.1, ∀ d ∈ types, d.All fun shape => shape.isOpaque = false) ∧
      ∀ d ∈ session.2.definitions, d.body.All fun shape => shape.isOpaque = false := by
  have hI := r.steps_unique
  have hempty : r.Ready Registry.Unique {} := .empty (by simp [Registry.Unique])
  induction requests using List.reverseRecOn with
  | nil =>
    constructor
    · intro types htypes
      cases htypes
    · intro d hd
      cases hd
  | append_singleton earlier request ih =>
    obtain ⟨hanswers, hclear⟩ := ih
      (fun request hrequest => hdeclared request (List.mem_append_left _ hrequest))
      henters.of_append
    obtain ⟨hready, -, -⟩ := keeps_session hI earlier {} hempty trivial
    -- What earlier requests have made familiar has been expanded by now.
    have hexpanded (i : TypeId) (hi : r.Familiar earlier request.direction i) :
        (i, request.direction) ∈ ((r.session earlier).run {}).2.expanded := by
      obtain ⟨⟨q, decl, hd, hq⟩, hcomes⟩ := hi
      have hsettled := settled_session hI hempty hcomes
      exact hsettled.expanded (hr.opens hd request.direction) hq
    obtain ⟨hclear', hknown⟩ := clear_serve hI hr hready hclear request
      (hdeclared request (by simp)) (henters earlier request [] rfl)
      ⟨rfl, fun i hi => hi.1, hexpanded⟩
    rw [session_append]
    refine ⟨?_, hclear'⟩
    intro types htypes
    rcases List.mem_append.1 htypes with htypes | htypes
    · exact hanswers types htypes
    · obtain rfl := List.mem_singleton.1 htypes
      exact hknown

end Resolver

/-! ## A cycle that is entered at its unnamed type -/

namespace Forest

-- The runs below are evaluated, down to the tags of fields.
attribute [local semireducible] Tag.lookupChars

/-- Any number of trees; the type has no name. -/
def trees : TypeDecl where
  kind := .array { elem := ⟨"Tree"⟩ }

/-- A tree has any number of trees as its children. -/
def tree : TypeDecl where
  package := some "forest"
  name := some "Tree"
  kind := .struct [{ var := { name := "Children", type := ⟨"[]Tree"⟩ } }]

def project : Project where
  path := "forest"
  types := [(⟨"[]Tree"⟩, trees), (⟨"Tree"⟩, tree)]

def resolver : Resolver := .make project {}

/-- Asks for a variable of a type. -/
def request (id : TypeId) : Request where
  ns := "forest"
  direction := .inbound
  queries := [.variable { name := "value", type := id }]

theorem eq_of_type? {id : TypeId} {decl : TypeDecl} (h : resolver.project.type? id = some decl) :
    (id = ⟨"[]Tree"⟩ ∧ decl = trees) ∨ (id = ⟨"Tree"⟩ ∧ decl = tree) := by
  have hmem : (id, decl) ∈ [(⟨"[]Tree"⟩, trees), (⟨"Tree"⟩, tree)] := Project.mem_types_of_type? h
  simpa using hmem

theorem transparent : resolver.Transparent where
  closed := by
    intro id decl hd i hi
    obtain ⟨rfl, rfl⟩ | ⟨rfl, rfl⟩ := eq_of_type? hd
    all_goals
      obtain rfl := List.mem_singleton.1 hi
      rfl
  capabilities := by
    intro id decl hd
    obtain ⟨rfl, rfl⟩ | ⟨rfl, rfl⟩ := eq_of_type? hd <;> rfl
  unsubstituted := by
    intro id decl hd
    obtain ⟨rfl, rfl⟩ | ⟨rfl, rfl⟩ := eq_of_type? hd <;> decide
  format := by
    intro id decl hd
    obtain ⟨rfl, rfl⟩ | ⟨rfl, rfl⟩ := eq_of_type? hd <;> rfl
  interface := by
    intro id decl embeds methods hd hk
    obtain ⟨rfl, rfl⟩ | ⟨rfl, rfl⟩ := eq_of_type? hd <;> cases hk
  target := by
    intro id decl links hd hk
    obtain ⟨rfl, rfl⟩ | ⟨rfl, rfl⟩ := eq_of_type? hd <;> cases hk

theorem not_unnamed_tree : ¬ resolver.Unnamed ⟨"Tree"⟩ := by
  rintro ⟨decl, hd, hq⟩
  obtain rfl : tree = decl := Option.some.inj hd
  simp [tree, TypeDecl.qname?] at hq

theorem namesCycles : resolver.NamesCycles := by
  have htree {a b : TypeId} (ha : resolver.Unnamed a) {decl : TypeDecl}
      (hd : resolver.project.type? a = some decl) (hb : b ∈ decl.kind.links) : b = ⟨"Tree"⟩ := by
    obtain ⟨rfl, rfl⟩ | ⟨rfl, rfl⟩ := eq_of_type? hd
    · exact List.mem_singleton.1 hb
    · exact absurd ha not_unnamed_tree
  intro id hcycle
  obtain ⟨_, -, hlast, decl, hd, hid⟩ := Relation.TransGen.tail'_iff.1 hcycle
  obtain rfl := htree hlast hd hid
  obtain ⟨_, ⟨hfirst, -⟩, -⟩ := Relation.TransGen.head'_iff.1 hcycle
  exact not_unnamed_tree hfirst

/-- The only cycle goes through a named type. Resolution enters it at the unnamed one and comes back
to that one while the named type is being expanded, which is then defined with opaque children. -/
theorem exists_isOpaque :
    resolver.Transparent ∧ resolver.NamesCycles ∧
      (∀ root ∈ resolver.roots (request ⟨"[]Tree"⟩), (resolver.project.type? root).isSome) ∧
      ∃ d ∈ ((resolver.session [request ⟨"[]Tree"⟩]).run {}).2.definitions,
        ¬ d.body.All fun shape => shape.isOpaque = false := by
  have hopaque : ∃ d ∈ ((resolver.session [request ⟨"[]Tree"⟩]).run {}).2.definitions,
      ∃ t ∈ d.body.types, t.shape.isOpaque = true := by
    decide
  obtain ⟨d, hd, t, ht, hop⟩ := hopaque
  refine ⟨transparent, namesCycles, by decide, d, hd, fun hall => ?_⟩
  have hknown := (hall t ht).shape
  simp [hop] at hknown

/-! ## The same cycle entered at its named type -/

theorem eq_of_handsIn_tree {dir : Direction} {i : TypeId}
    (h : resolver.HandsIn dir ⟨"Tree"⟩ i) : i = ⟨"[]Tree"⟩ := by
  obtain ⟨decl, ho, hi⟩ := h
  obtain rfl : tree = decl := Option.some.inj ho.declared
  have hvisits : resolver.visits ⟨"Tree"⟩ tree.kind = [⟨"[]Tree"⟩] := by decide
  rw [hvisits] at hi
  exact List.mem_singleton.1 hi

theorem eq_of_handsIn_trees {dir : Direction} {i : TypeId}
    (h : resolver.HandsIn dir ⟨"[]Tree"⟩ i) : i = ⟨"Tree"⟩ := by
  obtain ⟨decl, ho, hi⟩ := h
  obtain rfl : trees = decl := Option.some.inj ho.declared
  exact List.mem_singleton.1 hi

/-- From a tree a trail comes back to nothing but the tree. -/
theorem returnsNamed_tree (dir : Direction) (done : TypeId → Prop) :
    resolver.ReturnsNamed dir done ⟨"Tree"⟩ := by
  have htrail {passed : List TypeId} {id : TypeId}
      (h : resolver.Trail dir done ⟨"Tree"⟩ passed id) :
      (id = ⟨"Tree"⟩ ∧ passed = []) ∨ (id = ⟨"[]Tree"⟩ ∧ passed = [⟨"Tree"⟩]) ∨
        (id = ⟨"Tree"⟩ ∧ passed = [⟨"[]Tree"⟩, ⟨"Tree"⟩]) := by
    induction h with
    | start => exact .inl ⟨rfl, rfl⟩
    | step _ hnew _ hands ih =>
      rcases ih with ⟨rfl, rfl⟩ | ⟨rfl, rfl⟩ | ⟨rfl, rfl⟩
      · exact .inr (.inl ⟨eq_of_handsIn_tree hands, rfl⟩)
      · exact .inr (.inr ⟨eq_of_handsIn_trees hands, rfl⟩)
      · simp at hnew
  intro passed id h hmem
  rcases htrail h with ⟨rfl, rfl⟩ | ⟨rfl, rfl⟩ | ⟨rfl, rfl⟩
  · exact not_unnamed_tree
  · simp at hmem
  · exact not_unnamed_tree

/-- From any number of trees a trail gets no further than to a tree that is done. -/
theorem returnsNamed_trees (dir : Direction) {done : TypeId → Prop} (hdone : done ⟨"Tree"⟩) :
    resolver.ReturnsNamed dir done ⟨"[]Tree"⟩ := by
  have htrail {passed : List TypeId} {id : TypeId}
      (h : resolver.Trail dir done ⟨"[]Tree"⟩ passed id) :
      (id = ⟨"[]Tree"⟩ ∧ passed = []) ∨ (id = ⟨"Tree"⟩ ∧ passed = [⟨"[]Tree"⟩]) := by
    induction h with
    | start => exact .inl ⟨rfl, rfl⟩
    | step _ _ hnot hands ih =>
      rcases ih with ⟨rfl, rfl⟩ | ⟨rfl, rfl⟩
      · exact .inr ⟨eq_of_handsIn_trees hands, rfl⟩
      · exact absurd hdone hnot
  intro passed id h hmem
  rcases htrail h with ⟨rfl, rfl⟩ | ⟨rfl, rfl⟩
  · simp at hmem
  · exact not_unnamed_tree

theorem entersNamed :
    resolver.EntersNamed [request ⟨"Tree"⟩, request ⟨"[]Tree"⟩] := by
  intro before next after heq root hroot
  match before with
  | [] =>
    obtain ⟨rfl, -⟩ := List.cons.inj heq
    obtain rfl := List.mem_singleton.1 hroot
    exact returnsNamed_tree _ _
  | [first] =>
    obtain ⟨rfl, htail⟩ := List.cons.inj heq
    obtain ⟨rfl, -⟩ := List.cons.inj htail
    obtain rfl := List.mem_singleton.1 hroot
    refine returnsNamed_trees _ ⟨⟨⟨"forest", "Tree"⟩, tree, rfl, rfl⟩, ?_⟩
    exact ⟨request ⟨"Tree"⟩, List.mem_singleton.2 rfl, rfl, ⟨"Tree"⟩, List.mem_singleton.2 rfl,
      .refl⟩
  | _ :: _ :: _ => simp at heq

/-- A tree is resolved first. After that the other type may be asked for, and the children of a tree
are not opaque. -/
theorem exists_body_known :
    ∃ d, ((resolver.session [request ⟨"Tree"⟩, request ⟨"[]Tree"⟩]).run {}).2.get?
        ⟨"forest", "Tree"⟩ = some d ∧ d.body.All fun shape => shape.isOpaque = false := by
  have hdeclared : ∀ next ∈ [request ⟨"Tree"⟩, request ⟨"[]Tree"⟩],
      ∀ root ∈ resolver.roots next, (resolver.project.type? root).isSome := by
    decide
  obtain ⟨-, hdefinitions⟩ := Resolver.isOpaque_eq_false_session resolver transparent
    [request ⟨"Tree"⟩, request ⟨"[]Tree"⟩] hdeclared entersNamed
  have hdefined : (((resolver.session [request ⟨"Tree"⟩, request ⟨"[]Tree"⟩]).run {}).2.get?
      ⟨"forest", "Tree"⟩).isSome := by
    decide
  obtain ⟨d, hd⟩ := Option.isSome_iff_exists.1 hdefined
  exact ⟨d, hd, hdefinitions d (Registry.mem_of_get? hd)⟩

end Forest

end ClientTypes

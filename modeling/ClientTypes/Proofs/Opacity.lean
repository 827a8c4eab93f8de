import ClientTypes.Proofs.Session

/-!
# Opacity is there to stay

A type that controls its own wire format in a direction is answered as opaque under its own name
wherever resolution comes to it in that direction, and from then on it is defined as an alias of the
bare opaque type. In return, every opaque alias that occurs anywhere names such a definition. Both
hold in whatever order and in whatever directions requests come.

A definition counts as opaque if its target has the bare opaque shape. That its target is the bare
opaque type itself takes one more fact: opaque values may always be absent.

## Main definitions

* `Descriptor.Lax` — an opaque value may be absent
* `Registry.Conceals` — a name is defined as an alias of the bare opaque type

The main statement is `conceals_session`.
-/

namespace ClientTypes

/-! ## Opaque values may be absent -/

/-- The value may be absent if it is opaque. -/
def Descriptor.Lax (d : Descriptor) : Prop := d.shape.isOpaque = true → d.nullable = true

/-- The target of an alias may be absent if it is opaque. -/
def Body.Lax (b : Body) : Prop := ∀ t, b = .aliasOf t → t.Lax

namespace Descriptor

variable {d : Descriptor}

theorem lax_of_isOpaque (h : d.shape.isOpaque = false) : d.Lax := by
  intro hop
  simp [h] at hop

theorem lax_bareOpaque : bareOpaque.Lax := fun _ => rfl

theorem lax_opaqueAs (q : QName) : (opaqueAs q).Lax := fun _ => rfl

theorem Lax.withPointers (h : d.Lax) (pointers : Nat) : (d.withPointers pointers).Lax := by
  intro hop
  simp [Descriptor.withPointers, h hop]

/-- Only the bare opaque type has its shape and is lax. -/
theorem Lax.eq_bareOpaque (h : d.Lax) (hbare : d.shape.isBareOpaque = true) : d = bareOpaque := by
  obtain ⟨shape, nullable⟩ := d
  have hshape : shape = .opaqueType none := by
    cases shape with
    | opaqueType name => cases name <;> simp_all [Shape.isBareOpaque]
    | _ => simp [Shape.isBareOpaque] at hbare
  subst hshape
  have hnullable : nullable = true := h rfl
  rw [hnullable]
  rfl

theorem Elementary.lax (h : d.Elementary) : d.Lax := by
  induction h with
  | bareOpaque => exact lax_bareOpaque
  | substitute s =>
    obtain ⟨target, nullable⟩ := s
    cases target with
    | builtin | native => exact lax_of_isOpaque rfl
    | opaqueType => exact fun _ => rfl
  | withPointers n _ ih => exact ih.withPointers n
  | builtin | array | map => exact lax_of_isOpaque rfl

end Descriptor

theorem Body.Lax.inlined {b : Body} (h : b.Lax) : b.inlined.Lax := by
  cases b with
  | struct ps => exact Descriptor.lax_of_isOpaque rfl
  | aliasOf t => exact h t rfl
  | interface ms =>
    cases ms with
    | nil => exact Descriptor.lax_bareOpaque
    | cons m ms => exact Descriptor.lax_of_isOpaque rfl

/-! ## Opaque definitions -/

namespace Registry

variable {reg : Registry} {d : Definition} {q : QName}

/-- A name is defined as an alias of the bare opaque type, here and in the finished table. -/
def Conceals (reg : Registry) (q : QName) : Prop :=
  ∃ d, reg.get? q = some d ∧ reg.finalize.get? q = some d ∧ d.body = .aliasOf .bareOpaque

/-- The name of an opaque shape is defined as an alias of the bare opaque type. -/
def NamesConcealed (reg : Registry) (shape : Shape Descriptor) : Prop :=
  ∀ q, shape = .opaqueType (some q) → reg.Conceals q

/-- One definition per name, with lax targets. -/
def Orderly (reg : Registry) : Prop := reg.Unique ∧ ∀ d ∈ reg.definitions, d.body.Lax

theorem Orderly.empty : Orderly {} := ⟨by simp [Unique], by simp⟩

/-- An opaque definition is an alias of the bare opaque type. -/
theorem Orderly.conceals (h : reg.Orderly) (hd : reg.get? q = some d) (hop : d.isOpaque) :
    reg.Conceals q := by
  refine ⟨d, hd, h.1.get?_finalize_eq_some_iff.2 hd, ?_⟩
  have hlax := h.2 d (mem_of_get? hd)
  obtain ⟨t, hb, hbare⟩ : ∃ t, d.body = .aliasOf t ∧ t.shape.isBareOpaque = true := by
    unfold Definition.isOpaque Body.isOpaque at hop
    split at hop
    · next t hb => exact ⟨t, hb, hop⟩
    · simp at hop
  rw [hb, (hlax t hb).eq_bareOpaque hbare]

end Registry

/-! ## Resolution -/

namespace Resolver

variable {r : Resolver} {I J : Registry → Prop} {id : TypeId} {decl : TypeDecl} {q : QName}
  {dir : Direction} {inner : TypeId → Resolving Descriptor}

theorem lax_aliasBase (h : ∀ i c, ((inner i).run c).1.Lax) (id : TypeId) (links : AliasLinks)
    (c : Chain) : ((r.aliasBase inner id links).run c).1.Lax := by
  cases hl : r.usableLink? id links with
  | some link =>
    rw [aliasBase_of_link inner hl]
    exact h link c
  | none =>
    obtain ⟨d, hd, hbase⟩ := aliasBase_of_no_link inner hl
    rw [hbase]
    exact hd.lax

theorem lax_arrayShape (a : ArrayType) (c : Chain) : ((r.arrayShape inner a).run c).1.Lax := by
  unfold arrayShape
  split <;> exact Descriptor.lax_of_isOpaque rfl

theorem lax_body (h : ∀ i c, ((inner i).run c).1.Lax) (id : TypeId) (k : Kind) (c : Chain) :
    ((r.body inner id k).run c).1.Lax := by
  intro t ht
  cases k with
  | scalar s =>
    obtain rfl : s.descriptor = t := Body.aliasOf.inj ht
    exact s.elementary_descriptor.lax
  | struct fields => cases ht
  | interface embeds methods => cases ht
  | aliasOf links =>
    obtain rfl : ((r.aliasBase inner id links).run c).1 = t := Body.aliasOf.inj ht
    exact lax_aliasBase h id links c
  | array a =>
    obtain rfl : ((r.arrayShape inner a).run c).1 = t := Body.aliasOf.inj ht
    exact lax_arrayShape a c
  | map m =>
    obtain rfl : Descriptor.map _ _ = t := Body.aliasOf.inj ht
    exact Descriptor.lax_of_isOpaque rfl
  | function s =>
    obtain rfl : { shape := Shape.function _ } = t := Body.aliasOf.inj ht
    exact Descriptor.lax_of_isOpaque rfl
  | channel | any =>
    obtain rfl : Descriptor.bareOpaque = t := Body.aliasOf.inj ht
    exact Descriptor.lax_bareOpaque

/-- Whatever is answered as opaque may be absent. -/
theorem lax_resolveType (n : Nat) (id : TypeId) (c : Chain) :
    ((r.resolveType n id).run c).1.Lax :=
  answer_resolveType (P := fun _ d => d.Lax) (fun _ _ => Descriptor.Elementary.lax)
    (fun _ q _ => Descriptor.lax_opaqueAs q) (fun _ _ _ => Descriptor.lax_of_isOpaque rfl)
    (fun _ id decl _ c h _ _ => (lax_body h id decl.kind c).inlined) n id c

theorem lax_of_stub? {k : Kind} {stub : Body} (h : k.stub? = some stub) : stub.Lax := by
  rintro t rfl
  simpa using Kind.stub?_cases h

theorem lax_aliasOf_bareOpaque : (Body.aliasOf .bareOpaque).Lax := by
  intro t ht
  obtain rfl := Body.aliasOf.inj ht
  exact Descriptor.lax_bareOpaque

theorem steps_lax (r : Resolver) : r.Steps fun reg => ∀ d ∈ reg.definitions, d.body.Lax where
  hide hc _ _ := Registry.forall_mem_merge hc.registry lax_aliasOf_bareOpaque
  back hc _ _ _ hstub := Registry.forall_mem_merge hc.registry (lax_of_stub? hstub)
  complete {n id decl name c c' b} _ _ _ hrun hc' _ := by
    have hb : b.Lax := by
      have hlax := lax_body (r := r) (lax_resolveType (r := r) n) id decl.kind c
      rwa [hrun] at hlax
    intro d hd
    rw [Registry.definitions_markExpanded] at hd
    exact Registry.forall_mem_merge hc'.registry hb d hd

theorem steps_orderly (r : Resolver) : r.Steps Registry.Orderly := r.steps_unique.and r.steps_lax

theorem namesConcealed_of_refers {reg : Registry} (h : reg.Orderly) {shape : Shape Descriptor}
    (hs : r.Refers [] reg shape) : reg.NamesConcealed shape := by
  rintro q rfl
  obtain ⟨d, hd, hop⟩ := hs
  exact h.conceals hd hop

/-! ## Sessions -/

/-- The answer for a type that controls its own wire format, wherever it is met. -/
theorem resolveType_of_overridden (hd : r.project.type? id = some decl)
    (hq : decl.qname? = some q) (hs : r.substitute? decl = none)
    (ho : dir.isOverriddenBy decl.capabilities = true) (depth : Nat) {c : Chain}
    (hdir : c.direction = dir) : ((r.resolveType depth id).run c).1 = .opaqueAs q := by
  have hhides : r.Hides c.direction id decl := ⟨hd, hs, by rw [hdir, ho, Bool.true_or]⟩
  have hmeet (expansion : TypeId → TypeDecl → Resolving Descriptor) :
      ((r.meet expansion id).run c).1 = .opaqueAs q := by
    rw [run_meet_of_hides hhides, run_hide_of_named hq]
  cases depth with
  | zero => exact hmeet _
  | succ depth => exact hmeet _

/-- A session `s`, which may go on with another one `t`. A declared and named type without a
substitute, wherever it is met in a direction in which it controls its own wire format, is answered
as opaque under its own name; once a request has led to it there, it stays defined as an alias of
the bare opaque type. And so does whatever an opaque alias names, in answers and in definitions. -/
theorem conceals_session (r : Resolver) (s t : List Request) :
    let now := (r.session s).run {}
    let later := (r.session (s ++ t)).run {}
    (∀ dir id decl q, r.project.type? id = some decl → decl.qname? = some q →
      r.substitutions.get? q.dotted = none → dir.isOverriddenBy decl.capabilities = true →
        (∀ depth pointers c, c.direction = dir →
          ((r.resolveType depth id).run c).1.withPointers pointers = .opaqueAs q) ∧
        (r.ComesTo s dir id → later.2.Conceals q)) ∧
    (∀ types ∈ now.1, ∀ d ∈ types, d.All later.2.NamesConcealed) ∧
    ∀ d ∈ now.2.definitions, d.body.All later.2.NamesConcealed := by
  have hI := steps_orderly r
  have hempty : r.Ready Registry.Orderly {} := .empty Registry.Orderly.empty
  obtain ⟨hnow, -, hserved⟩ := keeps_session hI s {} hempty trivial
  obtain ⟨hlater, hle, -⟩ := keeps_session hI t _ hnow trivial
  have horderly : ((r.session (s ++ t)).run {}).2.Orderly := by
    rw [session_append]
    exact hlater.rests.registry
  have hrefers {shape : Shape Descriptor}
      (hs : r.Refers [] ((r.session s).run {}).2 shape) :
      ((r.session (s ++ t)).run {}).2.NamesConcealed shape := by
    refine namesConcealed_of_refers (r := r) horderly ?_
    rw [session_append]
    exact hs.of_extends hle
  refine ⟨?_, ?_, ?_⟩
  · intro dir id decl q hd hq hnone ho
    have hs : r.substitute? decl = none := by
      unfold substitute?
      rw [hq]
      exact hnone
    constructor
    · intro depth pointers c hdir
      rw [resolveType_of_overridden hd hq hs ho depth hdir]
      rfl
    · rintro ⟨request, hrequest, hlead⟩
      have hcomes : r.ComesTo (s ++ t) dir id :=
        ⟨request, List.mem_append_left t hrequest, hlead⟩
      have hhides : r.Hides dir id decl := ⟨hd, hs, by rw [ho, Bool.true_or]⟩
      obtain ⟨d, hget, hop⟩ := (settled_session hI hempty hcomes).hidden hhides hq
      exact horderly.conceals hget hop
  · intro types htypes d hd
    obtain ⟨request, -, hserved⟩ := exists_of_mem_right hserved htypes
    exact (hserved.refers d hd).imp fun _ hs => hrefers hs
  · intro d hd
    exact (hnow.rests.closed.bodies d hd).imp fun _ hs => hrefers hs

end Resolver

/-! ## A type that writes itself -/

namespace Purse

-- The runs below are evaluated, down to the tags of fields.
attribute [local semireducible] Tag.lookupChars

/-- A purse holds money, which writes itself and is read by its structure. -/
def resolver : Resolver where
  project :=
    { path := "purse"
      types :=
        [(⟨"Purse"⟩, {
            package := some "purse", name := some "Purse"
            kind := .struct [{ var := { name := "Balance", type := ⟨"Money"⟩ } }] }),
         (⟨"Money"⟩, {
            package := some "purse", name := some "Money"
            kind := .struct [{ var := { name := "Cents", type := ⟨"int64"⟩ } }]
            capabilities := { marshalJson := true } })] }
  substitutions := {}
  tagKey := "json"

/-- Asks for a purse in a direction. -/
def request (direction : Direction) : Request where
  ns := "purse"
  direction
  queries := [.type ⟨"Purse"⟩ 0]

theorem comesTo_money :
    resolver.ComesTo [request .inbound, request .outbound] .outbound ⟨"Money"⟩ := by
  refine ⟨request .outbound, by simp, rfl, ⟨"Purse"⟩, by simp [Resolver.roots, request,
    Resolver.queryRoots], .single ⟨_, ⟨rfl, rfl, rfl⟩, ?_⟩⟩
  decide

/-- A purse is read first, with the structure of its money, and then written. From then on the
money is opaque, also when a purse is read once more. -/
theorem conceals_money :
    ((resolver.session [request .inbound, request .outbound, request .inbound]).run {}).2.Conceals
      ⟨"purse", "Money"⟩ := by
  obtain ⟨htypes, -, -⟩ :=
    Resolver.conceals_session resolver [request .inbound, request .outbound] [request .inbound]
  obtain ⟨-, h⟩ := htypes .outbound ⟨"Money"⟩ _ ⟨"purse", "Money"⟩ rfl rfl rfl rfl
  exact h comesTo_money

end Purse

end ClientTypes

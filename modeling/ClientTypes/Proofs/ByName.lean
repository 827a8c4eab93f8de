import ClientTypes.Proofs.Amid

/-!
# Types go by their names

Where a type with a name is used, the answer is its name. It does not matter what the registry
holds, nor what is being expanded; on a cycle the answer is the same as on the first visit. An alias
of such a type is no exception: its definition refers to the other name, and does not skip it for
what stands behind that. So an alias has one and the same body, whichever type of a chain or of a
cycle is resolved first.

## Main definitions

* `Kind.Unknown` — kinds without a known wire format
* `Descriptor.Cites` — a descriptor that does nothing but refer to a type by its name
* `Resolver.Called` — a declared type that goes by a name of its own
* `Resolver.GoesBy` — the link by which an alias goes
* `Resolver.Abbreviates` — a name that is an alias of another one

The main statement is `stays_named`.
-/

namespace ClientTypes

/-- Channels, values of any type, and complex numbers have no known wire format. -/
inductive Kind.Unknown : Kind → Prop
  | channel (elem : TypeId) : Unknown (.channel elem)
  | any : Unknown .any
  | complex {s : Scalar} : s.isComplex = true → Unknown (.scalar s)

theorem Kind.isFormless_iff {k : Kind} : k.isFormless = true ↔ k.Unknown := by
  constructor
  · intro h
    cases k with
    | scalar s => exact .complex (by cases s <;> first | rfl | cases h)
    | channel elem => exact .channel elem
    | any => exact .any
    | _ => cases h
  · rintro (elem | _ | @⟨s, hs⟩)
    · rfl
    · rfl
    · cases s <;> first | rfl | cases hs

/-- The descriptor refers to a named type behind some pointers. It is opaque under the name if the
type controls its wire format in the direction or none is known of its kind; otherwise it is the
name alone, which may be absent behind a pointer. -/
structure Descriptor.Cites (d : Descriptor) (dir : Direction) (decl : TypeDecl) (q : QName)
    (pointers : Nat) : Prop where
  hidden : dir.isOverriddenBy decl.capabilities = true ∨ decl.kind.Unknown →
    d = { shape := .opaqueType (some q), nullable := true }
  plain : dir.isOverriddenBy decl.capabilities = false → ¬ decl.kind.Unknown →
    d = { shape := .named q, nullable := decide (0 < pointers) }

namespace Resolver

variable {r : Resolver} {id i : TypeId} {decl declI : TypeDecl} {n : Nat} {c : Chain}
  {q q' : QName} {d : Descriptor} {dir : Direction} {links : AliasLinks} {link : TypeId}

/-- A declared type that goes by a name of its own: it is not substituted. -/
structure Called (r : Resolver) (id : TypeId) (decl : TypeDecl) (q : QName) : Prop where
  declared : r.project.type? id = some decl
  named : decl.qname? = some q
  unsubstituted : r.substitute? decl = none

/-- An alias goes by its target if that is declared and not the alias itself, and otherwise by the
type that underlies it if that is. -/
inductive GoesBy (r : Resolver) (id : TypeId) (links : AliasLinks) (link : TypeId) : Prop
  | target : links.target = some link → link ≠ id → (r.project.type? link).isSome →
      GoesBy r id links link
  | underlying :
      (∀ t, links.target = some t → t ≠ id → ¬ (r.project.type? t).isSome) →
        links.underlying = some link → link ≠ id → (r.project.type? link).isSome →
          GoesBy r id links link

/-- The name of an alias that goes by a type of another name, of which a wire format is known. -/
inductive Abbreviates (r : Resolver) (q q' : QName) : Prop
  | intro {id link : TypeId} {decl declLink : TypeDecl} {links : AliasLinks} :
      r.project.type? id = some decl → decl.qname? = some q → decl.kind = .aliasOf links →
        r.GoesBy id links link → r.Called link declLink q' → ¬ declLink.kind.Unknown →
          Abbreviates r q q'

theorem GoesBy.usableLink?_eq (h : r.GoesBy id links link) :
    r.usableLink? id links = some link := by
  unfold usableLink?
  cases h with
  | target ht hne hd => simp [ht, hne, hd]
  | underlying hno hu hne hd =>
    cases ht : links.target with
    | none => simp [hu, hne, hd]
    | some t =>
      have hunusable : (t != id && (r.project.type? t).isSome) = false := by
        by_cases hid : t = id
        · simp [hid]
        · simpa [hid] using hno t ht hid
      simp only [Option.toList_some, List.singleton_append, List.find?_cons, hunusable]
      simp [hu, hne, hd]

/-! ## References -/

theorem Called.hides_or_opens (h : r.Called id decl q) (dir : Direction) :
    r.Hides dir id decl ∨ r.Opens dir id decl := by
  cases hcase : dir.isOverriddenBy decl.capabilities || decl.kind.isFormless with
  | true => exact .inl ⟨h.declared, h.unsubstituted, hcase⟩
  | false => exact .inr ⟨h.declared, h.unsubstituted, hcase⟩

/-- The answer by name refers to the type. -/
theorem Called.cites (h : r.Called id decl q) (hd : r.answer? dir id = some d) (pointers : Nat) :
    (d.withPointers pointers).Cites dir decl q pointers := by
  rcases h.hides_or_opens dir with hh | ho
  · rw [answer?_of_hides hh, h.named] at hd
    obtain rfl : Descriptor.opaqueAs q = d := Option.some.inj hd
    refine ⟨fun _ => rfl, fun hcap hknown => ?_⟩
    have hhidden := hh.hidden
    rw [hcap, Bool.false_or, Kind.isFormless_iff] at hhidden
    exact absurd hhidden hknown
  · rw [answer?_of_opens ho, h.named] at hd
    obtain rfl : Descriptor.named q = d := Option.some.inj hd
    obtain ⟨hcap, hform⟩ := Bool.or_eq_false_iff.1 ho.opened
    refine ⟨?_, fun _ _ => by simp [Descriptor.withPointers, Descriptor.named]⟩
    rintro (hover | hunknown)
    · simp [hcap] at hover
    · simp [Kind.isFormless_iff.2 hunknown] at hform

/-- Whatever the chain is, resolution answers a named type by its name: on a cycle, when it has been
expanded before, and when it is expanded now. -/
theorem Called.run_resolveType (h : r.Called id decl q) (n : Nat) (c : Chain) :
    r.answer? c.direction id = some ((r.resolveType (n + 1) id).run c).1 := by
  rw [resolveType]
  rcases h.hides_or_opens c.direction with hh | ho
  · rw [answer?_of_hides hh, run_meet_of_hides hh, run_hide_of_named h.named, h.named]
    rfl
  · rw [answer?_of_opens ho, run_meet_of_named ho h.named, h.named]
    split
    · rw [run_referBack]
      rfl
    · split
      · rfl
      · simp only [expand, h.named]
        rfl

/-- A declared type leaves room for an expansion. -/
theorem exists_depthLimit_eq (hd : r.project.type? id = some decl) :
    ∃ n, r.depthLimit = n + 1 :=
  Nat.exists_eq_add_one.2 (List.length_pos_of_mem (Project.mem_types_of_type? hd))

theorem Called.cites_resolve (h : r.Called id decl q) (pointers : Nat) (c : Chain) :
    ((r.resolve id pointers).run c).1.Cites c.direction decl q pointers := by
  obtain ⟨n, hn⟩ := exists_depthLimit_eq h.declared
  have hanswer := h.run_resolveType n c
  rw [← hn] at hanswer
  exact h.cites hanswer pointers

/-- Where the body of a type is being resolved there is room for what it visits. -/
theorem Site.replies {I : Registry → Prop} (hs : r.Site I n id decl c)
    (hi : i ∈ r.visits id decl.kind) (hd : r.answer? c.direction i = some d) :
    ((r.resolveType n i).run c).1 = d := by
  obtain ⟨-, hle, hreplies⟩ := keeps_of_steps r.steps_true n i c
    (hs.inv.mono fun _ _ => trivial) (hs.underway.visit hs.opens hi)
  exact hreplies.answer d (hle.direction ▸ hd)

theorem Called.cites_visit (h : r.Called i declI q) (hamid : r.Amid n id decl c)
    (hi : i ∈ r.visits id decl.kind) (pointers : Nat) :
    (((r.resolveType n i).run c).1.withPointers pointers).Cites c.direction declI q pointers := by
  obtain ⟨d, hd, -⟩ := exists_answer?_of_named h.declared h.named h.unsubstituted c.direction
  rw [(hamid.site r.steps_true trivial).replies hi hd]
  exact h.cites hd pointers

/-! ## Aliases -/

/-- A body that stands for another name. -/
theorem Site.body_eq {I : Registry → Prop} (hs : r.Site I n id decl c)
    (hk : decl.kind = .aliasOf links) (hlink : r.GoesBy id links link)
    (hcalled : r.Called link declI q') (ho : r.Opens c.direction link declI) :
    ((r.body (r.resolveType n) id decl.kind).run c).1 = .aliasOf (.named q') := by
  have hvisit : link ∈ r.visits id decl.kind := by
    rw [hk]
    simp [visits, hlink.usableLink?_eq]
  have hanswer : r.answer? c.direction link = some (.named q') := by
    rw [answer?_of_opens ho, hcalled.named]
    rfl
  rw [← hs.replies hvisit hanswer, hk, run_body_of_link hlink.usableLink?_eq]

/-- Each step that offers a definition under the alias offers the one that refers to the other
name: no alias is hidden here, and none is registered before it is known. -/
theorem Abbreviates.steps (hdistinct : r.project.Distinct)
    (hplain : ∀ id decl, r.project.type? id = some decl → decl.isNamed → decl.capabilities = {})
    (h : r.Abbreviates q q') :
    r.Steps fun reg => ∀ d ∈ reg.definitions, d.name = q → d.body = .aliasOf (.named q') := by
  obtain @⟨a, link, declA, declLink, links, hdA, hqA, hkA, hlink, hcalled, hknown⟩ := h
  have hsame {id : TypeId} {decl : TypeDecl} {name : QName} (hd : r.project.type? id = some decl)
      (hname : decl.qname? = some name) (heq : name = q) : id = a ∧ decl = declA := by
    obtain rfl := hdistinct id a q ⟨decl, hd, heq ▸ hname⟩ ⟨declA, hdA, hqA⟩
    exact ⟨rfl, Option.some.inj (hd.symm.trans hdA)⟩
  have hcap {id : TypeId} {decl : TypeDecl} {name : QName} (hd : r.project.type? id = some decl)
      (hname : decl.qname? = some name) : decl.capabilities = {} :=
    hplain id decl hd (by rw [TypeDecl.isNamed, hname]; rfl)
  have hopens (dir : Direction) : r.Opens dir link declLink :=
    opens_of_capabilities hcalled.declared hcalled.unsubstituted
      (hcap hcalled.declared hcalled.named)
      (Bool.eq_false_iff.2 fun hform => hknown (Kind.isFormless_iff.1 hform)) dir
  have hopensA {dir : Direction} (hs : r.substitute? declA = none) : r.Opens dir a declA :=
    opens_of_capabilities hdA hs (hcap hdA hqA) (by rw [hkA]; rfl) dir
  constructor
  · intro c id decl name hc hh hname
    refine Registry.forall_mem_merge hc.registry fun heq => ?_
    obtain ⟨rfl, rfl⟩ := hsame hh.declared hname heq
    exact ((hopensA hh.unsubstituted).not_hides hh).elim
  · intro c id decl name stub hc ho hname _ hstub
    refine Registry.forall_mem_merge hc.registry fun heq => ?_
    obtain ⟨rfl, rfl⟩ := hsame ho.declared hname heq
    simp [hkA, Kind.stub?] at hstub
  · intro n id decl name c c' b hs _ hname hrun hc' _ d hd
    rw [Registry.definitions_markExpanded] at hd
    refine Registry.forall_mem_merge hc'.registry (fun heq => ?_) d hd
    obtain ⟨rfl, rfl⟩ := hsame hs.opens.declared hname heq
    have hbody := hs.body_eq hkA hlink hcalled (hopens c.direction)
    rwa [hrun] at hbody

/-- The finished definition of such an alias, in whatever registry a run leaves. -/
theorem Abbreviates.body_eq (hdistinct : r.project.Distinct)
    (hplain : ∀ id decl, r.project.type? id = some decl → decl.isNamed → decl.capabilities = {})
    (h : r.Abbreviates q q') {reg : Registry} (hleft : r.Left reg) {d : Definition}
    (hd : reg.finalize.get? q = some d) : d.body = .aliasOf (.named q') := by
  obtain ⟨c, hc, rfl⟩ := hleft
  have hinv := (hc.inv (r.steps_unique.and (h.steps hdistinct hplain)) ⟨.empty, by simp⟩).1
  obtain ⟨hunique, hbodies⟩ := hinv.registry
  have hget := hunique.get?_finalize_eq_some_iff.1 hd
  exact hbodies d (Registry.mem_of_get? hget) (Registry.name_of_get? hget)

/-- A named type that is not substituted is answered by its name, in any chain whatsoever and also
in the middle of an expansion: opaque under the name where the type controls its wire format or none
is known of its kind, and as the name itself everywhere else. If the names are distinct and no named
type controls its wire format, an alias of a name is defined as this name, in every registry that a
run leaves. -/
theorem stays_named (r : Resolver) :
    (∀ id decl q, r.Called id decl q → ∀ pointers,
      (∀ c, ((r.resolve id pointers).run c).1.Cites c.direction decl q pointers) ∧
      ∀ n holder declHolder c, r.Amid n holder declHolder c →
        id ∈ r.visits holder declHolder.kind →
          (((r.resolveType n id).run c).1.withPointers pointers).Cites c.direction decl q
            pointers) ∧
    (r.project.Distinct →
      (∀ id decl, r.project.type? id = some decl → decl.isNamed → decl.capabilities = {}) →
        ∀ reg, r.Left reg → ∀ q q' d, r.Abbreviates q q' → reg.finalize.get? q = some d →
          d.body = .aliasOf { shape := .named q', nullable := false }) := by
  constructor
  · intro id decl q hcalled pointers
    exact ⟨fun c => hcalled.cites_resolve pointers c,
      fun n holder declHolder c hamid hvisit => hcalled.cites_visit hamid hvisit pointers⟩
  · intro hdistinct hplain reg hleft q q' d habbr hd
    exact habbr.body_eq hdistinct hplain hleft hd

end Resolver

/-! ## Two aliases of each other -/

namespace Sky

def day : TypeDecl where
  package := some "sky"
  name := some "Day"
  kind := .aliasOf { target := some ⟨"Night"⟩ }

def night : TypeDecl where
  package := some "sky"
  name := some "Night"
  kind := .aliasOf { target := some ⟨"Night"⟩, underlying := some ⟨"Day"⟩ }

/-- The day is what the night is, and the night is itself and what the day is. -/
def project : Project where
  path := "sky"
  contracts := []
  types := [(⟨"Day"⟩, day), (⟨"Night"⟩, night)]

def resolver : Resolver := .make project {}

/-- The chain in which the day is expanded. -/
def start : Chain :=
  Chain.enter ⟨"Day"⟩ "sky" { ns := "sky", direction := .outbound, registry := {} }

/-- What is left when the day has been resolved, and the night after it. -/
def registry : Registry :=
  ((resolver.session
    [{ ns := "sky", direction := .outbound, queries := [.type ⟨"Day"⟩ 0] },
     { ns := "sky", direction := .inbound, queries := [.type ⟨"Night"⟩ 1] }]).run {}).2

theorem called_day : resolver.Called ⟨"Day"⟩ day ⟨"sky", "Day"⟩ := ⟨rfl, by decide, by decide⟩

theorem called_night : resolver.Called ⟨"Night"⟩ night ⟨"sky", "Night"⟩ :=
  ⟨rfl, by decide, by decide⟩

theorem amid_start : resolver.Amid 1 ⟨"Day"⟩ day start := by
  have hopens : resolver.Opens .outbound ⟨"Day"⟩ day :=
    ⟨called_day.declared, called_day.unsubstituted, rfl⟩
  exact .outer (.start "sky" .outbound) rfl
    (.named hopens called_day.named List.not_mem_nil List.not_mem_nil)

theorem abbreviates_night : resolver.Abbreviates ⟨"sky", "Night"⟩ ⟨"sky", "Day"⟩ := by
  have hlink : resolver.GoesBy ⟨"Night"⟩
      { target := some ⟨"Night"⟩, underlying := some ⟨"Day"⟩ } ⟨"Day"⟩ :=
    .underlying (by simp) rfl (by decide) rfl
  exact .intro called_night.declared called_night.named rfl hlink called_day nofun

theorem plain : ∀ t ∈ project.types, t.2.capabilities = {} := by decide

/-- In the middle of the day, the night is not taken apart. Although it has led back to the day
there, it is defined as an alias of the day. -/
theorem night_stays_named :
    (resolver.Called ⟨"Night"⟩ night ⟨"sky", "Night"⟩ ∧ resolver.Amid 1 ⟨"Day"⟩ day start ∧
      ⟨"Night"⟩ ∈ resolver.visits ⟨"Day"⟩ day.kind ∧ resolver.project.Distinct ∧
        (∀ id decl, project.type? id = some decl → decl.isNamed → decl.capabilities = {}) ∧
          resolver.Left registry ∧ resolver.Abbreviates ⟨"sky", "Night"⟩ ⟨"sky", "Day"⟩) ∧
    ((resolver.resolve ⟨"Night"⟩ 1).run start).1.Cites .outbound night ⟨"sky", "Night"⟩ 1 ∧
    (((resolver.resolveType 1 ⟨"Night"⟩).run start).1.withPointers 0).Cites .outbound night
      ⟨"sky", "Night"⟩ 0 ∧
    ∃ d, registry.finalize.get? ⟨"sky", "Night"⟩ = some d ∧
      d.body = .aliasOf { shape := .named ⟨"sky", "Day"⟩, nullable := false } := by
  obtain ⟨hcites, halias⟩ := Resolver.stays_named resolver
  have hvisit : ⟨"Night"⟩ ∈ resolver.visits ⟨"Day"⟩ day.kind := by decide
  have hdistinct : resolver.project.Distinct := Project.distinct_of_forall (by decide)
  have hplain (id : TypeId) (decl : TypeDecl) (hd : project.type? id = some decl)
      (_ : decl.isNamed) : decl.capabilities = {} := plain _ (Project.mem_types_of_type? hd)
  have hleft : resolver.Left registry := resolver.left_session _
  obtain ⟨d, hd⟩ := Option.isSome_iff_exists.1
    (Registry.isSome_get?_finalize.2 (show registry.contains ⟨"sky", "Night"⟩ = true by decide))
  refine ⟨⟨called_night, amid_start, hvisit, hdistinct, hplain, hleft, abbreviates_night⟩,
    (hcites _ _ _ called_night 1).1 start,
    (hcites _ _ _ called_night 0).2 1 _ _ start amid_start hvisit, d, hd,
    halias hdistinct hplain registry hleft _ _ d abbreviates_night hd⟩

end Sky

end ClientTypes

import ClientTypes.Proofs.Resolve.Congruence
import ClientTypes.Proofs.Resolve.Provenance

/-!
# Steady types have one body

The body of a steady type does not depend on the chain in which it is resolved. The proof is by
induction on how far consultations go. What an expansion takes in place is resolved inside of it,
where the hypothesis applies. What it reads of the registry has been expanded before, since it does
not lead back to the type at hand; so it was born in some other chain, and there the hypothesis
applies too.

## Main definitions

* `Resolver.Agrees` — the bodies of steady types are the same in all chains
* `Resolver.SettledBehind` — the types behind an id are steady, and none is being expanded

The main statement is `agrees`.
-/

namespace ClientTypes

namespace Resolver

open Registry (structFrom_of_mem structFrom_of_get?)

variable {r : Resolver} {a : Aspect} {I J : Registry → Prop} {k n : Nat} {id i : TypeId}
  {decl : TypeDecl} {q : QName} {c c₁ c₂ : Chain} {d₁ d₂ : Descriptor}

/-! ## Behind aliases -/

theorem Behind.trans {j : TypeId} (h : r.Behind id i) (h' : r.Behind i j) : r.Behind id j := by
  induction h with
  | refl => exact h'
  | link ho hk hl _ ih => exact .link ho hk hl (ih h')

/-- The name that an alias is born with stands at the end of the aliases behind it. -/
theorem Born.behind (hI : r.Steps I) {t : Descriptor} (hb : r.Born I id (.aliasOf t))
    (hq : t.shape = .named q) : ∃ i, r.Behind id i ∧ r.project.Names i q := by
  obtain ⟨n, decl, c, hsite, hb⟩ := hb
  exact hsite.behind (keeps_of_steps hI n) hb.symm hq

/-! ## What is known in a chain -/

/-- A type of a name that is referred to has been expanded, unless it is being expanded. -/
theorem done_of_refersIn (hdistinct : r.project.Distinct) (h : r.RefersIn c (.named q))
    (hq : r.project.Names i q) (hmem : i ∉ c.processing) : Done c.registry i := by
  obtain ⟨j, hj, hp | hd⟩ := h
  · exact absurd (hdistinct _ _ _ hq hj ▸ hp) hmem
  · rwa [hdistinct _ _ _ hq hj]

theorem Inv.exists_get? (hc : r.Inv I c) (hq : r.project.Names i q) (hd : Done c.registry i) :
    ∃ d, c.registry.get? q = some d := by
  obtain ⟨dir, hd⟩ := hd
  exact Option.isSome_iff_exists.1 (hc.closed.closed.defined hd hq)

theorem Inv.refersIn_named (hc : r.Inv I c) {e : Definition} (he : c.registry.get? q = some e)
    {t : Descriptor} (ht : e.body = .aliasOf t) {next : QName} (hnext : t.shape = .named next) :
    r.RefersIn c (.named next) := by
  have hbody := hc.closed.closed.bodies e (Registry.mem_of_get? he)
  rw [ht] at hbody
  exact hnext ▸ (Body.all_aliasOf.1 hbody).shape

/-! ## Agreement -/

/-- As far as `k` consultations go, the body of a steady type is the same wherever it is
resolved. -/
def Agrees (r : Resolver) (a : Aspect) (k : Nat) : Prop :=
  ∀ ⦃id decl n₁ n₂ c₁ c₂⦄, r.SteadyAt a k id → r.Site (r.layer k) n₁ id decl c₁ →
    r.Site (r.layer k) n₂ id decl c₂ →
      a.body ((r.body (r.resolveType n₁) id decl.kind).run c₁).1 =
        a.body ((r.body (r.resolveType n₂) id decl.kind).run c₂).1

theorem Agrees.born (h : r.Agrees a k) (hs : r.SteadyAt a k id) {b₁ b₂ : Body}
    (h₁ : r.Born (r.layer k) id b₁) (h₂ : r.Born (r.layer k) id b₂) : a.body b₁ = a.body b₂ := by
  obtain ⟨n₁, decl, c₁, hsite₁, rfl⟩ := h₁
  obtain ⟨n₂, decl₂, c₂, hsite₂, rfl⟩ := h₂
  obtain rfl : decl₂ = decl := hsite₁.opens.decl_eq hsite₂.opens.declared
  exact h hs hsite₁ hsite₂

/-- Two chains define an expanded type alike. -/
theorem Agrees.exists_get? (h : r.Agrees a k) (hs : r.SteadyAt a k i)
    (h₁ : r.Inv (r.layer (k + 1)) c₁) (h₂ : r.Inv (r.layer (k + 1)) c₂)
    (hq : r.project.Names i q) (hd₁ : Done c₁.registry i) (hd₂ : Done c₂.registry i) :
    ∃ e₁ e₂, c₁.registry.get? q = some e₁ ∧ c₂.registry.get? q = some e₂ ∧
      r.Born (r.layer k) i e₁.body ∧ a.body e₁.body = a.body e₂.body := by
  obtain ⟨e₁, he₁⟩ := h₁.exists_get? hq hd₁
  obtain ⟨e₂, he₂⟩ := h₂.exists_get? hq hd₂
  have hb₁ := h₁.registry.2 i q e₁ hq hs.even hd₁ he₁
  have hb₂ := h₂.registry.2 i q e₂ hq hs.even hd₂ he₂
  exact ⟨e₁, e₂, he₁, he₂, hb₁, h.born hs hb₁ hb₂⟩

/-! ## Behind an answer -/

/-- A name of a type behind the id that has been expanded in both registries. -/
def DoneBehind (r : Resolver) (i : TypeId) (reg₁ reg₂ : Registry) (q : QName) : Prop :=
  ∃ u, r.Behind i u ∧ r.project.Names u q ∧ Done reg₁ u ∧ Done reg₂ u

/-- The types behind an id are steady, and none of them is being expanded. -/
def SettledBehind (r : Resolver) (a : Aspect) (k : Nat) (i : TypeId) (c₁ c₂ : Chain) : Prop :=
  ∀ u, r.Behind i u → r.SteadyAt a k u ∧ u ∉ c₁.processing ∧ u ∉ c₂.processing

theorem SettledBehind.doneBehind (hb : r.SettledBehind a k i c₁ c₂)
    (hdistinct : r.project.Distinct) (hq : ∃ u, r.Behind i u ∧ r.project.Names u q)
    (h₁ : r.RefersIn c₁ (.named q)) (h₂ : r.RefersIn c₂ (.named q)) :
    r.DoneBehind i c₁.registry c₂.registry q := by
  obtain ⟨u, hu, huq⟩ := hq
  exact ⟨u, hu, huq, done_of_refersIn hdistinct h₁ huq (hb u hu).2.1,
    done_of_refersIn hdistinct h₂ huq (hb u hu).2.2⟩

/-- Such a name is defined alike in both. -/
theorem Agrees.exists_get?_behind (h : r.Agrees a k) (h₁ : r.Inv (r.layer (k + 1)) c₁)
    (h₂ : r.Inv (r.layer (k + 1)) c₂) (hb : r.SettledBehind a k i c₁ c₂) {e₁ : Definition}
    (he₁ : c₁.registry.get? q = some e₁) (hq : r.DoneBehind i c₁.registry c₂.registry q) :
    ∃ e₂, c₂.registry.get? q = some e₂ ∧ a.body e₁.body = a.body e₂.body ∧
      ∃ u, r.Behind i u ∧ r.Born (r.layer k) u e₁.body := by
  obtain ⟨u, hu, huq, hd₁, hd₂⟩ := hq
  obtain ⟨e, e₂, he, he₂, hborn, heq⟩ := h.exists_get? (hb u hu).1 h₁ h₂ huq hd₁ hd₂
  obtain rfl : e = e₁ := Option.some.inj (he.symm.trans he₁)
  exact ⟨e₂, he₂, heq, u, hu, hborn⟩

/-- A named type that is visited and does not lead back is answered by its name, which has a
definition then. -/
theorem keeps_named (hdistinct : r.project.Distinct) (hi : i ∈ r.visits id decl.kind)
    (hleads : ¬ r.Leads i id) (he : r.Even i) {dir : Direction} {declI : TypeDecl}
    (ho : r.Opens dir i declI) (hq : declI.qname? = some q) :
    (r.lawOf (r.layer (k + 1))).Keeps (r.Site (r.layer (k + 1)) n id decl) (r.resolveType n i)
      fun d c => d = .named q ∧ ∃ e, c.registry.get? q = some e ∧ r.Born (r.layer k) i e.body := by
  intro c hc hsite
  obtain ⟨hc', hle, hd⟩ := keeps_of_steps (steps_layer hdistinct (k + 1)) n i c hc
    (hsite.underway.visit hsite.opens hi)
  have hnames : r.project.Names i q := ⟨declI, ho.declared, hq⟩
  have heq := hd.eq_named (he.opens ho _) hq
  have hmem : i ∉ ((r.resolveType n i).run c).2.processing := by
    rw [hle.processing]
    exact fun hmem => hleads (hsite.underway.path i hmem)
  have hrefers := hd.refers.shape
  rw [heq] at hrefers
  have hdone := done_of_refersIn hdistinct hrefers hnames hmem
  obtain ⟨e, hget⟩ := hc'.exists_get? hnames hdone
  exact ⟨hc', hle, heq, e, hget, hc'.registry.2 i q e hnames he hdone hget⟩

/-- The structs behind a name are alike if the definitions of all types behind it are. -/
theorem map_structFrom_eq (hdistinct : r.project.Distinct) (h : r.Agrees a k)
    (h₁ : r.Inv (r.layer (k + 1)) c₁) (h₂ : r.Inv (r.layer (k + 1)) c₂)
    (hbehind : r.SettledBehind a k i c₁ c₂) (met : List QName) (q : QName)
    (hq : r.DoneBehind i c₁.registry c₂.registry q) :
    (c₁.registry.structFrom met q).map (List.map a.property) =
      (c₂.registry.structFrom met q).map (List.map a.property) := by
  have hagree {q : QName} {e₁ : Definition} (he₁ : c₁.registry.get? q = some e₁)
      (hq : r.DoneBehind i c₁.registry c₂.registry q) :=
    h.exists_get?_behind h₁ h₂ hbehind he₁ hq
  induction met, q using Registry.structFrom.induct c₁.registry with
  | case1 met q hmet => rw [structFrom_of_mem hmet, structFrom_of_mem hmet]
  | case2 met q hmet hget =>
    obtain ⟨u, -, hu, hd, -⟩ := hq
    obtain ⟨e, he⟩ := h₁.exists_get? hu hd
    simp [hget] at he
  | case3 met q hmet e he ps hps =>
    obtain ⟨e₂, he₂, hb, -⟩ := hagree he hq
    obtain ⟨ps₂, hps₂, hmap⟩ := Aspect.exists_eq_struct (hps ▸ hb)
    rw [structFrom_of_get? hmet he, structFrom_of_get? hmet he₂, hps, hps₂]
    simpa using hmap
  | case4 met q hmet e he ms hms =>
    obtain ⟨e₂, he₂, hb, -⟩ := hagree he hq
    obtain ⟨ms₂, hms₂⟩ := Aspect.exists_eq_interface (hms ▸ hb)
    rw [structFrom_of_get? hmet he, structFrom_of_get? hmet he₂, hms, hms₂]
  | case5 met q hmet e he t ht next hnext ih =>
    obtain ⟨e₂, he₂, hb, u, hu, hborn⟩ := hagree he hq
    obtain ⟨t₂, ht₂, hd⟩ := Aspect.exists_eq_aliasOf (ht ▸ hb)
    have hnext₂ : t₂.shape = .named next := (Aspect.shape_named_iff hd).1 hnext
    rw [structFrom_of_get? hmet he, structFrom_of_get? hmet he₂, ht, ht₂]
    simp only [hnext, hnext₂]
    -- The next name belongs to a type that is behind the id too, and not being expanded.
    obtain ⟨v, huv, hv⟩ := Born.behind (steps_layer hdistinct k) (ht ▸ hborn) hnext
    exact ih (hbehind.doneBehind hdistinct ⟨v, hu.trans huv, hv⟩ (h₁.refersIn_named he ht hnext)
      (h₂.refersIn_named he₂ ht₂ hnext₂))
  | case6 met q hmet e he t ht hnext =>
    obtain ⟨e₂, he₂, hb, -⟩ := hagree he hq
    obtain ⟨t₂, ht₂, hd⟩ := Aspect.exists_eq_aliasOf (ht ▸ hb)
    have hnext₂ (next : QName) : t₂.shape ≠ .named next :=
      fun hn => hnext next ((Aspect.shape_named_iff hd).2 hn)
    rw [structFrom_of_get? hmet he, structFrom_of_get? hmet he₂, ht, ht₂]
    simp

/-- What is promised behind equal answers is equal. -/
theorem alike_of_descriptor_eq (hdistinct : r.project.Distinct) (h : r.Agrees a k)
    (h₁ : r.Inv (r.layer (k + 1)) c₁) (h₂ : r.Inv (r.layer (k + 1)) c₂)
    (hbehind : r.SettledBehind a k i c₁ c₂) (hd₁ : r.Replies i d₁ c₁)
    (hd₂ : r.Replies i d₂ c₂) (hd : a.descriptor d₁ = a.descriptor d₂) :
    a.Alike c₁.registry c₂.registry d₁ d₂ := by
  have hdone {q : QName} (hq : d₁.shape = .named q) : r.DoneBehind i c₁.registry c₂.registry q := by
    have hq₂ := (Aspect.shape_named_iff hd).1 hq
    exact hbehind.doneBehind hdistinct (hd₁.behind q hq) (hq ▸ hd₁.refers.shape)
      (hq₂ ▸ hd₂.refers.shape)
  constructor
  · unfold Registry.promotedBy
    split
    · next ps h₁ =>
      obtain ⟨qs, h₂, hmap⟩ := Aspect.properties_of_shape_object hd h₁
      simp [h₂, hmap]
    · next q hq =>
      simp only [(Aspect.shape_named_iff hd).1 hq]
      exact map_structFrom_eq hdistinct h h₁ h₂ hbehind [] q (hdone hq)
    · next hobject hnamed =>
      split
      · next qs hq =>
        obtain ⟨ps, hp, -⟩ := Aspect.properties_of_shape_object hd.symm hq
        exact absurd hp (hobject ps)
      · next q hq => exact absurd ((Aspect.shape_named_iff hd).2 hq) (hnamed q)
      · rfl
  · rintro rfl
    refine ⟨hd, fun q hq => ?_⟩
    obtain ⟨u, hu, huq, hdone₁, hdone₂⟩ := hdone hq
    obtain ⟨e₁, e₂, he₁, he₂, -, hb⟩ :=
      h.exists_get? (hbehind u hu).1 h₁ h₂ huq hdone₁ hdone₂
    simpa [Registry.body?, he₁, he₂] using hb

/-! ## The induction -/

/-- A type without a name that is not being expanded is expanded. -/
theorem run_resolveType_of_unnamed (ho : r.Opens c.direction i decl) (hname : decl.qname? = none)
    (hmem : i ∉ c.processing) :
    (r.resolveType (n + 1) i).run c = (r.expand (r.resolveType n) i decl).run c := by
  rw [resolveType, run_meet_of_unnamed ho hname, if_neg hmem]

theorem Aspect.descriptor_inlined {b₁ b₂ : Body} (h : a.body b₁ = a.body b₂) :
    a.descriptor b₁.inlined = a.descriptor b₂.inlined := by
  cases b₁ with
  | struct ps =>
    obtain ⟨qs, rfl, hmap⟩ := Aspect.exists_eq_struct h
    cases a with
    | whole => simpa [Body.inlined] using hmap
    | outline => simp [Body.inlined, Aspect.descriptor, hmap]
  | interface ms =>
    obtain ⟨ms', rfl⟩ := Aspect.exists_eq_interface h
    cases a with
    | whole => rw [show ms = ms' by simpa using h]
    | outline => cases ms <;> cases ms' <;> rfl
  | aliasOf t =>
    obtain ⟨u, rfl, hd⟩ := Aspect.exists_eq_aliasOf h
    exact hd

/-- An unnamed type is expanded in place, where it is visited for the first time. -/
theorem exists_site_of_unnamed (hI : r.Steps I) (hc : r.Inv I c) (hu : r.Underway n i c)
    (ho : r.Opens c.direction i decl) (hname : decl.qname? = none) (hmem : i ∉ c.processing) :
    ∃ m, r.Site I m i decl (c.inside i) ∧ (r.resolveType n i).run c =
      (((r.body (r.resolveType m) i decl.kind).run (c.inside i)).1.inlined,
        c.outside ((r.body (r.resolveType m) i decl.kind).run (c.inside i)).2) := by
  obtain _ | m := n
  · have hd : (r.project.type? i).isSome := by simp [ho.declared]
    exact absurd (mem_processing_of_no_room hc.grounded hu hd) hmem
  · have hsite := Site.inside hc hu ho hmem
    obtain ⟨-, hle, -⟩ :=
      keeps_site_body (keeps_of_steps hI m) _ hsite.inv ⟨hsite, by simp [Chain.inside]⟩
    refine ⟨m, hsite, ?_⟩
    rw [run_resolveType_of_unnamed ho hname hmem, run_expand_of_unnamed hname hle]

/-- What a steady type mentions gets the same answer wherever it is resolved. -/
theorem twin_mention (n₁ n₂ : Nat) (hdistinct : r.project.Distinct) (h : r.Agrees a k)
    (hs : r.SteadyAt a (k + 1) id) {dir : Direction} (ho : r.Opens dir id decl)
    (hi : i ∈ r.mentions a id decl.kind) :
    (r.lawOf (r.layer (k + 1))).Twin (r.Site (r.layer (k + 1)) n₁ id decl)
      (r.Site (r.layer (k + 1)) n₂ id decl) (r.resolveType n₁ i) (r.resolveType n₂ i)
      fun d₁ d₂ c₁ c₂ => a.descriptor d₁ = a.descriptor d₂ ∧
        (r.Replies i d₁ c₁ ∧ r.Site (r.layer (k + 1)) n₁ id decl c₁) ∧
          r.Replies i d₂ c₂ ∧ r.Site (r.layer (k + 1)) n₂ id decl c₂ := by
  have hvisit := mentions_subset_visits a id decl.kind hi
  have hkeeps (n : Nat) : (r.lawOf (r.layer (k + 1))).Keeps (r.Site (r.layer (k + 1)) n id decl)
      (r.resolveType n i) fun d c => r.Replies i d c ∧ r.Site (r.layer (k + 1)) n id decl c :=
    ((keeps_of_steps (steps_layer hdistinct (k + 1)) n i).under stable_site).mono
      (fun c hs => ⟨hs.underway.visit hs.opens hvisit, hs⟩) fun _ _ _ h => h
  intro c₁ c₂ hc₁ hc₂ hsite₁ hsite₂
  obtain ⟨hc₁', hle₁, hd₁, hsite₁'⟩ := hkeeps n₁ c₁ hc₁ hsite₁
  obtain ⟨hc₂', hle₂, hd₂, hsite₂'⟩ := hkeeps n₂ c₂ hc₂ hsite₂
  refine ⟨⟨hc₁', hle₁⟩, ⟨hc₂', hle₂⟩, ?_, ⟨hd₁, hsite₁'⟩, hd₂, hsite₂'⟩
  have heven := hs.2.1 dir decl ho i hi
  cases hanswer : r.answer? c₁.direction i with
  | some d =>
    rw [hd₁.answer d (hle₁.direction ▸ hanswer),
      hd₂.answer d (hle₂.direction ▸ heven.answer?_eq c₁.direction c₂.direction ▸ hanswer)]
  | none =>
    obtain ⟨decl', ho', hname⟩ := exists_opens_of_answer?_eq_none hanswer
    obtain ⟨hleads, hsi⟩ := hs.2.2 i ⟨dir, decl, ho, .inl ⟨hi, decl', ho'.declared, hname⟩⟩
    obtain ⟨m₁, hin₁, heq₁⟩ := exists_site_of_unnamed (steps_layer hdistinct (k + 1)) hc₁
      (hsite₁.underway.visit hsite₁.opens hvisit) ho' hname
      fun hmem => hleads (hsite₁.underway.path i hmem)
    obtain ⟨m₂, hin₂, heq₂⟩ := exists_site_of_unnamed (steps_layer hdistinct (k + 1)) hc₂
      (hsite₂.underway.visit hsite₂.opens hvisit) (heven.opens ho' _) hname
      fun hmem => hleads (hsite₂.underway.path i hmem)
    rw [heq₁, heq₂]
    exact Aspect.descriptor_inlined (h hsi (hin₁.mono fun _ h => h.1) (hin₂.mono fun _ h => h.1))

/-- Steady types have one body, as far as their aspect shows. -/
theorem agrees (hdistinct : r.project.Distinct) (a : Aspect) (k : Nat) : r.Agrees a k := by
  induction k with
  | zero => exact fun _ _ _ _ _ _ hs => hs.elim
  | succ k ih =>
    intro id decl n₁ n₂ c₁ c₂ hs hsite₁ hsite₂
    have hmention {i : TypeId} (hi : i ∈ r.mentions a id decl.kind) :=
      twin_mention n₁ n₂ hdistinct ih hs hsite₁.opens hi
    have hkeeps {i : TypeId} (n : Nat) (hi : i ∈ r.visits id decl.kind) :=
      (keeps_of_steps (steps_layer hdistinct (k + 1)) n i).mono
        (fun c (hs : r.Site (r.layer (k + 1)) n id decl c) => hs.underway.visit hs.opens hi)
        fun _ _ _ h => h
    refine (twin_body stable_site stable_site id decl.kind (fun i hi => ?_) (fun i hi => ?_)
      (fun links hk i hi => ?_) c₁ c₂ hsite₁.inv hsite₂.inv hsite₁ hsite₂).2.2
    · cases a with
      | whole => exact (hmention hi).weaken fun _ _ _ _ _ _ h _ => h.1
      | outline => exact .of_keeps (hkeeps n₁ hi) (hkeeps n₂ hi) fun _ _ _ _ _ _ _ _ h => nomatch h
    · refine (hmention (reads_subset_mentions a id decl.kind hi)).weaken
        fun d₁ d₂ c₁ c₂ hc₁ hc₂ ⟨hd, ⟨hd₁, hs₁⟩, hd₂, hs₂⟩ => ?_
      refine alike_of_descriptor_eq hdistinct ih hc₁ hc₂ (fun u hu => ?_) hd₁ hd₂ hd
      obtain ⟨hleads, hsu⟩ := hs.2.2 u ⟨_, decl, hsite₁.opens, .inr ⟨i, hi, hu⟩⟩
      exact ⟨hsu, fun hmem => hleads (hs₁.underway.path u hmem),
        fun hmem => hleads (hs₂.underway.path u hmem)⟩
    · refine (hmention ?_).weaken fun _ _ _ _ _ _ h => h.1
      cases a with
      | whole => simpa [mentions, visits, hk] using hi
      | outline => simpa [mentions, hk] using hi

end Resolver

end ClientTypes

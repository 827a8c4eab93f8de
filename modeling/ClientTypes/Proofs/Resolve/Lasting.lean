import ClientTypes.Proofs.Resolve.Exhaust

/-!
# Definitions that last

Resolution in a direction touches the definition of a name only where it comes to the type of that
name. There it changes nothing if the type is settled in the direction; nor does it if no body that
the type may have in the direction knows more than the definition does.

## Main definitions

* `Resolver.Withstands` — a definition that no body of its type in a direction replaces
* `Resolver.Spares` — resolution of an id has no business with a definition

The main statement is `keeps_get?`.
-/

namespace ClientTypes

namespace Resolver

variable {r : Resolver} {I : Registry → Prop} {dir : Direction} {reg : Registry}
  {id u : TypeId} {decl : TypeDecl} {name q : QName} {x : Option Definition} {n : Nat}

/-- The definition of a type stays whatever becomes of the type in a direction: it is opaque if the
type hides, and no body of the type is opaque or more complete. -/
structure Withstands (r : Resolver) (I : Registry → Prop) (dir : Direction) (id : TypeId)
    (e : Definition) : Prop where
  hidden : ∀ decl, r.Hides dir id decl → e.isOpaque
  born : ∀ n decl c, r.Site I n id decl c → c.direction = dir →
    e.isOpaque ∨ (((r.body (r.resolveType n) id decl.kind).run c).1.isOpaque = false ∧
      ((r.body (r.resolveType n) id decl.kind).run c).1.completeness ≤ e.completeness)

/-- Resolution of an id in a direction does not come to a type, or finds it settled or with a
definition that stays. -/
def Spares (r : Resolver) (I : Registry → Prop) (dir : Direction) (id u : TypeId)
    (x : Option Definition) (reg : Registry) : Prop :=
  r.LeadsIn dir id u → r.Settled dir reg u ∨ ∃ e, x = some e ∧ r.Withstands I dir u e

/-- The direction of a chain, and what it has under a name. -/
def Holding (dir : Direction) (q : QName) (x : Option Definition) (c : Chain) : Prop :=
  c.direction = dir ∧ c.registry.get? q = x

theorem Spares.of_extends {reg' : Registry} (h : r.Spares I dir id u x reg)
    (hreg : reg.Extends reg') : r.Spares I dir id u x reg' :=
  fun hlead => (h hlead).imp_left fun hs => hs.of_extends hreg

theorem Spares.visit (h : r.Spares I dir id u x reg) (ho : r.Opens dir id decl) {i : TypeId}
    (hi : i ∈ r.visits id decl.kind) : r.Spares I dir i u x reg :=
  fun hlead => h (.head ⟨decl, ho, hi⟩ hlead)

variable (hdistinct : r.project.Distinct) (hq : r.project.Names u q)

include hdistinct hq

/-- What is offered for another type goes by another name. -/
theorem ne_of_names (hd : r.project.type? id = some decl) (hname : decl.qname? = some name)
    (hid : id ≠ u) : q ≠ name := by
  rintro rfl
  exact hid (hdistinct _ _ _ ⟨decl, hd, hname⟩ hq)

theorem holding_hide : (Chain.law (Holding dir q x)).Keeps
    (fun c => r.Spares I dir id u x c.registry ∧ r.Hides c.direction id decl) (hide id decl)
    fun _ _ => True := by
  rintro c ⟨rfl, rfl⟩ ⟨hspares, hh⟩
  cases hname : decl.qname? with
  | none =>
    rw [hide_of_unnamed hname]
    exact ⟨⟨rfl, rfl⟩, .refl c, trivial⟩
  | some name =>
    rw [run_hide_of_named hname]
    have hext := Chain.extends_register (definition id decl name (.aliasOf .bareOpaque)) c
    refine ⟨⟨hext.direction, ?_⟩, hext, trivial⟩
    rw [Chain.registry_register]
    by_cases hid : id = u
    · subst hid
      obtain ⟨e, he, hop⟩ : ∃ e, c.registry.get? q = some e ∧ e.isOpaque := by
        rcases hspares .refl with hs | ⟨e, he, hw⟩
        · exact hs.hidden hh (hq.qname?_eq hh.declared)
        · exact ⟨e, he, hw.hidden _ hh⟩
      rw [Registry.get?_merge_of_isOpaque he hop, he]
    · exact Registry.get?_merge_of_ne (ne_of_names hdistinct hq hh.declared hname hid)

theorem holding_referBack (hname : decl.qname? = some name) :
    (Chain.law (Holding dir q x)).Keeps (fun c => r.Inv I c ∧ r.Spares I dir id u x c.registry ∧
      r.Opens c.direction id decl) (referBack id decl name) fun _ _ => True := by
  rintro c ⟨rfl, rfl⟩ ⟨hinv, hspares, ho⟩
  rw [run_referBack]
  split
  · next stub hstub =>
    have hext := Chain.extends_register (definition id decl name stub) c
    refine ⟨⟨hext.direction, ?_⟩, hext, trivial⟩
    rw [Chain.registry_register]
    by_cases hid : id = u
    · subst hid
      refine get?_merge_of_stub hstub ?_ q
      obtain rfl : name = q := Option.some.inj (hname.symm.trans (hq.qname?_eq ho.declared))
      rcases hspares .refl with hs | ⟨e, he, -⟩
      · exact hinv.closed.closed.defined (hs.expanded ho hname) hq
      · exact Option.isSome_iff_exists.2 ⟨e, he⟩
    · exact Registry.get?_merge_of_ne (ne_of_names hdistinct hq ho.declared hname hid)
  · have hext := Chain.extends_note name c
    exact ⟨⟨hext.direction, by simp⟩, hext, trivial⟩

theorem holding_meet {expansion : TypeId → TypeDecl → Resolving Descriptor}
    (h : ∀ decl, (Chain.law (Holding dir q x)).Keeps
      (fun c => (r.Inv I c ∧ r.Underway n id c ∧ r.Spares I dir id u x c.registry) ∧
        r.Opens c.direction id decl ∧ id ∉ c.processing ∧
          (decl.qname? ≠ none → (id, c.direction) ∉ c.registry.expanded))
      (expansion id decl) fun _ _ => True) :
    (Chain.law (Holding dir q x)).Keeps
      (fun c => r.Inv I c ∧ r.Underway n id c ∧ r.Spares I dir id u x c.registry)
      (r.meet expansion id) fun _ _ => True := by
  refine .meet (fun _ _ _ _ => trivial) (fun _ _ _ _ _ _ _ => trivial)
    (fun decl => (holding_hide hdistinct hq).mono (fun c hp => ⟨hp.1.2.2, hp.2⟩)
      fun _ _ _ h => h)
    (fun decl name hname => (holding_referBack hdistinct hq hname).mono
      (fun c hp => ⟨hp.1.1, hp.1.2.2, hp.2.1⟩) fun _ _ _ h => h)
    (fun decl name _ => ?_) (fun _ _ _ _ _ _ _ => trivial) h
  rintro c ⟨hdir, hget⟩ -
  have hext := Chain.extends_note name c
  have hreg : ((Chain.refer name).run c).2.registry = c.registry := Chain.registry_note name c
  exact ⟨⟨hext.direction.trans hdir, hreg ▸ hget⟩, hext, trivial⟩

theorem holding_expand
    (h : ∀ i, (r.lawWith I (Holding dir q x)).Keeps
      (fun c => r.Underway n i c ∧ r.Spares I dir i u x c.registry) (r.resolveType n i)
      fun _ _ => True) :
    (Chain.law (Holding dir q x)).Keeps
      (fun c => (r.Inv I c ∧ r.Underway (n + 1) id c ∧ r.Spares I dir id u x c.registry) ∧
        r.Opens c.direction id decl ∧ id ∉ c.processing ∧
          (decl.qname? ≠ none → (id, c.direction) ∉ c.registry.expanded))
      (r.expand (r.resolveType n) id decl) fun _ _ => True := by
  have hbody : (r.lawWith I (Holding dir q x)).Keeps
      (fun c => r.Site I n id decl c ∧ r.Spares I dir id u x c.registry)
      (r.body (r.resolveType n) id decl.kind)
      fun b _ => ∃ c, r.Site I n id decl c ∧ c.direction = dir ∧
        b = ((r.body (r.resolveType n) id decl.kind).run c).1 := by
    have hstable : (r.lawWith I (Holding dir q x)).Stable
        fun c => r.Site I n id decl c ∧ r.Spares I dir id u x c.registry :=
      stable_site_lawWith.and fun _ _ _ hle hs => hs.of_extends hle.registry
    have hmarks : (r.lawWith I (Holding dir q x)).Marks
        (fun c => r.Site I n id decl c ∧ r.Spares I dir id u x c.registry) (fun _ _ => True)
        (r.body (r.resolveType n) id decl.kind) (r.visits id decl.kind) := by
      refine marks_body hstable (fun _ => Law.stable_const True) id decl.kind fun i hi => ?_
      intro c hc ⟨hs, hspares⟩
      have ho : r.Opens dir id decl := hc.2.1 ▸ hs.opens
      obtain ⟨hc', hle, -⟩ := h i c hc ⟨hs.underway.visit hs.opens hi, hspares.visit ho hi⟩
      exact ⟨hc', hle, fun _ _ => trivial⟩
    intro c hc hp
    obtain ⟨hc', hle, -⟩ := hmarks c hc hp
    exact ⟨hc', hle, c, hp.1, hc.2.1, rfl⟩
  refine .expand hbody (fun hname c hc hp => ?_) fun name hname c hc hp => ?_
  all_goals obtain ⟨⟨hinv, hu, hspares⟩, ho, hmem, hexp⟩ := hp
  · have hsite := Site.inside hinv hu ho hmem
    exact ⟨⟨hsite.inv, hc⟩, ⟨hsite, hspares⟩, fun b c' hc' hle _ => ⟨⟨hc'.2.1, hc'.2.2⟩, trivial⟩⟩
  · have hsite := Site.enter hinv hu ho hmem name.ns
    refine ⟨⟨hsite.inv, hc⟩, ⟨hsite, hspares⟩, ?_⟩
    rintro b c' ⟨-, hdir, hget⟩ hle ⟨c₀, hsite₀, hdir₀, rfl⟩
    have hext := Chain.extends_complete (definition id decl name
      ((r.body (r.resolveType n) id decl.kind).run c₀).1) (c.leave c')
    refine ⟨⟨hext.direction.trans hdir, ?_⟩, trivial⟩
    rw [Chain.registry_complete, Registry.get?_markExpanded, ← hget]
    by_cases hid : id = u
    · subst hid
      obtain rfl : name = q := Option.some.inj (hname.symm.trans (hq.qname?_eq ho.declared))
      rcases hspares .refl with hs | ⟨e, rfl, hw⟩
      · -- A settled type is not expanded again.
        have hdone := hs.expanded (hc.1 ▸ ho) hname
        rw [← hc.1] at hdone
        exact absurd hdone (hexp (by simp [hname]))
      · have hkept : c'.registry.outcome (definition id decl name
            ((r.body (r.resolveType n) id decl.kind).run c₀).1) = .kept :=
          Registry.outcome_kept_iff.2 ⟨e, hget, hw.born n decl c₀ hsite₀ hdir₀⟩
        exact congrArg (·.get? name) (Registry.merge_of_kept hkept)
    · exact Registry.get?_merge_of_ne (ne_of_names hdistinct hq ho.declared hname hid)

/-- Resolution leaves the definitions alone that it has no business with. -/
theorem keeps_get? (hI : r.Steps I) (n : Nat) (id : TypeId) :
    (r.lawWith I (Holding dir q x)).Keeps
      (fun c => r.Underway n id c ∧ r.Spares I dir id u x c.registry) (r.resolveType n id)
      fun _ _ => True :=
  keeps_resolveType hI (fun id c => r.Spares I dir id u x c.registry) (fun _ _ _ => True)
    (fun _ _ _ h => holding_meet hdistinct hq h) (fun _ _ _ h => holding_expand hdistinct hq h) n id

end Resolver

end ClientTypes

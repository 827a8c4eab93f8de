import ClientTypes.Proofs.Resolve.Agreement
import ClientTypes.Proofs.Resolve.Anchor
import ClientTypes.Proofs.Resolve.Lasting
import ClientTypes.Proofs.Resolve.Repeat

/-!
# The surface of an answer

The answer for a type shows the unnamed types that resolution comes to before it comes to a named
one. They are built anew for every request, and where they promote, embed or travel as text, they
read the definitions of the named types behind. When they read, these types are settled, since none
but unnamed types is being expanded outside of them. So another request of the same direction finds
the same, as long as the definitions that have been read are the same.

## Main definitions

* `Resolver.ShowsIn` — a path of visits by unnamed types
* `Resolver.Borrows` — the types that may be read on the surface
* `Resolver.lastingLaw` — resolution leaves settled types alone

The main statements are `endures_resolveType` and `repeats_resolveType`.
-/

namespace ClientTypes

namespace Resolver

open Registry (structFrom_of_mem structFrom_of_get? structFrom_of_get?_none)

variable {r : Resolver} {Q : TypeId → Prop} {dir : Direction} {id root u : TypeId}
  {decl : TypeDecl} {q : QName} {c c' : Chain} {d : Descriptor} {n : Nat}

/-! ## The types on the surface -/

/-- A type without a name visits another one in a direction. -/
def Unfolds (r : Resolver) (dir : Direction) (id i : TypeId) : Prop :=
  ∃ decl, r.Opens dir id decl ∧ decl.qname? = none ∧ i ∈ r.visits id decl.kind

/-- The answer for a type shows another one: a path of visits by types without names. -/
def ShowsIn (r : Resolver) (dir : Direction) : TypeId → TypeId → Prop :=
  Relation.ReflTransGen (r.Unfolds dir)

/-- The answer for a type takes something from the definition of another one: that type lies behind
one which a type on the surface looks behind. -/
def Borrows (r : Resolver) (dir : Direction) (root u : TypeId) : Prop :=
  ∃ id decl j, r.ShowsIn dir root id ∧ r.Opens dir id decl ∧ decl.qname? = none ∧
    j ∈ r.reads .whole decl.kind ∧ r.Behind j u

/-- None of the types that are being expanded has a name. -/
def Surfaced (r : Resolver) (c : Chain) : Prop := ∀ p ∈ c.processing, r.Unnamed p

theorem Unnamed.not_names (h : r.Unnamed id) (hq : r.project.Names id q) : False := by
  obtain ⟨decl, hd, hname⟩ := h
  rw [hq.qname?_eq hd] at hname
  cases hname

theorem Surfaced.inside (h : r.Surfaced c) (hid : r.Unnamed id) : r.Surfaced (c.inside id) := by
  intro p hp
  rcases List.mem_cons.1 hp with rfl | hp
  · exact hid
  · exact h p hp

/-! ## Settled types are left alone -/

/-- The law of resolution by which settled types keep their definitions. -/
def lastingLaw (r : Resolver) : Law Chain where
  inv c := r.Inv r.Leaning c ∧ r.Anchored c
  le c c' := c.Extends c' ∧ ∀ u q, r.project.Names u q → r.Settled c.direction c.registry u →
    c'.registry.get? q = c.registry.get? q
  refl c := ⟨.refl c, fun _ _ _ _ => rfl⟩
  trans := by
    rintro c c' c'' ⟨hext, hsame⟩ ⟨hext', hsame'⟩
    refine ⟨hext.trans hext', fun u q hq hs => ?_⟩
    have hs' : r.Settled c'.direction c'.registry u := by
      rw [hext.direction]
      exact hs.of_extends hext.registry
    rw [hsame' u q hq hs', hsame u q hq hs]

theorem later_of_le (h : r.lastingLaw.le c c') : r.Later Q c c' :=
  ⟨h.1.direction, h.1.processing, h.1.registry, fun u q _ => h.2 u q⟩

theorem keeps_lasting (hdistinct : r.project.Distinct) (n : Nat) (id : TypeId) :
    r.lastingLaw.Keeps (r.Underway n id) (r.resolveType n id) (r.AnchoredBy id) := by
  intro c hc hu
  obtain ⟨hc', hext, hby⟩ := keeps_anchored r.steps_leaning n id c hc hu
  refine ⟨hc', ⟨hext, fun u q hq hs => ?_⟩, hby⟩
  obtain ⟨⟨-, -, hget⟩, -⟩ :=
    keeps_get? hdistinct hq r.steps_leaning n id c ⟨hc.1, rfl, rfl⟩ ⟨hu, fun _ => .inl hs⟩
  exact hget

/-! ## What lies behind an answer -/

/-- The name belongs to a settled type behind the id. -/
def HoldsBehind (r : Resolver) (id : TypeId) (c : Chain) (q : QName) : Prop :=
  ∃ u, r.Behind id u ∧ r.project.Names u q ∧ r.Settled c.direction c.registry u

/-- A name that is answered on the surface belongs to such a type. -/
theorem holdsBehind_of_named (hstands : r.Stands id d) (hby : r.AnchoredBy id d c)
    (hsurf : r.Surfaced c) (hq : d.shape = .named q) : r.HoldsBehind id c q := by
  obtain ⟨last, hlast, hnames⟩ := hstands q hq
  refine ⟨last, hlast.behind, hnames, ?_⟩
  rcases hby last hlast with hop | hmem | hs
  · rw [hq] at hop
    cases hop
  · exact ((hsurf last hmem).not_names hnames).elim
  · exact hs

/-- An alias of a name that is settled leans on a settled type, which has that name. -/
theorem HoldsBehind.next (hdistinct : r.project.Distinct) (hc : r.lastingLaw.inv c)
    (hsurf : r.Surfaced c) (h : r.HoldsBehind id c q) {e : Definition}
    (he : c.registry.get? q = some e) {t : Descriptor} (ht : e.body = .aliasOf t) {next : QName}
    (hnext : t.shape = .named next) : r.HoldsBehind id c next := by
  obtain ⟨u, hu, hq, hs⟩ := h
  obtain ⟨last, hlast, hnames⟩ :=
    hc.1.registry e (Registry.mem_of_get? he) t next ht hnext
  rw [hc.1.grounded.typeId_eq hdistinct he hq] at hlast
  have hplain : ¬ ∃ e, c.registry.get? q = some e ∧ e.isOpaque := by
    rintro ⟨e', he', hop⟩
    obtain rfl : e' = e := Option.some.inj (he'.symm.trans he)
    rw [Definition.isOpaque, ht, Body.isOpaque, hnext] at hop
    cases hop
  -- It opens in this direction too, since it is not opaque.
  have hexp : (u, c.direction) ∈ c.registry.expanded := by
    obtain ⟨dir, decl, links, link, ho, -⟩ := hlast
    have hname := hq.qname?_eq ho.declared
    cases hcase : c.direction.isOverriddenBy decl.capabilities || decl.kind.isFormless with
    | true =>
      exact absurd (hs.hidden ⟨ho.declared, ho.unsubstituted, hcase⟩ hname) hplain
    | false => exact hs.expanded ⟨ho.declared, ho.unsubstituted, hcase⟩ hname
  refine ⟨last, hu.trans hlast.behind, hnames, ?_⟩
  rcases hc.2 u c.direction q last hexp hq hlast with hop | hmem | hs
  · exact absurd hop hplain
  · rw [pending, if_pos rfl] at hmem
    exact ((hsurf last hmem).not_names hnames).elim
  · exact hs

/-- The struct behind such a name is the same in later chains. -/
theorem structFrom_of_later (hdistinct : r.project.Distinct) (hc : r.lastingLaw.inv c)
    (hsurf : r.Surfaced c) (hQ : ∀ u, r.Behind id u → Q u) (hc' : r.Later Q c c')
    (met : List QName) (q : QName) (hq : r.HoldsBehind id c q) :
    c'.registry.structFrom met q = c.registry.structFrom met q := by
  have hsame {q : QName} (hq : r.HoldsBehind id c q) : c'.registry.get? q = c.registry.get? q := by
    obtain ⟨u, hu, hnames, hs⟩ := hq
    exact hc'.same u q (hQ u hu) hnames hs
  induction met, q using Registry.structFrom.induct c.registry with
  | case1 met q hmet => rw [structFrom_of_mem hmet, structFrom_of_mem hmet]
  | case2 met q hmet hget =>
    rw [structFrom_of_get?_none hmet hget, structFrom_of_get?_none hmet ((hsame hq).trans hget)]
  | case3 met q hmet e he ps hps =>
    rw [structFrom_of_get? hmet he, structFrom_of_get? hmet ((hsame hq).trans he), hps]
  | case4 met q hmet e he ms hms =>
    rw [structFrom_of_get? hmet he, structFrom_of_get? hmet ((hsame hq).trans he), hms]
  | case5 met q hmet e he t ht next hnext ih =>
    rw [structFrom_of_get? hmet he, structFrom_of_get? hmet ((hsame hq).trans he), ht]
    simp only [hnext]
    exact ih (hq.next hdistinct hc hsurf he ht hnext)
  | case6 met q hmet e he t ht hnext =>
    rw [structFrom_of_get? hmet he, structFrom_of_get? hmet ((hsame hq).trans he), ht]
    simp

/-- Where an answer is given on the surface, what lies behind it is the same in later chains. -/
theorem endures_resolveType (hdistinct : r.project.Distinct) (hQ : ∀ u, r.Behind id u → Q u) :
    r.lastingLaw.Endures r Q (fun c => r.Underway n id c ∧ r.Surfaced c) (r.resolveType n id) := by
  rintro c hc ⟨hu, hsurf⟩
  obtain ⟨hc', hle, hby⟩ := keeps_lasting hdistinct n id c hc hu
  have hstands : r.Stands id ((r.resolveType n id).run c).1 := stands_resolveType n id c
  refine ⟨hc', hle, ?_⟩
  generalize ((r.resolveType n id).run c).1 = d at hby hstands ⊢
  generalize ((r.resolveType n id).run c).2 = c₁ at hc' hle hby ⊢
  intro c₂ hc₂
  have hsurf' : r.Surfaced c₁ := by
    intro p hp
    rw [hle.1.processing] at hp
    exact hsurf p hp
  have hbehind {q : QName} (hq : d.shape = .named q) : r.HoldsBehind id c₁ q :=
    holdsBehind_of_named hstands hby hsurf' hq
  constructor
  · simp only [Aspect.property_whole, List.map_id_fun, Option.map_id_fun, id_eq]
    unfold Registry.promotedBy
    split
    · rfl
    · next q hq =>
      exact (structFrom_of_later hdistinct hc' hsurf' hQ hc₂ [] q (hbehind hq)).symm
    · rfl
  · refine fun _ => ⟨rfl, fun q hq => ?_⟩
    obtain ⟨u, hu, hnames, hs⟩ := hbehind hq
    simp only [Registry.body?, hc₂.same u q (hQ u hu) hnames hs]

/-! ## Answers on the surface -/

/-- A chain on the surface that has come to a type from a root in a direction. -/
structure Surfacing (r : Resolver) (dir : Direction) (root : TypeId) (n : Nat) (id : TypeId)
    (c : Chain) : Prop where
  direction : c.direction = dir
  underway : r.Underway n id c
  surfaced : r.Surfaced c
  shows : r.ShowsIn dir root id

/-- A type that hides is opaque since the first time, so that a second offer is not taken. -/
theorem recalls_hide (hc' : r.Later Q ((hide id decl).run c).2 c') :
    Chain.Recalls (hide id decl) ((hide id decl).run c).1 c' := by
  cases hname : decl.qname? with
  | none =>
    rw [hide_of_unnamed hname]
    exact ⟨rfl, .refl c'⟩
  | some name =>
    rw [run_hide_of_named hname] at hc'
    rw [Chain.Recalls, run_hide_of_named hname, run_hide_of_named hname]
    refine ⟨rfl, Chain.extends_register _ c', ?_⟩
    obtain ⟨e, he, hop⟩ := Registry.exists_isOpaque_get?_merge (r := c.registry)
      (d := definition id decl name (.aliasOf .bareOpaque)) rfl
    have hreg := hc'.registry
    rw [Chain.registry_register] at hreg ⊢
    exact Registry.merge_of_kept
      (Registry.outcome_kept_iff.2 ⟨e, hreg.isOpaque he hop, .inl hop⟩)

/-- A named type has been expanded since the first time, so that it is referred to. -/
theorem recalls_expand_of_named (hc : r.lastingLaw.inv c) (hs : r.Surfacing dir root (n + 1) id c)
    (ho : r.Opens c.direction id decl) (hmem : id ∉ c.processing) (hname : decl.qname? = some q)
    (hc' : r.Later Q ((r.expand (r.resolveType n) id decl).run c).2 c') :
    Chain.Recalls (r.resolveType (n + 1) id) ((r.expand (r.resolveType n) id decl).run c).1 c' := by
  have hsite := Site.enter hc.1 hs.underway ho hmem q.ns
  obtain ⟨-, hle, -⟩ := keeps_site_body (keeps_of_steps r.steps_leaning n) _ hsite.inv
    ⟨hsite, by simp [Chain.enter]⟩
  rw [run_expand_of_named hname hle] at hc' ⊢
  generalize ((r.body (r.resolveType n) id decl.kind).run (c.enter id q.ns)).1 = b at hc' ⊢
  generalize ((r.body (r.resolveType n) id decl.kind).run (c.enter id q.ns)).2 = c₁ at hle hc'
  have hext := Chain.extends_complete (definition id decl q b) (c.leave c₁)
  have hdir : c'.direction = c.direction :=
    hc'.direction.trans (hext.direction.trans hle.direction)
  have hexp : (id, c'.direction) ∈ c'.registry.expanded := by
    rw [hc'.direction, hext.direction]
    exact hc'.registry.expanded (Chain.mem_expanded_complete _ _)
  have hmem' : id ∉ c'.processing := by
    rw [hc'.processing, hext.processing]
    exact hmem
  have hrun : (r.resolveType (n + 1) id).run c' = (.named q, c'.note q) :=
    run_meet_of_expanded (hdir ▸ ho) hname hmem' hexp
  rw [Chain.Recalls, hrun]
  exact ⟨rfl, Chain.still_note q c'⟩

/-- A type without a name is expanded in place once more, and its visits are answered again. -/
theorem recalls_expand_of_unnamed (hdistinct : r.project.Distinct)
    (h : ∀ i, r.lastingLaw.Repeats r (r.Borrows dir root) (r.Surfacing dir root n i)
      (r.resolveType n i))
    (hc : r.lastingLaw.inv c) (hs : r.Surfacing dir root (n + 1) id c)
    (ho : r.Opens c.direction id decl) (hmem : id ∉ c.processing) (hname : decl.qname? = none)
    (hc' : r.Later (r.Borrows dir root) ((r.expand (r.resolveType n) id decl).run c).2 c') :
    Chain.Recalls (r.resolveType (n + 1) id) ((r.expand (r.resolveType n) id decl).run c).1 c' := by
  have hopens : r.Opens dir id decl := hs.direction ▸ ho
  let pre (c : Chain) : Prop := r.Site r.Leaning n id decl c ∧ c.direction = dir ∧ r.Surfaced c
  have hpre : r.lastingLaw.Stable pre := by
    rintro c c' ht hle ⟨hsite, hdir, hsurf⟩
    refine ⟨stable_site ht.1 hle.1 hsite, hle.1.direction.trans hdir, fun p hp => ?_⟩
    rw [hle.1.processing] at hp
    exact hsurf p hp
  have hbody : r.lastingLaw.Repeats r (r.Borrows dir root) pre
      (r.body (r.resolveType n) id decl.kind) := by
    refine repeats_body (fun _ => later_of_le) hpre id decl.kind (fun i hi => ?_) fun i hi => ?_
    · refine (h i).mono (fun c ⟨hsite, hdir, hsurf⟩ => ?_) fun _ _ _ h => h
      exact ⟨hdir, hsite.underway.visit hsite.opens hi, hsurf,
        hs.shows.tail ⟨decl, hopens, hname, hi⟩⟩
    · refine Law.Keeps.mono (endures_resolveType hdistinct fun u hu =>
        ⟨id, decl, i, hs.shows, hopens, hname, hi, hu⟩) (fun c ⟨hsite, hdir, hsurf⟩ => ?_)
        fun _ _ _ h => h
      exact ⟨hsite.underway.visit hsite.opens (reads_subset_visits .whole id _ hi), hsurf⟩
  have hsite := Site.inside hc.1 hs.underway ho hmem
  have hsurf : r.Surfaced (c.inside id) := hs.surfaced.inside ⟨decl, ho.declared, hname⟩
  obtain ⟨-, hle, hrecall⟩ := hbody _ ⟨hsite.inv, hc.2.push rfl rfl rfl⟩
    ⟨hsite, hs.direction, hsurf⟩
  rw [run_expand_of_unnamed hname hle.1] at hc' ⊢
  generalize ((r.body (r.resolveType n) id decl.kind).run (c.inside id)).1 = b at hrecall ⊢
  generalize ((r.body (r.resolveType n) id decl.kind).run (c.inside id)).2 = c₁ at hle hc' hrecall
  have hdir : c'.direction = c.direction := hc'.direction.trans hle.1.direction
  have hmem' : id ∉ c'.processing := by
    rw [hc'.processing]
    exact hmem
  obtain ⟨hb, hstill⟩ := hrecall (c'.inside id)
    ⟨hc'.direction, by rw [hle.1.processing]; exact congrArg (id :: ·) hc'.processing,
      hc'.registry, hc'.same⟩
  have hrun : (r.resolveType (n + 1) id).run c' = (r.expand (r.resolveType n) id decl).run c' :=
    (run_meet_of_unnamed (hdir ▸ ho) hname).trans (if_neg hmem')
  rw [Chain.Recalls, hrun, run_expand_of_unnamed hname hstill.toExtends, hb]
  exact ⟨rfl, Chain.extends_outside hstill.toExtends, hstill.same⟩

theorem recalls_meet {expansion : TypeId → TypeDecl → Resolving Descriptor}
    (hs : r.Surfacing dir root n id c)
    (h : ∀ decl, r.Opens c.direction id decl → id ∉ c.processing →
      ∀ c', r.Later Q ((expansion id decl).run c).2 c' →
        Chain.Recalls (r.meet expansion id) ((expansion id decl).run c).1 c')
    (hc' : r.Later Q ((r.meet expansion id).run c).2 c') :
    Chain.Recalls (r.meet expansion id) ((r.meet expansion id).run c).1 c' := by
  have hkeeps : anyLaw.Keeps (· = c) (r.meet expansion id) fun d c₁ => ∀ c', r.Later Q c₁ c' →
      Chain.Recalls (r.meet expansion id) d c' := by
    refine .meet (fun hd c₀ _ _ c' _ => ?_) (fun decl s hd hs c₀ _ _ c' _ => ?_) (fun decl => ?_)
      (fun decl name hname => ?_) (fun decl name hname => ?_) (fun decl hname => ?_) fun decl => ?_
    · rw [Chain.Recalls, run_meet_of_missing hd]
      exact ⟨rfl, .refl c'⟩
    · rw [Chain.Recalls, run_meet_of_substituted hd hs]
      exact ⟨rfl, .refl c'⟩
    · rintro c - ⟨rfl, hh⟩
      refine ⟨trivial, trivial, fun c' hc' => ?_⟩
      have hdir : c'.direction = c.direction := by
        cases hname : decl.qname? with
        | none =>
          rw [hide_of_unnamed hname] at hc'
          exact hc'.direction
        | some name =>
          rw [run_hide_of_named hname] at hc'
          exact hc'.direction.trans (Chain.extends_register _ c).direction
      rw [Chain.Recalls, run_meet_of_hides (hdir ▸ hh)]
      exact recalls_hide hc'
    · -- No named type is being expanded.
      rintro c - ⟨rfl, ho, hmem⟩
      exact ((hs.surfaced id hmem).not_names ⟨decl, ho.declared, hname⟩).elim
    · rintro c - ⟨rfl, ho, hmem, hexp⟩
      refine ⟨trivial, trivial, fun c' hc' => ?_⟩
      have hext : c.Extends ((Chain.refer name).run c).2 := Chain.extends_note name c
      have hdir : c'.direction = c.direction := hc'.direction.trans hext.direction
      have hrun : (r.meet expansion id).run c' = (.named name, c'.note name) := by
        refine run_meet_of_expanded (hdir ▸ ho) hname ?_ ?_
        · rw [hc'.processing, hext.processing]
          exact hmem
        · rw [hdir]
          exact hc'.registry.expanded (hext.registry.expanded hexp)
      rw [Chain.Recalls, hrun]
      exact ⟨rfl, Chain.still_note name c'⟩
    · rintro c - rfl ho hmem c' hc'
      rw [Chain.Recalls, run_meet_of_unnamed (hc'.direction ▸ ho) hname, hc'.processing,
        if_pos hmem]
      exact ⟨rfl, .refl c'⟩
    · rintro c - ⟨rfl, ho, hmem, -⟩
      exact ⟨trivial, trivial, h decl ho hmem⟩
  exact (hkeeps c trivial rfl).2.2 c' hc'

/-- An answer on the surface is given again in later chains. -/
theorem repeats_resolveType (hdistinct : r.project.Distinct) (dir : Direction) (root : TypeId)
    (n : Nat) (id : TypeId) :
    r.lastingLaw.Repeats r (r.Borrows dir root) (r.Surfacing dir root n id)
      (r.resolveType n id) := by
  have hrepeats (n : Nat) (id : TypeId)
      (h : ∀ c, r.lastingLaw.inv c → r.Surfacing dir root n id c →
        ∀ c', r.Later (r.Borrows dir root) ((r.resolveType n id).run c).2 c' →
          Chain.Recalls (r.resolveType n id) ((r.resolveType n id).run c).1 c') :
      r.lastingLaw.Repeats r (r.Borrows dir root) (r.Surfacing dir root n id)
        (r.resolveType n id) := by
    intro c hc hs
    obtain ⟨hc', hle, -⟩ := keeps_lasting hdistinct n id c hc hs.underway
    exact ⟨hc', hle, h c hc hs⟩
  induction n generalizing id with
  | zero =>
    refine hrepeats 0 id fun c hc hs c' hc' => recalls_meet hs (fun decl ho hmem => ?_) hc'
    exact absurd (mem_processing_of_no_room hc.1.grounded hs.underway (by simp [ho.declared])) hmem
  | succ n ih =>
    refine hrepeats (n + 1) id fun c hc hs c' hc' =>
      recalls_meet hs (fun decl ho hmem c' hc' => ?_) hc'
    cases hname : decl.qname? with
    | none => exact recalls_expand_of_unnamed hdistinct ih hc hs ho hmem hname hc'
    | some name => exact recalls_expand_of_named hc hs ho hmem hname hc'

end Resolver

end ClientTypes

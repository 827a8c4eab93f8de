import ClientTypes.Proofs.Pass.Covered
import ClientTypes.Proofs.Resolve.Agreement
import ClientTypes.Proofs.Resolve.Precedence

/-!
# Promoted properties

A struct takes over the properties of the struct types that it embeds. It finds them in the
registry, where they stand once the embedded type has been expanded. While that type is being
expanded there is nothing to be found yet; but this is so only if it leads back to the struct.

## Main definitions

* `Resolver.Splices` — a struct type that embeds another one

The main statement is `names_promoted`.
-/

namespace ClientTypes

namespace Resolver

variable {r : Resolver} {reg : Registry} {id : TypeId} {f : Field} {q : QName} {k n : Nat}
  {decl : TypeDecl} {fields : List Field} {b : Body}

/-! ## Splicing -/

/-- A struct type has a field, neither a sequence nor a map, that takes over the properties of a
named struct type. -/
structure Splices (r : Resolver) (id : TypeId) (f : Field) (q : QName) : Prop where
  outer : ∃ decl fields, r.project.type? id = some decl ∧ decl.kind = .struct fields ∧ f ∈ fields
  role : ∃ fallback, f.role r.tagKey = .splice fallback
  single : (f.var.isSequence || f.var.isMap) = false
  embedded : ∃ decl fields, r.project.type? f.var.type = some decl ∧ decl.kind = .struct fields ∧
    decl.qname? = some q ∧ r.substitute? decl = none

theorem Splices.mem_visits (hs : r.Splices id f q) (hf : f ∈ fields) :
    f.var.type ∈ r.visits id (.struct fields) := by
  obtain ⟨fallback, hrole⟩ := hs.role
  refine List.mem_flatMap.2 ⟨f, hf, ?_⟩
  unfold fieldVisits
  rw [hrole]
  exact List.mem_append_left _ (by simp [spliced, hs.single])

/-- A body of the embedded type is a struct, and its property names are among others. -/
def Gives (r : Resolver) (k : Nat) (f : Field) (names : List String) : Prop :=
  ∀ b, r.Born (r.layer k) f.var.type b →
    ∃ promoted, b.propertyNames? = some promoted ∧ promoted ⊆ names

section

variable (hdistinct : r.project.Distinct) (hs : r.Splices id f q)
  (hopens : ∀ dir decl, r.project.type? f.var.type = some decl → r.Opens dir f.var.type decl)
  (hsteady : r.SteadyAt .outline k f.var.type) (hleads : ¬ r.Leads f.var.type id)
  (hf : f ∈ fields) (hk : decl.kind = .struct fields)

include hdistinct hs hopens hsteady hleads hf hk

/-- An embedded type that does not lead back is expanded when its field is reached, and what it
promotes is there. -/
theorem keeps_promoted_of_splices :
    (r.lawOf (r.layer (k + 1))).Keeps (r.Site (r.layer (k + 1)) n id decl)
      (promoted (r.resolveType n) f) fun o c => c.registry.contains q ∧
        ∃ ps, o = some ps ∧ r.Gives k f (ps.map (·.name)) := by
  obtain ⟨declT, fieldsT, hdT, hkT, hqT, hsT⟩ := hs.embedded
  have hoT (dir : Direction) := hopens dir declT hdT
  have hvisit : f.var.type ∈ r.visits id decl.kind := hk ▸ hs.mem_visits hf
  rw [promoted_eq _ f hs.single]
  have hinner := keeps_named (k := k) (n := n) hdistinct hvisit hleads hsteady.even (hoT .outbound)
    hqT
  refine .bind stable_site hinner fun d => .read fun c₀ => .pure ?_
  rintro c - ⟨⟨-, rfl, e, he, hborn⟩, rfl⟩
  obtain ⟨ps, hps⟩ := hborn.exists_struct hdT hkT
  have hstruct : c.registry.promotedBy (.named q) = some ps := by
    change c.registry.structFrom [] q = some ps
    rw [Registry.structFrom_of_get? (by simp) he, hps]
  refine ⟨Option.isSome_iff_exists.2 ⟨e, he⟩, _, by rw [hstruct]; rfl, fun b hb => ?_⟩
  have hnames := congrArg Body.propertyNames? ((agrees hdistinct .outline k).born hsteady hborn hb)
  rw [Aspect.propertyNames?_body, Aspect.propertyNames?_body, hps] at hnames
  exact ⟨_, hnames.symm, by simp [Function.comp_def]⟩

theorem keeps_fieldEntries_of_splices :
    (r.lawOf (r.layer (k + 1))).Keeps (r.Site (r.layer (k + 1)) n id decl)
      (r.fieldEntries (r.resolveType n) f) fun es c =>
        c.registry.contains q ∧ r.Gives k f (es.map (·.property.name)) := by
  obtain ⟨fallback, hrole⟩ := hs.role
  unfold fieldEntries
  simp only [hrole]
  refine .bind stable_site
    (keeps_promoted_of_splices hdistinct hs hopens hsteady hleads hf hk) fun o => ?_
  cases o with
  | none =>
    rintro c - ⟨-, -, ps, hps, -⟩
    cases hps
  | some ps =>
    refine .pure ?_
    rintro c - ⟨-, hcontains, ps', hps, hgives⟩
    cases hps
    exact ⟨hcontains, by simpa [Function.comp_def] using hgives⟩

theorem keeps_properties_of_splices :
    (r.lawOf (r.layer (k + 1))).Keeps (r.Site (r.layer (k + 1)) n id decl)
      (r.properties (r.resolveType n) fields) fun ps c => c.registry.contains q ∧
        r.Gives k f (ps.map (·.name)) := by
  have hany (g : Field) (hg : g ∈ fields) :
      (r.lawOf (r.layer (k + 1))).Keeps (r.Site (r.layer (k + 1)) n id decl)
        (r.fieldEntries (r.resolveType n) g) fun es c =>
          g = f → c.registry.contains q ∧ r.Gives k f (es.map (·.property.name)) := by
    by_cases hgf : g = f
    · subst hgf
      exact (keeps_fieldEntries_of_splices hdistinct hs hopens hsteady hleads hf hk).weaken
        fun _ _ _ h _ => h
    · have hvisit (i : TypeId) (hi : i ∈ r.fieldVisits g) :
          (r.lawOf (r.layer (k + 1))).Answers r.RefersIn (r.Site (r.layer (k + 1)) n id decl)
            (r.resolveType n i) := by
        have hmem : i ∈ r.visits id decl.kind := hk ▸ List.mem_flatMap.2 ⟨g, hg, hi⟩
        exact (keeps_of_steps (steps_layer hdistinct (k + 1)) n i).mono
          (fun c hs => hs.underway.visit hs.opens hmem) fun _ _ _ hd => hd.refers
      exact (keeps_fieldEntries judges_refersIn_lawOf.toWeighs stable_site g hvisit fun i hi =>
        judges_refersIn_lawOf.provides (hvisit i (fieldSplices_subset g hi))).weaken
        fun _ _ _ _ h => absurd h hgf
  have hstable (g : Field) (es : List Entry) : (r.lawOf (r.layer (k + 1))).Stable fun c =>
      g = f → c.registry.contains q ∧ r.Gives k f (es.map (·.property.name)) :=
    fun _ _ _ hle h hgf => ⟨hle.registry.contains (h hgf).1, (h hgf).2⟩
  refine .bind stable_site (.mapM stable_site hstable fields hany) fun ess => .pure ?_
  rintro c - ⟨-, hess⟩
  obtain ⟨es, hes, h⟩ := exists_of_mem_left hess hf
  obtain ⟨hcontains, hgives⟩ := h rfl
  refine ⟨hcontains, fun b hb => ?_⟩
  obtain ⟨names, hnames, hsub⟩ := hgives b hb
  refine ⟨names, hnames, fun name hname => (mem_names_selectEntries _).2 ?_⟩
  obtain ⟨e, he, rfl⟩ := List.mem_map.1 (hsub hname)
  exact List.mem_map_of_mem (List.mem_flatten.2 ⟨es, hes, he⟩)

/-- Where the outer type has been expanded, the embedded one is defined. -/
theorem steps_spliced (hd : r.project.type? id = some decl) :
    r.Steps fun reg => r.layer (k + 1) reg ∧ (Done reg id → reg.contains q) := by
  refine steps_contains (steps_layer hdistinct (k + 1)) fun n decl' c hsite => ?_
  obtain rfl : decl = decl' := hsite.opens.decl_eq hd
  obtain ⟨-, -, hcontains, -⟩ :=
    keeps_properties_of_splices hdistinct hs hopens hsteady hleads hf hk c hsite.inv hsite
  rw [hk]
  exact hcontains

/-- The body of a struct has the property names of a type that it embeds. -/
theorem names_of_born (hd : r.project.type? id = some decl) {bT : Body}
    (hb : r.Born (r.layer (k + 1)) id b) (hbT : r.Born (r.layer k) f.var.type bT) :
    ∃ names promoted, b.propertyNames? = some names ∧ bT.propertyNames? = some promoted ∧
      promoted ⊆ names := by
  obtain ⟨n, decl', c, hsite, rfl⟩ := hb
  obtain rfl : decl = decl' := hsite.opens.decl_eq hd
  obtain ⟨-, -, -, hgives⟩ := keeps_properties_of_splices hdistinct hs hopens hsteady hleads hf hk c
    hsite.inv hsite
  obtain ⟨promoted, hpromoted, hsub⟩ := hgives bT hbT
  rw [hk]
  exact ⟨_, promoted, rfl, hpromoted, hsub⟩

end

/-! ## Types that do not control their wire format -/

theorem opens_of_plain (hd : r.project.type? id = some decl) (hs : r.substitute? decl = none)
    (hplain : decl.capabilities = {}) (hk : decl.kind = .struct fields) (dir : Direction) :
    r.Opens dir id decl :=
  opens_of_capabilities hd hs hplain (by rw [hk]; rfl) dir

/-- At rest, a defined type that is expanded in both directions has been expanded. -/
theorem Rests.done {I : Registry → Prop} (h : r.Rests I reg) {d : Definition}
    (hd : d ∈ reg.definitions) (he : r.Even d.typeId) (ho : r.Opens .outbound d.typeId decl) :
    Done reg d.typeId := by
  rcases h.done_or_opaque hd he with ⟨hdone, -⟩ | ⟨⟨decl', hh⟩, -⟩
  · exact hdone
  · exact (ho.not_hides (ho.decl_eq hh.declared ▸ hh)).elim

theorem Rests.born (h : r.Rests (r.layer (k + 1)) reg) (hu : reg.Unique) {d : Definition}
    (hd : d ∈ reg.definitions) (he : r.Even d.typeId) (ho : r.Opens .outbound d.typeId decl) :
    r.Born (r.layer k) d.typeId d.body := by
  obtain ⟨decl', hdecl, hname, -⟩ := h.exists_origin hd
  exact h.registry.2 _ _ d ⟨decl', hdecl, hname⟩ he (h.done hd he ho)
    (hu.get?_eq_some_iff.2 ⟨hd, rfl⟩)

end Resolver

/-- A struct type has the property names of every struct type that it embeds, if no type controls
its own wire format, and if the embedded one, where it is another type, is steady in outline and
does not lead back. -/
theorem names_promoted (project : Project) (config : Config) (contracts : List Contract)
    (hdistinct : project.Distinct)
    (hplain : ∀ id decl, project.type? id = some decl → decl.isNamed → decl.capabilities = {})
    {d : Definition} (hd : d ∈ (generate project config contracts).table.definitions) {f : Field}
    {q : QName} (hs : (Resolver.make project config).Splices d.typeId f q)
    (hback : f.var.type ≠ d.typeId → (Resolver.make project config).Steady .outline f.var.type ∧
      ¬ (Resolver.make project config).Leads f.var.type d.typeId) :
    ∃ embedded names promoted, (generate project config contracts).table.get? q = some embedded ∧
      d.body.propertyNames? = some names ∧ embedded.body.propertyNames? = some promoted ∧
        promoted ⊆ names := by
  let p := Pass.make project config
  let r := Resolver.make project config
  have hrests (k : Nat) : r.Rests (r.layer k) (p.contracts contracts {}).2 :=
    p.rests_layer hdistinct contracts k
  have hunique : (p.contracts contracts {}).2.Unique := p.unique_contracts contracts
  have hmem : d ∈ (p.contracts contracts {}).2.definitions := Registry.mem_definitions_finalize.1 hd
  -- Both types are expanded wherever they are met.
  obtain ⟨decl, fields, hdecl, hkind, hf⟩ := hs.outer
  obtain ⟨declT, fieldsT, hdeclT, hkindT, hqT, hsT⟩ := hs.embedded
  obtain ⟨decl', hdecl', hq, hsub, -⟩ := (hrests 0).exists_origin hmem
  obtain rfl : decl = decl' := Option.some.inj (hdecl.symm.trans hdecl')
  have hplainS := hplain _ decl hdecl (by simp [TypeDecl.isNamed, hq])
  have hplainT := hplain _ declT hdeclT (by simp [TypeDecl.isNamed, hqT])
  have hopens := Resolver.opens_of_plain (r := r) hdecl hsub hplainS hkind
  have hopensT (dir : Direction) (decl : TypeDecl) (hd : project.type? f.var.type = some decl) :
      r.Opens dir f.var.type decl := by
    obtain rfl : declT = decl := Option.some.inj (hdeclT.symm.trans hd)
    exact Resolver.opens_of_plain (r := r) hdeclT hsT hplainT hkindT dir
  have heven : r.Even d.typeId := Resolver.even_of_plain (r := r) hdecl hplainS
  have hevenT : r.Even f.var.type := Resolver.even_of_plain (r := r) hdeclT hplainT
  by_cases hsame : f.var.type = d.typeId
  · obtain rfl : declT = decl := Option.some.inj (hdeclT.symm.trans (hsame ▸ hdecl))
    obtain rfl : d.name = q := Option.some.inj (hq.symm.trans hqT)
    obtain ⟨ps, hps⟩ := ((hrests 1).born hunique hmem heven (hopens .outbound)).exists_struct hdecl
      hkind
    have hnames : d.body.propertyNames? = some (ps.map (·.name)) := by
      rw [hps]
      rfl
    exact ⟨d, _, _, hunique.get?_finalize_eq_some_iff.2 (hunique.get?_eq_some_iff.2 ⟨hmem, rfl⟩),
      hnames, hnames, fun _ h => h⟩
  obtain ⟨⟨k, hk⟩, hleads⟩ := hback hsame
  -- The outer one has been expanded, and with it the embedded one has been defined.
  have hspliced := p.rests_contracts (Resolver.steps_spliced hdistinct hs hopensT hk hleads hf hkind
    hdecl) ⟨r.layer_empty _, fun hdone => absurd hdone (Resolver.not_done_empty _)⟩ contracts
  have hdone := (hrests 0).done hmem heven (hopens .outbound)
  obtain ⟨e, he⟩ := Option.isSome_iff_exists.1 (hspliced.registry.2 hdone)
  have htype : e.typeId = f.var.type :=
    ((hrests 0).inv "" .outbound).grounded.typeId_eq hdistinct he ⟨declT, hdeclT, hqT⟩
  have hborn := (hrests (k + 2)).born hunique hmem heven (hopens .outbound)
  have hbornT := (hrests (k + 1)).born hunique (Registry.mem_of_get? he) (htype ▸ hevenT)
    (htype ▸ hopensT .outbound declT hdeclT)
  obtain ⟨names, promoted, hnames, hpromoted, hsub⟩ := Resolver.names_of_born hdistinct hs hopensT
    hk hleads hf hkind hdecl hborn (htype ▸ hbornT)
  exact ⟨e, names, promoted, hunique.get?_finalize_eq_some_iff.2 he, hnames, hpromoted, hsub⟩

/-! ## A struct that takes over a name -/

namespace Team

-- The runs below are evaluated, down to the tags and the promoted properties of fields.
attribute [local semireducible] Tag.lookupChars Registry.structFrom

def members : Contract where
  name := "Members"
  package := "team"
  operations := [{ name := "Find", results := [{ name := "member", type := ⟨"Member"⟩ }] }]

def person : Field where
  var := { name := "Person", type := ⟨"Person"⟩ }
  embedded := true

/-- A member is a person. -/
def project : Project where
  path := "team"
  contracts := [members]
  types :=
    [(⟨"Member"⟩, {
        package := some "team", name := some "Member"
        kind := .struct [person, { var := { name := "Role", type := ⟨"string"⟩ } }] }),
     (⟨"Person"⟩, {
        package := some "team", name := some "Person"
        kind := .struct [{ var := { name := "Name", type := ⟨"string"⟩ } }] })]

def pass : Pass := .make project {}

def rank (id : TypeId) : Nat := if id = ⟨"Member"⟩ then 2 else if id = ⟨"Person"⟩ then 1 else 0

theorem rank_lt : ∀ t ∈ pass.resolver.project.types, ∀ i ∈ pass.resolver.visits t.1 t.2.kind,
    rank i < rank t.1 := by
  decide

theorem distinct : project.Distinct := Project.distinct_of_forall (by decide)

theorem plain (id : TypeId) (decl : TypeDecl) (hd : project.type? id = some decl)
    (_ : decl.isNamed) : decl.capabilities = {} := by
  have hall : ∀ t ∈ project.types, t.2.capabilities = {} := by decide
  exact hall _ (Project.mem_types_of_type? hd)

theorem splices : pass.resolver.Splices ⟨"Member"⟩ person ⟨"team", "Person"⟩ where
  outer := ⟨_, _, rfl, rfl, by simp⟩
  role := ⟨⟨"Person", false, false⟩, by decide⟩
  single := by decide
  embedded := ⟨_, _, rfl, rfl, by decide, by decide⟩

theorem exists_member :
    ∃ d ∈ (generate project {} [members]).table.definitions, d.typeId = ⟨"Member"⟩ :=
  Pass.exists_definition_of_registered (by decide) (by decide)

theorem exists_names_promoted : ∃ d ∈ (generate project {} [members]).table.definitions,
    d.typeId = ⟨"Member"⟩ ∧ ∃ embedded names promoted,
      (generate project {} [members]).table.get? ⟨"team", "Person"⟩ = some embedded ∧
        d.body.propertyNames? = some names ∧ embedded.body.propertyNames? = some promoted ∧
          promoted ⊆ names := by
  obtain ⟨d, hd, hid⟩ := exists_member
  refine ⟨d, hd, hid, names_promoted project {} [members] distinct plain hd (hid ▸ splices) fun _ =>
    ⟨Resolver.steady_of_rank rank_lt (by decide) .outline _, fun hleads => ?_⟩⟩
  have hrank := Resolver.Leads.rank_le rank_lt hleads
  rw [hid] at hrank
  exact absurd hrank (by decide)

end Team

/-! ## A struct that loses a name -/

namespace Ledger

-- The runs below are evaluated, down to the tags and the promoted properties of fields.
attribute [local semireducible] Tag.lookupChars Registry.structFrom

def records : Contract where
  name := "Records"
  package := "ledger"
  operations := [{ name := "Find", results := [{ name := "record", type := ⟨"Record"⟩ }] }]

def record : Field where
  var := { name := "Record", type := ⟨"Record"⟩ }
  embedded := true

/-- An account is a record, and a record has an account as its owner. -/
def project : Project where
  path := "ledger"
  contracts := [records]
  types :=
    [(⟨"Account"⟩, {
        package := some "ledger", name := some "Account", kind := .struct [record] }),
     (⟨"Record"⟩, {
        package := some "ledger", name := some "Record"
        kind := .struct [{ var := { name := "Owner", type := ⟨"Account"⟩, pointers := 1 } }] })]

def pass : Pass := .make project {}

theorem splices : pass.resolver.Splices ⟨"Account"⟩ record ⟨"ledger", "Record"⟩ where
  outer := ⟨_, _, rfl, rfl, by simp⟩
  role := ⟨⟨"Record", false, false⟩, by decide⟩
  single := by decide
  embedded := ⟨_, _, rfl, rfl, by decide, by decide⟩

theorem exists_account : ∃ d ∈ (generate project {} [records]).table.definitions,
    d.typeId = ⟨"Account"⟩ ∧ d.body.propertyNames? = some [] :=
  Pass.exists_definition_of_registered (by decide) (by decide)

theorem exists_record :
    ∃ d, (generate project {} [records]).table.get? ⟨"ledger", "Record"⟩ = some d ∧
      d.body.propertyNames? = some ["Owner"] :=
  Pass.exists_get?_of_registered (by decide) (by decide)

/-- The record is met first, and so the account is expanded while it is being expanded. The account
finds no properties then, and is not expanded again. -/
theorem exists_name_lost : project.Distinct ∧
    (∀ id decl, project.type? id = some decl → decl.isNamed → decl.capabilities = {}) ∧
      ∃ d ∈ (generate project {} project.contracts).table.definitions,
        pass.resolver.Splices d.typeId record ⟨"ledger", "Record"⟩ ∧ ∃ embedded names promoted,
          (generate project {} project.contracts).table.get? ⟨"ledger", "Record"⟩ = some embedded ∧
            d.body.propertyNames? = some names ∧ embedded.body.propertyNames? = some promoted ∧
              ¬ promoted ⊆ names := by
  have hplain : ∀ t ∈ project.types, t.2.capabilities = {} := by decide
  obtain ⟨d, hd, hid, hnames⟩ := exists_account
  obtain ⟨e, he, hpromoted⟩ := exists_record
  exact ⟨Project.distinct_of_forall (by decide),
    fun id decl hdecl _ => hplain _ (Project.mem_types_of_type? hdecl),
    d, hd, hid ▸ splices, e, [], ["Owner"], he, hnames, hpromoted, by decide⟩

end Ledger

end ClientTypes

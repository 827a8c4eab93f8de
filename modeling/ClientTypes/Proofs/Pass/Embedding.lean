import ClientTypes.Proofs.Pass.Promotion
import ClientTypes.Proofs.Resolve.Methods

/-!
# Embedded methods

An interface takes over the methods of the interfaces that it embeds. It looks for them in the
registry under the name of what it embeds, and no further: there is an interface if this is the
embedded interface itself, and if it has been expanded by then. So it has if it does not lead back.

## Main definitions

* `Resolver.Embeds` — an interface type that embeds another one

The main statement is `names_embedded`.
-/

namespace ClientTypes

namespace Resolver

variable {r : Resolver} {id embed : TypeId} {q : QName} {k n : Nat} {decl : TypeDecl} {b : Body}
  {embeds : List TypeId} {methods : List InterfaceMethod}

/-- An interface type embeds a named interface type. -/
structure Embeds (r : Resolver) (id embed : TypeId) (q : QName) : Prop where
  outer : ∃ decl embeds methods, r.project.type? id = some decl ∧
    decl.kind = .interface embeds methods ∧ embed ∈ embeds
  embedded : ∃ decl, r.project.type? embed = some decl ∧ decl.kind.isInterface = true ∧
    decl.qname? = some q ∧ r.substitute? decl = none

/-- The definition of an expanded interface has exactly the methods that a firm interface has by
right. -/
theorem Rests.names_iff_bears (hdistinct : r.project.Distinct)
    {reg : Registry} (h : r.Rests (r.layer (k + 1)) reg) (hu : reg.Unique) {d : Definition}
    (hd : d ∈ reg.definitions) (hf : r.FirmAt k d.typeId)
    (ho : r.Opens .outbound d.typeId decl) (hk : decl.kind.isInterface = true) :
    ∃ names, d.body.methodNames? = some names ∧
      ∀ name, name ∈ names ↔ r.Bears d.typeId name :=
  (tells hdistinct k).born hf ho.declared hk (h.born hu hd hf.even ho)

section

variable (hdistinct : r.project.Distinct) (hk : decl.kind = .interface embeds methods)
  (hembed : embed ∈ embeds) {declE : TypeDecl} (ho : r.Opens .outbound embed declE)
  (hkind : declE.kind.isInterface = true) (hq : declE.qname? = some q) (hf : r.FirmAt k embed)
  (hleads : ¬ r.Leads embed id)

include hdistinct hk hembed ho hkind hq hf hleads

/-- An interface finds the methods of a firm one that it embeds, if this one does not lead back. -/
theorem keeps_methodSet_of_embeds :
    (r.lawOf (r.layer (k + 1))).Keeps (r.Site (r.layer (k + 1)) n id decl)
      (r.methodSet (r.resolveType n) embeds methods) fun ms c => c.registry.contains q ∧
        ∀ name, r.Bears embed name → name ∈ ms.map (·.name) := by
  have hlayer := steps_layer hdistinct (k + 1)
  have hvisit {e : TypeId} (he : e ∈ embeds) : e ∈ r.visits id decl.kind := by
    rw [hk]
    exact List.mem_append_right _ he
  have hany (e : TypeId) (he : e ∈ embeds) :
      (r.lawOf (r.layer (k + 1))).Keeps (r.Site (r.layer (k + 1)) n id decl) (r.resolveType n e)
        fun d c => e = embed → c.registry.contains q ∧
          ∀ name, r.Bears embed name → name ∈ (c.registry.methodsBy d).map (·.name) := by
    by_cases heq : e = embed
    · subst heq
      exact (keeps_interface hdistinct (tells hdistinct k) hf hleads (hvisit he) ho hkind hq).weaken
        fun _ _ _ h _ => ⟨h.1, fun name => (h.2 name).2⟩
    · exact (keeps_of_steps hlayer n e).mono (fun c hs => hs.underway.visit hs.opens (hvisit he))
        fun _ _ _ _ h => absurd h heq
  refine (keeps_methodSet_site
    (P := fun e ms c => e = embed → c.registry.contains q ∧
      ∀ name, r.Bears embed name → name ∈ ms.map (·.name)) hlayer ?_ hk hany).weaken ?_
  · exact fun _ _ _ _ _ hle h heq => ⟨hle.registry.contains (h heq).1, (h heq).2⟩
  · rintro ms c - ⟨mss, hmss, hnames⟩
    obtain ⟨brought, hbrought, h⟩ := exists_of_mem_left hmss hembed
    obtain ⟨hcontains, hbears⟩ := h rfl
    exact ⟨hcontains, fun name hname => (hnames name).2 (.inr ⟨_, hbrought, hbears name hname⟩)⟩

theorem steps_embedded (hd : r.project.type? id = some decl) :
    r.Steps fun reg => r.layer (k + 1) reg ∧ (Done reg id → reg.contains q) := by
  refine steps_contains (steps_layer hdistinct (k + 1)) fun n decl' c hsite => ?_
  obtain rfl : decl = decl' := hsite.opens.decl_eq hd
  obtain ⟨-, -, hcontains, -⟩ := keeps_methodSet_of_embeds hdistinct hk hembed ho hkind hq hf hleads
    c hsite.inv hsite
  rw [hk]
  exact hcontains

theorem methodNames_of_born (hd : r.project.type? id = some decl)
    (hb : r.Born (r.layer (k + 1)) id b) : ∃ names, b.methodNames? = some names ∧
      ∀ name, r.Bears embed name → name ∈ names := by
  obtain ⟨n, decl', c, hsite, rfl⟩ := hb
  obtain rfl : decl = decl' := hsite.opens.decl_eq hd
  obtain ⟨-, -, -, hnames⟩ := keeps_methodSet_of_embeds hdistinct hk hembed ho hkind hq hf hleads c
    hsite.inv hsite
  rw [hk]
  exact ⟨_, rfl, hnames⟩

end

end Resolver

/-- An interface type has the method names of every interface type that it embeds by its own name,
if no type controls its own wire format, and if the embedded one, where it is another type, is firm
and does not lead back. -/
theorem names_embedded (project : Project) (config : Config) (contracts : List Contract)
    (hdistinct : project.Distinct)
    (hplain : ∀ id decl, project.type? id = some decl → decl.isNamed → decl.capabilities = {})
    {d : Definition} (hd : d ∈ (generate project config contracts).table.definitions)
    {embed : TypeId} {q : QName} (hs : (Resolver.make project config).Embeds d.typeId embed q)
    (hback : embed ≠ d.typeId → (Resolver.make project config).Firm embed ∧
      ¬ (Resolver.make project config).Leads embed d.typeId) :
    ∃ embedded names taken, (generate project config contracts).table.get? q = some embedded ∧
      d.body.methodNames? = some names ∧ embedded.body.methodNames? = some taken ∧
        taken ⊆ names := by
  let p := Pass.make project config
  let r := Resolver.make project config
  have hrests (k : Nat) : r.Rests (r.layer k) (p.contracts contracts {}).2 :=
    p.rests_layer hdistinct contracts k
  have hunique : (p.contracts contracts {}).2.Unique := p.unique_contracts contracts
  have hmem : d ∈ (p.contracts contracts {}).2.definitions := Registry.mem_definitions_finalize.1 hd
  -- Both types are expanded wherever they are met.
  obtain ⟨decl, embeds, methods, hdecl, hkind, hembed⟩ := hs.outer
  obtain ⟨declE, hdeclE, hkindE, hqE, hsE⟩ := hs.embedded
  obtain ⟨decl', hdecl', hq, hsub, -⟩ := (hrests 0).exists_origin hmem
  obtain rfl : decl = decl' := Option.some.inj (hdecl.symm.trans hdecl')
  have hplainI := hplain _ decl hdecl (by simp [TypeDecl.isNamed, hq])
  have hplainE := hplain _ declE hdeclE (by simp [TypeDecl.isNamed, hqE])
  have hopens : r.Opens .outbound d.typeId decl :=
    Resolver.opens_of_capabilities hdecl hsub hplainI (by rw [hkind]; rfl) _
  have hopensE : r.Opens .outbound embed declE := by
    obtain ⟨embedsE, methodsE, hk⟩ := Resolver.eq_interface_of_isInterface hkindE
    exact Resolver.opens_of_capabilities hdeclE hsE hplainE (by rw [hk]; rfl) _
  have heven : r.Even d.typeId := Resolver.even_of_plain (r := r) hdecl hplainI
  by_cases hsame : embed = d.typeId
  · obtain rfl : declE = decl := Option.some.inj (hdeclE.symm.trans (hsame ▸ hdecl))
    obtain rfl : d.name = q := Option.some.inj (hq.symm.trans hqE)
    obtain ⟨names, hnames⟩ :=
      ((hrests 1).born hunique hmem heven hopens).exists_methodNames hdecl hkindE
    exact ⟨d, names, names,
      hunique.get?_finalize_eq_some_iff.2 (hunique.get?_eq_some_iff.2 ⟨hmem, rfl⟩), hnames, hnames,
      fun _ h => h⟩
  obtain ⟨⟨k, hk⟩, hleads⟩ := hback hsame
  -- The outer one has been expanded, and with it the embedded one has been defined.
  have hembedded := p.rests_contracts (Resolver.steps_embedded hdistinct hkind hembed hopensE hkindE
    hqE hk hleads hdecl) ⟨r.layer_empty _, fun hdone => absurd hdone (Resolver.not_done_empty _)⟩
    contracts
  have hdone := (hrests 0).done hmem heven hopens
  obtain ⟨e, he⟩ := Option.isSome_iff_exists.1 (hembedded.registry.2 hdone)
  have htype : e.typeId = embed :=
    ((hrests 0).inv "" .outbound).grounded.typeId_eq hdistinct he ⟨declE, hdeclE, hqE⟩
  obtain ⟨names, hnames, hsub⟩ := Resolver.methodNames_of_born hdistinct hkind hembed hopensE hkindE
    hqE hk hleads hdecl ((hrests (k + 2)).born hunique hmem heven hopens)
  obtain ⟨taken, htaken, hiff⟩ := (hrests (k + 1)).names_iff_bears hdistinct hunique
    (Registry.mem_of_get? he) (htype ▸ hk) (htype ▸ hopensE) hkindE
  refine ⟨e, names, taken, hunique.get?_finalize_eq_some_iff.2 he, hnames, htaken, ?_⟩
  exact fun name hname => hsub name (htype ▸ (hiff name).1 hname)

/-! ## An interface that takes over a method -/

namespace Streams

def files : Contract where
  name := "Files"
  package := "io"
  operations := [{ name := "Open", results := [{ name := "stream", type := ⟨"Stream"⟩ }] }]

def closer : TypeDecl where
  package := some "io"
  name := some "Closer"
  kind := .interface [] [⟨"Close", {}⟩]

/-- A stream can be read and closed. -/
def project : Project where
  path := "io"
  contracts := [files]
  types :=
    [(⟨"Stream"⟩, {
        package := some "io", name := some "Stream"
        kind := .interface [⟨"Closer"⟩] [⟨"Read", {}⟩] }),
     (⟨"Closer"⟩, closer)]

def pass : Pass := .make project {}

def rank (id : TypeId) : Nat := if id = ⟨"Stream"⟩ then 1 else 0

theorem rank_lt : ∀ t ∈ pass.resolver.project.types, ∀ i ∈ pass.resolver.visits t.1 t.2.kind,
    rank i < rank t.1 := by
  decide

theorem plain (id : TypeId) (decl : TypeDecl) (hd : project.type? id = some decl) :
    decl.capabilities = {} := by
  have hall : ∀ t ∈ project.types, t.2.capabilities = {} := by decide
  exact hall _ (Project.mem_types_of_type? hd)

theorem embeds : pass.resolver.Embeds ⟨"Stream"⟩ ⟨"Closer"⟩ ⟨"io", "Closer"⟩ where
  outer := ⟨_, _, _, rfl, rfl, by simp⟩
  embedded := ⟨_, rfl, rfl, by decide, by decide⟩

theorem exists_stream :
    ∃ d ∈ (generate project {} [files]).table.definitions, d.typeId = ⟨"Stream"⟩ :=
  Pass.exists_definition_of_registered (by decide) (by decide)

theorem exists_names_embedded : ∃ d ∈ (generate project {} [files]).table.definitions,
    d.typeId = ⟨"Stream"⟩ ∧ ∃ embedded names taken,
      (generate project {} [files]).table.get? ⟨"io", "Closer"⟩ = some embedded ∧
        d.body.methodNames? = some names ∧ embedded.body.methodNames? = some taken ∧
          taken ⊆ names := by
  obtain ⟨d, hd, hid⟩ := exists_stream
  refine ⟨d, hd, hid, names_embedded project {} [files] (Project.distinct_of_forall (by decide))
    (fun id decl hdecl _ => plain id decl hdecl) hd (hid ▸ embeds) fun _ =>
      ⟨Resolver.firm_of_rank rank_lt (by decide) _, fun hleads => ?_⟩⟩
  have hrank := Resolver.Leads.rank_le rank_lt hleads
  rw [hid] at hrank
  exact absurd hrank (by decide)

end Streams

/-! ## An interface that loses a method -/

namespace Closables

-- The run below is evaluated, down to the method sets.
attribute [local semireducible] List.mergeSort

def files : Contract where
  name := "Files"
  package := "io"
  operations := [{ name := "Open", results := [{ name := "stream", type := ⟨"Stream"⟩ }] }]

def closable : TypeDecl where
  package := some "io"
  name := some "Closable"
  kind := .aliasOf { target := some ⟨"Closer"⟩ }

/-- A stream is closable, which is another name for what can be closed. -/
def project : Project where
  path := "io"
  contracts := [files]
  types :=
    [(⟨"Stream"⟩, {
        package := some "io", name := some "Stream"
        kind := .interface [⟨"Closable"⟩] [] }),
     (⟨"Closable"⟩, closable),
     (⟨"Closer"⟩, {
        package := some "io", name := some "Closer"
        kind := .interface [] [⟨"Close", {}⟩] })]

def pass : Pass := .make project {}

theorem exists_stream : ∃ d ∈ (generate project {} [files]).table.definitions,
    d.typeId = ⟨"Stream"⟩ ∧ d.body.methodNames? = some [] :=
  Pass.exists_definition_of_registered (by decide) (by decide)

theorem exists_closer :
    ∃ d, (generate project {} [files]).table.get? ⟨"io", "Closer"⟩ = some d ∧
      d.body.methodNames? = some ["Close"] :=
  Pass.exists_get?_of_registered (by decide) (by decide)

theorem behind : pass.resolver.Behind ⟨"Closable"⟩ ⟨"Closer"⟩ := by
  have hopens : pass.resolver.Opens .outbound ⟨"Closable"⟩ closable :=
    ⟨rfl, by decide, by decide⟩
  exact .link hopens rfl (by decide) (.refl _)

/-- The stream embeds an alias of the interface. Under the name of the alias it finds no interface,
and so it takes over nothing. -/
theorem exists_method_lost : project.Distinct ∧
    (∀ id decl, project.type? id = some decl → decl.isNamed → decl.capabilities = {}) ∧
      pass.resolver.Behind ⟨"Closable"⟩ ⟨"Closer"⟩ ∧
        ∃ d ∈ (generate project {} project.contracts).table.definitions,
          (∃ decl methods, project.type? d.typeId = some decl ∧
            decl.kind = .interface [⟨"Closable"⟩] methods) ∧ ∃ embedded names taken,
              (generate project {} project.contracts).table.get? ⟨"io", "Closer"⟩ = some embedded ∧
                d.body.methodNames? = some names ∧ embedded.body.methodNames? = some taken ∧
                  ¬ taken ⊆ names := by
  have hplain : ∀ t ∈ project.types, t.2.capabilities = {} := by decide
  obtain ⟨d, hd, hid, hnames⟩ := exists_stream
  obtain ⟨e, he, htaken⟩ := exists_closer
  exact ⟨Project.distinct_of_forall (by decide),
    fun id decl hdecl _ => hplain _ (Project.mem_types_of_type? hdecl), behind,
    d, hd, hid ▸ ⟨_, _, rfl, rfl⟩, e, [], ["Close"], he, hnames, htaken, by decide⟩

end Closables

end ClientTypes

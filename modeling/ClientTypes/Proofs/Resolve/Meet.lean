import ClientTypes.Proofs.Descriptor.All
import ClientTypes.Proofs.Law
import ClientTypes.Proofs.Registry.Growth
import ClientTypes.Resolve.Basic

/-!
# Meeting a type

What resolution does with an id depends on its declaration, on the direction, and on whether it is
being expanded or has been. Here is one rule with one case for each of these, and the effect of each
answer on the chain.

## Main definitions

* `Resolver.Hides`, `Resolver.Opens` — what becomes of a declared type in a direction
* `Chain.enter`, `Chain.leave` — the chain inside an expansion, and back outside of it
* `Chain.law` — a law of chains

The main statements are the rules `Law.Keeps.meet` and `Law.Keeps.expand`, and for what holds of
answers whatever the chain `answer_resolveType`.
-/

namespace ClientTypes

/-- The id is declared under the qualified name. -/
def Project.Names (p : Project) (id : TypeId) (q : QName) : Prop :=
  ∃ decl, p.type? id = some decl ∧ decl.qname? = some q

theorem Project.Names.qname?_eq {p : Project} {id : TypeId} {q : QName} {decl : TypeDecl}
    (h : p.Names id q) (hd : p.type? id = some decl) : decl.qname? = some q := by
  obtain ⟨decl', hd', hq⟩ := h
  rwa [Option.some.inj (hd.symm.trans hd')]

theorem Project.mem_types_of_type? {p : Project} {id : TypeId} {decl : TypeDecl}
    (h : p.type? id = some decl) : (id, decl) ∈ p.types := by
  obtain ⟨l₁, l₂, hl, -⟩ := List.lookup_eq_some_iff.1 h
  simp [hl]

namespace Resolver

variable {r : Resolver} {dir : Direction} {id : TypeId} {decl decl' : TypeDecl}

/-- A declared type that is not substituted and has no known wire format in a direction. -/
structure Hides (r : Resolver) (dir : Direction) (id : TypeId) (decl : TypeDecl) : Prop where
  declared : r.project.type? id = some decl
  unsubstituted : r.substitute? decl = none
  hidden : (dir.isOverriddenBy decl.capabilities || decl.kind.isFormless) = true

/-- A declared type that is not substituted and takes its wire format from its kind. -/
structure Opens (r : Resolver) (dir : Direction) (id : TypeId) (decl : TypeDecl) : Prop where
  declared : r.project.type? id = some decl
  unsubstituted : r.substitute? decl = none
  opened : (dir.isOverriddenBy decl.capabilities || decl.kind.isFormless) = false

theorem Opens.decl_eq (h : r.Opens dir id decl) (h' : r.project.type? id = some decl') :
    decl' = decl :=
  Option.some.inj (h'.symm.trans h.declared)

theorem Opens.not_hides (h : r.Opens dir id decl) (h' : r.Hides dir id decl') : False := by
  have := h'.hidden
  rw [h.decl_eq h'.declared, h.opened] at this
  simp at this

end Resolver

namespace Chain

/-- The chain inside the expansion of a type without a name. -/
def inside (id : TypeId) (c : Chain) : Chain := { c with processing := id :: c.processing }

/-- The chain inside the expansion of a type whose definition belongs to a namespace. -/
def enter (id : TypeId) (ns : String) (c : Chain) : Chain :=
  { c with processing := id :: c.processing, ns, imports := [] }

/-- The chain `c` after what has been done inside an expansion in its own namespace. -/
def outside (c c' : Chain) : Chain := { c' with processing := c.processing }

/-- The chain `c` after what has been done inside an expansion in another namespace. -/
def leave (c c' : Chain) : Chain :=
  { c' with ns := c.ns, imports := c.imports, processing := c.processing }

theorem extends_outside {id : TypeId} {c c' : Chain} (h : (c.inside id).Extends c') :
    c.Extends (c.outside c') :=
  ⟨h.ns, h.direction, rfl, h.imports, h.registry⟩

theorem extends_leave {id : TypeId} {ns : String} {c c' : Chain} (h : (c.enter id ns).Extends c') :
    c.Extends (c.leave c') :=
  ⟨rfl, h.direction, rfl, fun _ hns => hns, h.registry⟩

theorem run_expanding_eq {α : Type} (id : TypeId) (act : Resolving α) (c : Chain) :
    (expanding id act).run c = ((act.run (c.inside id)).1,
      { (act.run (c.inside id)).2 with
        processing := (act.run (c.inside id)).2.processing.erase id }) := rfl

theorem run_within_eq {α : Type} (ns : String) (act : Resolving α) (c : Chain) :
    (within ns act).run c = ((act.run { c with ns, imports := [] }).1,
      { (act.run { c with ns, imports := [] }).2 with ns := c.ns, imports := c.imports }) := rfl

theorem run_expanding {α : Type} {act : Resolving α} {id : TypeId} {c : Chain}
    (h : (c.inside id).Extends (act.run (c.inside id)).2) :
    (expanding id act).run c =
      ((act.run (c.inside id)).1, c.outside (act.run (c.inside id)).2) := by
  rw [run_expanding_eq, h.processing]
  simp [inside, outside]

theorem run_expanding_within {α : Type} {act : Resolving α} {id : TypeId} {ns : String} {c : Chain}
    (h : (c.enter id ns).Extends (act.run (c.enter id ns)).2) :
    (expanding id (within ns act)).run c =
      ((act.run (c.enter id ns)).1, c.leave (act.run (c.enter id ns)).2) := by
  rw [run_expanding_eq, run_within_eq]
  change ((act.run (c.enter id ns)).1, { (act.run (c.enter id ns)).2 with
    ns := c.ns, imports := c.imports
    processing := (act.run (c.enter id ns)).2.processing.erase id }) = _
  rw [h.processing]
  simp [enter, leave]

/-- The chain after a definition has been registered and its name has been referred to. -/
def register (d : Definition) (c : Chain) : Chain := note d.name (offer d c)

/-- The chain after the definition of an expanded type has been registered and referred to. -/
def complete (d : Definition) (c : Chain) : Chain :=
  let c' := offer d c
  note d.name { c' with registry := c'.registry.markExpanded d.typeId c'.direction }

theorem extends_register (d : Definition) (c : Chain) : c.Extends (register d c) :=
  (extends_offer d c).trans (extends_note _ _)

@[simp] theorem registry_register (d : Definition) (c : Chain) :
    (register d c).registry = c.registry.merge d := by
  simp [register, offer]

@[simp] theorem registry_complete (d : Definition) (c : Chain) :
    (complete d c).registry = (c.registry.merge d).markExpanded d.typeId c.direction := by
  simp [complete, offer]

theorem mem_expanded_complete (d : Definition) (c : Chain) :
    (d.typeId, c.direction) ∈ (complete d c).registry.expanded := by
  rw [registry_complete]
  exact Registry.mem_expanded_markExpanded.2 (.inl ⟨rfl, rfl⟩)

theorem extends_complete (d : Definition) (c : Chain) : c.Extends (complete d c) := by
  have hmark : (offer d c).Extends { offer d c with
      registry := (offer d c).registry.markExpanded d.typeId (offer d c).direction } :=
    ⟨rfl, rfl, rfl, fun _ h => h, Registry.extends_markExpanded _ _ _⟩
  exact (extends_offer d c).trans (hmark.trans (extends_note _ _))

theorem mem_imports_complete {d : Definition} {c : Chain} {ns : String} :
    ns ∈ (complete d c).imports ↔ (ns = d.name.ns ∧ ns ≠ c.ns) ∨ ns ∈ c.imports :=
  mem_imports_note

end Chain

/-- A stub has no members. -/
theorem Kind.stub?_cases {k : Kind} {stub : Body} (h : k.stub? = some stub) :
    stub = .struct [] ∨ stub = .interface [] := by
  cases k with
  | struct fields => exact .inl (Option.some.inj h).symm
  | interface embeds methods => exact .inr (Option.some.inj h).symm
  | _ => simp [Kind.stub?] at h

namespace Resolver

variable {r : Resolver} {id : TypeId} {decl : TypeDecl} {name : QName}

theorem run_hide_of_named (h : decl.qname? = some name) (c : Chain) :
    (hide id decl).run c =
      (.opaqueAs name, c.register (definition id decl name (.aliasOf .bareOpaque))) := by
  simp only [hide, h]
  rfl

theorem hide_of_unnamed (h : decl.qname? = none) : hide id decl = pure .bareOpaque := by
  simp only [hide, h]

theorem run_referBack (c : Chain) :
    (referBack id decl name).run c = (.named name,
      match decl.kind.stub? with
      | some stub => c.register (definition id decl name stub)
      | none => Chain.note name c) := by
  unfold referBack
  cases decl.kind.stub? <;> rfl

/-- A named type is answered with its name. -/
theorem answer_expand_of_named (inner : TypeId → Resolving Descriptor) (c : Chain)
    (hname : decl.qname? = some name) : ((r.expand inner id decl).run c).1 = .named name := by
  simp only [expand, hname]
  rfl

/-- A type without a name is answered with its body in place. -/
theorem answer_expand_of_unnamed (inner : TypeId → Resolving Descriptor) (c : Chain)
    (hname : decl.qname? = none) : ((r.expand inner id decl).run c).1 =
      ((r.body inner id decl.kind).run (c.inside id)).1.inlined := by
  simp only [expand, hname]
  rfl

/-- The expansion of a named type: its body is resolved inside, registered and referred to. -/
theorem run_expand_of_named {inner : TypeId → Resolving Descriptor} {c : Chain}
    (hname : decl.qname? = some name)
    (h : (c.enter id name.ns).Extends ((r.body inner id decl.kind).run (c.enter id name.ns)).2) :
    (r.expand inner id decl).run c = (.named name,
      (c.leave ((r.body inner id decl.kind).run (c.enter id name.ns)).2).complete
        (definition id decl name ((r.body inner id decl.kind).run (c.enter id name.ns)).1)) := by
  simp only [expand, hname]
  rw [StateT.run_bind, Chain.run_expanding_within h]
  rfl

/-- The expansion of a type without a name: its body in place. -/
theorem run_expand_of_unnamed {inner : TypeId → Resolving Descriptor} {c : Chain}
    (hname : decl.qname? = none)
    (h : (c.inside id).Extends ((r.body inner id decl.kind).run (c.inside id)).2) :
    (r.expand inner id decl).run c =
      (((r.body inner id decl.kind).run (c.inside id)).1.inlined,
        c.outside ((r.body inner id decl.kind).run (c.inside id)).2) := by
  simp only [expand, hname]
  rw [StateT.run_bind, Chain.run_expanding h]
  rfl

/-! ## The answer in each case -/

section

variable {expansion : TypeId → TypeDecl → Resolving Descriptor} {c : Chain}

private theorem run_get_bind {f : Chain → Resolving Descriptor} :
    (get >>= f).run c = (f c).run c := rfl

theorem run_meet_of_missing (hd : r.project.type? id = none) :
    (r.meet expansion id).run c = (r.substitutions.guess id.text, c) := by
  rw [meet]
  simp only [hd]
  rfl

theorem run_meet_of_substituted {s : Substitute} (hd : r.project.type? id = some decl)
    (hs : r.substitute? decl = some s) : (r.meet expansion id).run c = (s.descriptor, c) := by
  rw [meet]
  simp only [hd, run_get_bind, hs]
  rfl

theorem run_meet_of_hides (hh : r.Hides c.direction id decl) :
    (r.meet expansion id).run c = (hide id decl).run c := by
  rw [meet]
  simp only [hh.declared, run_get_bind, hh.unsubstituted, hh.hidden, if_true]

/-- A named type is expanded the first time it is met in a direction. Otherwise it is referred to,
also while it is being expanded. -/
theorem run_meet_of_named (ho : r.Opens c.direction id decl) (hname : decl.qname? = some name) :
    (r.meet expansion id).run c =
      if id ∈ c.processing then (referBack id decl name).run c
      else if (id, c.direction) ∈ c.registry.expanded then (.named name, c.note name)
      else (expansion id decl).run c := by
  have hexp : c.registry.isExpanded id c.direction = true ↔
      (id, c.direction) ∈ c.registry.expanded := List.contains_iff_mem
  rw [meet]
  simp only [ho.declared, run_get_bind, ho.unsubstituted, ho.opened, hname, hexp,
    Bool.false_eq_true, if_false]
  split
  · rfl
  · split <;> rfl

/-- A named type that has been expanded is referred to. -/
theorem run_meet_of_expanded (ho : r.Opens c.direction id decl) (hname : decl.qname? = some name)
    (hmem : id ∉ c.processing) (hexp : (id, c.direction) ∈ c.registry.expanded) :
    (r.meet expansion id).run c = (.named name, c.note name) := by
  rw [run_meet_of_named ho hname, if_neg hmem, if_pos hexp]

/-- A type without a name is expanded in place, unless it is being expanded. -/
theorem run_meet_of_unnamed (ho : r.Opens c.direction id decl) (hname : decl.qname? = none) :
    (r.meet expansion id).run c =
      if id ∈ c.processing then (.bareOpaque, c) else (expansion id decl).run c := by
  rw [meet]
  simp only [ho.declared, run_get_bind, ho.unsubstituted, ho.opened, hname, Bool.false_eq_true,
    if_false]
  split <;> rfl

end

end Resolver

/-- Computations about which nothing is known but their results. -/
def Resolver.anyLaw : Law Chain :=
  ⟨fun _ => True, fun _ _ => True, fun _ => trivial, fun _ _ => trivial⟩

/-- The law of chains with a given invariant. -/
def Chain.law (inv : Chain → Prop) : Law Chain := ⟨inv, Chain.Extends, .refl, .trans⟩

namespace Law.Keeps

variable {r : Resolver} {L : Law Chain} {pre : Chain → Prop} {id : TypeId}
  {expansion : TypeId → TypeDecl → Resolving Descriptor} {ok : Descriptor → Chain → Prop}

/-- A type that is met is missing, substituted, hidden, being expanded, expanded before, or expanded
now. -/
theorem meet
    (missing : r.project.type? id = none → ∀ c, L.inv c → pre c →
      ok (r.substitutions.guess id.text) c)
    (substituted : ∀ decl s, r.project.type? id = some decl → r.substitute? decl = some s →
      ∀ c, L.inv c → pre c → ok s.descriptor c)
    (hidden : ∀ decl, L.Keeps (fun c => pre c ∧ r.Hides c.direction id decl)
      (Resolver.hide id decl) ok)
    (back : ∀ decl name, decl.qname? = some name →
      L.Keeps (fun c => pre c ∧ r.Opens c.direction id decl ∧ id ∈ c.processing)
        (Resolver.referBack id decl name) ok)
    (known : ∀ decl name, decl.qname? = some name →
      L.Keeps (fun c => pre c ∧ r.Opens c.direction id decl ∧ id ∉ c.processing ∧
        (id, c.direction) ∈ c.registry.expanded) (Chain.refer name) ok)
    (cycle : ∀ decl, decl.qname? = none → ∀ c, L.inv c → pre c → r.Opens c.direction id decl →
      id ∈ c.processing → ok .bareOpaque c)
    (expanded : ∀ decl, L.Keeps (fun c => pre c ∧ r.Opens c.direction id decl ∧
      id ∉ c.processing ∧ (decl.qname? ≠ none → (id, c.direction) ∉ c.registry.expanded))
      (expansion id decl) ok) :
    L.Keeps pre (r.meet expansion id) ok := by
  unfold Resolver.meet
  split
  · next hd => exact .pure (missing hd)
  · next decl hd =>
    refine .read fun c₀ => ?_
    split
    · next s hs => exact .pure fun c hc hp => substituted decl s hd hs c hc hp.1
    · next hs =>
      split
      · next hh =>
        refine (hidden decl).mono ?_ fun _ _ _ h => h
        rintro c ⟨hp, rfl⟩
        exact ⟨hp, hd, hs, hh⟩
      · next ho =>
        have hopens : r.Opens c₀.direction id decl := ⟨hd, hs, by simpa using ho⟩
        split
        · next name hname =>
          split
          · next hmem =>
            refine (back decl name hname).mono ?_ fun _ _ _ h => h
            rintro c ⟨hp, rfl⟩
            exact ⟨hp, hopens, hmem⟩
          · next hmem =>
            split
            · next hexp =>
              refine (known decl name hname).mono ?_ fun _ _ _ h => h
              rintro c ⟨hp, rfl⟩
              exact ⟨hp, hopens, hmem, by simpa [Registry.isExpanded] using hexp⟩
            · next hexp =>
              refine (expanded decl).mono ?_ fun _ _ _ h => h
              rintro c ⟨hp, rfl⟩
              exact ⟨hp, hopens, hmem, fun _ => by simpa [Registry.isExpanded] using hexp⟩
        · next hname =>
          split
          · next hmem =>
            refine .pure ?_
            rintro c hc ⟨hp, rfl⟩
            exact cycle decl hname c hc hp hopens hmem
          · next hmem =>
            refine (expanded decl).mono ?_ fun _ _ _ h => h
            rintro c ⟨hp, rfl⟩
            exact ⟨hp, hopens, hmem, fun h => absurd hname h⟩

/-- The expansion of a type resolves its body inside, and comes back out with a name that has been
completed, or with the body in place. What is invariant inside may be another matter than what is
invariant outside. -/
theorem expand {inv inv' pre' : Chain → Prop} {okb : Body → Chain → Prop} {decl : TypeDecl}
    {inner : TypeId → Resolving Descriptor}
    (body : (Chain.law inv').Keeps pre' (r.body inner id decl.kind) okb)
    (unnamed : decl.qname? = none → ∀ c, inv c → pre c → inv' (c.inside id) ∧ pre' (c.inside id) ∧
      ∀ b c', inv' c' → (c.inside id).Extends c' → okb b c' →
        inv (c.outside c') ∧ ok b.inlined (c.outside c'))
    (named : ∀ name, decl.qname? = some name → ∀ c, inv c → pre c →
      inv' (c.enter id name.ns) ∧ pre' (c.enter id name.ns) ∧
        ∀ b c', inv' c' → (c.enter id name.ns).Extends c' → okb b c' →
          inv ((c.leave c').complete (Resolver.definition id decl name b)) ∧
            ok (.named name) ((c.leave c').complete (Resolver.definition id decl name b))) :
    (Chain.law inv).Keeps pre (r.expand inner id decl) ok := by
  intro c hc hp
  cases hname : decl.qname? with
  | none =>
    obtain ⟨hin, hp', hout⟩ := unnamed hname c hc hp
    obtain ⟨hc', hle, hb⟩ := body _ hin hp'
    rw [Resolver.run_expand_of_unnamed hname hle]
    exact ⟨(hout _ _ hc' hle hb).1, Chain.extends_outside hle, (hout _ _ hc' hle hb).2⟩
  | some name =>
    obtain ⟨hin, hp', hout⟩ := named name hname c hc hp
    obtain ⟨hc', hle, hb⟩ := body _ hin hp'
    rw [Resolver.run_expand_of_named hname hle]
    exact ⟨(hout _ _ hc' hle hb).1, (Chain.extends_leave hle).trans (Chain.extends_complete _ _),
      (hout _ _ hc' hle hb).2⟩

end Law.Keeps

/-! ## Answers -/

namespace Resolver

variable {r : Resolver} {P : TypeId → Descriptor → Prop}
  (helementary : ∀ id d, d.Elementary → P id d)
  (hhidden : ∀ id q, r.project.Names id q → P id (.opaqueAs q))
  (hnamed : ∀ id q, r.project.Names id q → P id (.named q))

include helementary hhidden hnamed

theorem answer_meet {expansion : TypeId → TypeDecl → Resolving Descriptor} {id : TypeId}
    (hexpand : ∀ decl c, r.Opens c.direction id decl → P id ((expansion id decl).run c).1)
    (c : Chain) : P id ((r.meet expansion id).run c).1 := by
  have hkeeps : anyLaw.Keeps (fun _ => True) (r.meet expansion id) fun d _ => P id d := by
    refine .meet (fun _ _ _ _ => helementary id _ (SubstitutionTable.elementary_guess _ _))
      (fun _ s _ _ _ _ _ => helementary id _ s.elementary_descriptor) (fun decl => ?_)
      (fun decl name hname => ?_) (fun decl name hname => ?_)
      (fun _ _ _ _ _ _ _ => helementary id _ .bareOpaque)
      fun decl c _ hp => ⟨trivial, trivial, hexpand decl c hp.2.1⟩
    · rintro c - ⟨-, hh⟩
      refine ⟨trivial, trivial, ?_⟩
      cases hname : decl.qname? with
      | none =>
        rw [hide_of_unnamed hname]
        exact helementary id _ .bareOpaque
      | some name =>
        rw [run_hide_of_named hname]
        exact hhidden id name ⟨decl, hh.declared, hname⟩
    · rintro c - ⟨-, ho, -⟩
      rw [run_referBack]
      exact ⟨trivial, trivial, hnamed id name ⟨decl, ho.declared, hname⟩⟩
    · rintro c - ⟨-, ho, -⟩
      exact ⟨trivial, trivial, hnamed id name ⟨decl, ho.declared, hname⟩⟩
  exact (hkeeps c trivial trivial).2.2

/-- All answers have a property that elementary descriptors and the names of types have, and, where
the answers inside have it, the bodies of types without a name. -/
theorem answer_resolveType
    (hinlined : ∀ (inner : TypeId → Resolving Descriptor) id decl dir c,
      (∀ i c, P i ((inner i).run c).1) → r.Opens dir id decl → decl.qname? = none →
        P id ((r.body inner id decl.kind).run c).1.inlined)
    (n : Nat) (id : TypeId) (c : Chain) : P id ((r.resolveType n id).run c).1 := by
  induction n generalizing id c with
  | zero =>
    refine answer_meet helementary hhidden hnamed (fun decl c _ => ?_) c
    exact helementary id .bareOpaque .bareOpaque
  | succ n ih =>
    refine answer_meet helementary hhidden hnamed (fun decl c ho => ?_) c
    cases hname : decl.qname? with
    | none =>
      rw [answer_expand_of_unnamed _ c hname]
      exact hinlined _ id decl _ _ ih ho hname
    | some name =>
      rw [answer_expand_of_named _ c hname]
      exact hnamed id name ⟨decl, ho.declared, hname⟩

end Resolver

end ClientTypes

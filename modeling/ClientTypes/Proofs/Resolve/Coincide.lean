import ClientTypes.Proofs.Resolve.Alike
import ClientTypes.Proofs.Resolve.Meet

/-!
# The same by other means

Two computations coincide where they do the same from each state that a law and a precondition
admit. Two resolvers that know the same of some ids, and resolve them so that this coincides, do the
same with a type that mentions no others, in every chain.

## Main definitions

* `Law.Coincide` — two computations that do the same

The main statements are `coincide_resolveVariable`, `coincide_meet` and `coincide_expand`.
-/

namespace ClientTypes

namespace Law

variable {σ α β : Type} {L : Law σ} {pre pre' : σ → Prop}

/-- From states with the invariant and `pre` both computations do the same, and keep the law. -/
def Coincide (L : Law σ) (pre : σ → Prop) (m₁ m₂ : StateM σ α) : Prop :=
  L.Keeps pre m₁ (fun _ _ => True) ∧ ∀ s, L.inv s → pre s → m₁.run s = m₂.run s

/-- One state that has grown out of another under a law. -/
def Grown (L : Law σ) (pre : σ → Prop) (s₀ s₁ s₂ : σ) : Prop :=
  s₁ = s₂ ∧ L.inv s₁ ∧ pre s₁ ∧ L.le s₀ s₁

namespace Coincide

variable {m m₁ m₂ : StateM σ α}

theorem refl (h : L.Keeps pre m fun _ _ => True) : L.Coincide pre m m := ⟨h, fun _ _ _ => rfl⟩

theorem mono (h : L.Coincide pre m₁ m₂) (hpre : ∀ s, pre' s → pre s) : L.Coincide pre' m₁ m₂ :=
  ⟨h.1.mono hpre fun _ _ _ h => h, fun s hs hp => h.2 s hs (hpre s hp)⟩

theorem of_forall_not (h : ∀ s, ¬ pre s) : L.Coincide pre m₁ m₂ :=
  ⟨fun s _ hp => absurd hp (h s), fun s _ hp => absurd hp (h s)⟩

theorem pure (a : α) : L.Coincide pre (Pure.pure a) (Pure.pure a) :=
  refl (.pure fun _ _ _ => trivial)

/-- A look at the state, on both sides. -/
theorem read {f₁ f₂ : σ → StateM σ β}
    (h : ∀ s₀, L.Coincide (fun s => pre s ∧ s = s₀) (f₁ s₀) (f₂ s₀)) :
    L.Coincide pre (get >>= f₁) (get >>= f₂) :=
  ⟨.read fun s₀ => (h s₀).1, fun s hs hp => (h s).2 s hs ⟨hp, rfl⟩⟩

/-- Computations that coincide mirror each other in one state, wherever it has grown from. -/
theorem mirrors (hpre : L.Stable pre) (h : L.Coincide pre m₁ m₂) (s₀ : σ) :
    Mirrors (L.Grown pre s₀) m₁ m₂ := by
  rintro s _ ⟨rfl, hs, hp, hle₀⟩
  obtain ⟨hinv, hle, -⟩ := h.1 s hs hp
  have heq := h.2 s hs hp
  exact ⟨congrArg (·.1) heq, congrArg (·.2) heq, hinv, hpre hinv hle hp, L.trans hle₀ hle⟩

theorem of_mirrors (h : ∀ s₀, Mirrors (L.Grown pre s₀) m₁ m₂) : L.Coincide pre m₁ m₂ := by
  have hrun (s : σ) (hs : L.inv s) (hp : pre s) :=
    h s s s ⟨rfl, hs, hp, L.refl s⟩
  refine ⟨fun s hs hp => ?_, fun s hs hp => ?_⟩
  · obtain ⟨-, -, hinv, -, hle⟩ := hrun s hs hp
    exact ⟨hinv, hle, trivial⟩
  · obtain ⟨hfst, hsnd, -⟩ := hrun s hs hp
    exact Prod.ext hfst hsnd

end Coincide

end Law

namespace Resolver

variable {r₁ r₂ : Resolver} {P : TypeId → Prop}

/-! ## The parts of a type -/

section

variable {L : Law Chain} {pre : Chain → Prop} {inner₁ inner₂ : TypeId → Resolving Descriptor}
  (hr : r₁.SeesAlike r₂ P) (hpre : L.Stable pre)
  (h : ∀ i, P i → L.Coincide pre (inner₁ i) (inner₂ i))

include hr hpre h

theorem coincide_resolveVariable {v : Variable} (hv : ∀ i ∈ v.ids, P i) :
    L.Coincide pre (r₁.resolveVariable inner₁ v) (r₂.resolveVariable inner₂ v) :=
  .of_mirrors fun c₀ => mirrors_resolveVariable hr (fun i hi => (h i hi).mirrors hpre c₀) hv

theorem coincide_body {k : Kind} (hk : ∀ i ∈ k.links, P i) (id : TypeId) :
    L.Coincide pre (r₁.body inner₁ id k) (r₂.body inner₂ id k) :=
  .of_mirrors fun c₀ => mirrors_body hr (fun _ _ hc => congrArg (·.registry) hc.1)
    (fun i hi => (h i hi).mirrors hpre c₀) hk id

end

end Resolver

/-! ## Types -/

/-- Chains of which nothing is asked but that they grow. -/
def Chain.growth : Law Chain := Chain.law fun _ => True

namespace Resolver

variable {r₁ r₂ : Resolver} {P : TypeId → Prop} {pre pre' : Chain → Prop} {id : TypeId}
  {decl : TypeDecl} {name : QName}

theorem grows_hide : Chain.growth.Keeps pre (hide id decl) fun _ _ => True := by
  intro c _ _
  cases hname : decl.qname? with
  | none =>
    rw [hide_of_unnamed hname]
    exact ⟨trivial, .refl c, trivial⟩
  | some name =>
    rw [run_hide_of_named hname]
    exact ⟨trivial, Chain.extends_register _ c, trivial⟩

theorem grows_referBack : Chain.growth.Keeps pre (referBack id decl name) fun _ _ => True := by
  intro c _ _
  rw [run_referBack]
  split
  · exact ⟨trivial, Chain.extends_register _ c, trivial⟩
  · exact ⟨trivial, Chain.extends_note name c, trivial⟩

theorem grows_refer : Chain.growth.Keeps pre (Chain.refer name) fun _ _ => True :=
  fun c _ _ => ⟨trivial, Chain.extends_note name c, trivial⟩

/-- Two resolvers that know the same of an id differ on it only in how they expand it. -/
theorem coincide_meet (hr : r₁.SeesAlike r₂ P) (hid : P id)
    {expansion₁ expansion₂ : TypeId → TypeDecl → Resolving Descriptor}
    (h : ∀ decl, r₁.project.type? id = some decl →
      Chain.growth.Coincide (fun c => pre c ∧ id ∉ c.processing) (expansion₁ id decl)
        (expansion₂ id decl)) :
    Chain.growth.Coincide pre (r₁.meet expansion₁ id) (r₂.meet expansion₂ id) := by
  unfold meet
  rw [← hr.type? hid, ← hr.substitutions, ← hr.substitute?]
  split
  · exact .pure _
  · next decl hd =>
    refine .read fun c₀ => ?_
    split
    · exact .pure _
    · split
      · exact .refl grows_hide
      · have hexpand (hmem : id ∉ c₀.processing) :
            Chain.growth.Coincide (fun c => pre c ∧ c = c₀) (expansion₁ id decl)
              (expansion₂ id decl) :=
          (h decl hd).mono fun c hc => ⟨hc.1, hc.2 ▸ hmem⟩
        split
        · split
          · exact .refl grows_referBack
          · next hmem =>
            split
            · exact .refl grows_refer
            · exact hexpand hmem
        · split
          · exact .pure _
          · next hmem => exact hexpand hmem

/-- Expansions that resolve the body alike do the same. -/
theorem coincide_expand {inner₁ inner₂ : TypeId → Resolving Descriptor}
    (h : Chain.growth.Coincide pre' (r₁.body inner₁ id decl.kind) (r₂.body inner₂ id decl.kind))
    (hinside : ∀ c, pre c → pre' (c.inside id)) (henter : ∀ c ns, pre c → pre' (c.enter id ns)) :
    Chain.growth.Coincide pre (r₁.expand inner₁ id decl) (r₂.expand inner₂ id decl) := by
  constructor
  · exact .expand h.1
      (fun _ c _ hp => ⟨trivial, hinside c hp, fun _ _ _ _ _ => ⟨trivial, trivial⟩⟩)
      fun name _ c _ hp => ⟨trivial, henter c name.ns hp, fun _ _ _ _ _ => ⟨trivial, trivial⟩⟩
  · intro c _ hp
    cases hname : decl.qname? with
    | none =>
      obtain ⟨-, hle, -⟩ := h.1 _ trivial (hinside c hp)
      have heq := h.2 _ trivial (hinside c hp)
      rw [run_expand_of_unnamed hname hle, run_expand_of_unnamed hname (heq ▸ hle), heq]
    | some name =>
      obtain ⟨-, hle, -⟩ := h.1 _ trivial (henter c name.ns hp)
      have heq := h.2 _ trivial (henter c name.ns hp)
      rw [run_expand_of_named hname hle, run_expand_of_named hname (heq ▸ hle), heq]

/-- Two resolvers that know the same of some ids, and of all that these lead to, do the same with
them to any depth. -/
theorem coincide_resolveType (hr : r₁.SeesAlike r₂ P)
    (hlinks : ∀ id decl, P id → r₁.project.type? id = some decl → ∀ i ∈ decl.kind.links, P i)
    (n : Nat) (hid : P id) :
    Chain.growth.Coincide (fun _ => True) (r₁.resolveType n id) (r₂.resolveType n id) := by
  induction n generalizing id with
  | zero => exact coincide_meet hr hid fun _ _ => .pure _
  | succ n ih =>
    refine coincide_meet hr hid fun decl hd => ?_
    exact coincide_expand (coincide_body hr (Law.stable_const True) (fun i hi => ih hi)
      (hlinks id decl hid hd) id) (fun _ _ => trivial) fun _ _ _ => trivial

/-- From any chain whatever, resolution comes back to a later state of it. -/
theorem grows_resolveType (r : Resolver) (n : Nat) (id : TypeId) :
    Chain.growth.Keeps (fun _ => True) (r.resolveType n id) fun _ _ => True :=
  (coincide_resolveType (.refl r fun _ => True) (fun _ _ _ _ _ _ => trivial) n trivial).1

end Resolver

end ClientTypes

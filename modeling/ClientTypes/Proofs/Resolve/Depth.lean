import Mathlib.Data.Finset.Card
import ClientTypes.Proofs.Resolve.Coincide

/-!
# How deep expansions nest

A type is marked while it is being expanded, and a marked type is not expanded again. So expansions
nest at most as deep as there are types that are not marked at the start. A resolution that is
limited to so many nested expansions comes to no other result, whatever it would do beyond the
limit, and neither does one without a limit.

## Main definitions

* `Resolver.idle` — the types that are not being expanded
* `Resolver.resolveUpTo` — resolution with a limit, and with a way to go on beyond it
* `Resolver.Unlimited` — resolution without a limit
* `Resolver.Deep` — resolution whose limit, if any, is no less than a number

The main statement is `resolveRoot_nesting`.
-/

namespace ClientTypes

namespace Resolver

variable {r : Resolver} {c c' : Chain} {id : TypeId} {decl : TypeDecl} {n m : Nat}
  {f g : TypeId → Resolving Descriptor}

/-! ## Room -/

/-- The types of the project that are not being expanded. -/
def idle (r : Resolver) (c : Chain) : Finset TypeId :=
  (r.project.types.map (·.1)).toFinset.filter (· ∉ c.processing)

theorem mem_idle (hd : r.project.type? id = some decl) (hmem : id ∉ c.processing) :
    id ∈ r.idle c := by
  refine Finset.mem_filter.2 ⟨?_, hmem⟩
  exact List.mem_toFinset.2 (List.mem_map.2 ⟨_, Project.mem_types_of_type? hd, rfl⟩)

theorem idle_congr (hp : c'.processing = c.processing) : r.idle c' = r.idle c := by
  unfold idle
  rw [hp]

/-- Inside of an expansion there is less room than outside. -/
theorem card_idle_lt (hd : r.project.type? id = some decl) (hmem : id ∉ c.processing)
    (hp : c'.processing = id :: c.processing) : (r.idle c').card < (r.idle c).card := by
  have hsubset : r.idle c' ⊆ r.idle c := by
    unfold idle
    rw [hp]
    refine Finset.monotone_filter_right _ fun i _ hi => ?_
    exact fun h => hi (List.mem_cons_of_mem id h)
  refine Finset.card_lt_card ((Finset.ssubset_iff_of_subset hsubset).2 ⟨id, mem_idle hd hmem, ?_⟩)
  simp [idle, hp]

theorem card_idle_le_depthLimit : (r.idle c).card ≤ r.depthLimit :=
  calc (r.idle c).card
    _ ≤ (r.project.types.map (·.1)).toFinset.card := Finset.card_filter_le _ _
    _ ≤ (r.project.types.map (·.1)).length := List.toFinset_card_le _
    _ = r.depthLimit := List.length_map _

theorem stable_card_idle : Chain.growth.Stable fun c => (r.idle c).card ≤ n := by
  intro c c' _ hle hc
  rwa [idle_congr hle.processing]

/-! ## Limits -/

/-- Resolves a type id with at most `n` expansions inside one another; one more is handed to
`beyond`. -/
def resolveUpTo (r : Resolver) (beyond : TypeId → TypeDecl → Resolving Descriptor) :
    (n : Nat) → TypeId → Resolving Descriptor
  | 0 => r.meet beyond
  | n + 1 => r.meet (r.expand (r.resolveUpTo beyond n))

theorem resolveType_eq_resolveUpTo (r : Resolver) (n : Nat) :
    r.resolveType n = r.resolveUpTo (fun _ _ => return .bareOpaque) n := by
  induction n with
  | zero => rfl
  | succ n ih => rw [resolveType, resolveUpTo, ih]

/-- Resolution as it would be without a limit: whatever has to be expanded is expanded, and what is
met inside is resolved in the same way. -/
def Unlimited (r : Resolver) (f : TypeId → Resolving Descriptor) : Prop :=
  ∀ id, f id = r.meet (r.expand f) id

/-- The first `n` nested expansions are performed. -/
inductive Deep (r : Resolver) : Nat → (TypeId → Resolving Descriptor) → Prop
  | meet (expansion : TypeId → TypeDecl → Resolving Descriptor) : Deep r 0 (r.meet expansion)
  | expand {n : Nat} {f : TypeId → Resolving Descriptor} :
      Deep r n f → Deep r (n + 1) (r.meet (r.expand f))

theorem deep_resolveUpTo (beyond : TypeId → TypeDecl → Resolving Descriptor) (h : n ≤ m) :
    r.Deep n (r.resolveUpTo beyond m) := by
  induction n generalizing m with
  | zero => cases m with
    | zero => exact .meet beyond
    | succ m => exact .meet (r.expand (r.resolveUpTo beyond m))
  | succ n ih =>
    obtain ⟨m, rfl⟩ : ∃ k, m = k + 1 := ⟨m - 1, by omega⟩
    exact .expand (ih (by omega))

theorem deep_resolveType (h : n ≤ m) : r.Deep n (r.resolveType m) := by
  rw [resolveType_eq_resolveUpTo]
  exact deep_resolveUpTo _ h

theorem Unlimited.deep (h : r.Unlimited f) (n : Nat) : r.Deep n f := by
  have hf : f = r.meet (r.expand f) := funext h
  induction n with
  | zero =>
    rw [hf]
    exact .meet _
  | succ n ih =>
    rw [hf]
    exact .expand ih

/-- Where there is no more room than expansions that are performed, nothing else matters. -/
theorem Deep.coincide (hf : r.Deep n f) (hg : r.Deep n g) (id : TypeId) :
    Chain.growth.Coincide (fun c => (r.idle c).card ≤ n) (f id) (g id) := by
  have hr : r.SeesAlike r fun _ => True := .refl r _
  induction hf generalizing g id with
  | meet expansion =>
    cases hg with
    | meet expansion' =>
      -- The type would have to be one of those that are not being expanded, and there are none.
      refine coincide_meet hr trivial fun decl hd => .of_forall_not ?_
      rintro c ⟨hc, hmem⟩
      have hpos : 0 < (r.idle c).card := Finset.card_pos.2 ⟨id, mem_idle hd hmem⟩
      omega
  | @expand n f _ ih =>
    cases hg with
    | @expand _ g hg =>
      refine coincide_meet hr trivial fun decl hd => ?_
      refine coincide_expand (coincide_body hr stable_card_idle (fun i _ => ih hg i)
        (fun _ _ => trivial) id) ?_ ?_
      · rintro c ⟨hc, hmem⟩
        have hlt : (r.idle (c.inside id)).card < (r.idle c).card := card_idle_lt hd hmem rfl
        omega
      · rintro c ns ⟨hc, hmem⟩
        have hlt : (r.idle (c.enter id ns)).card < (r.idle c).card := card_idle_lt hd hmem rfl
        omega

theorem Deep.coincide_resolveVariable (hf : r.Deep n f) (hg : r.Deep n g) (v : Variable) :
    Chain.growth.Coincide (fun c => (r.idle c).card ≤ n) (r.resolveVariable f v)
      (r.resolveVariable g v) :=
  Resolver.coincide_resolveVariable (.refl r fun _ => True) stable_card_idle
    (fun i _ => hf.coincide hg i) fun _ _ => trivial

/-- The limit of a resolver is as good as none. -/
theorem unlimited_resolveType (r : Resolver) : r.Unlimited (r.resolveType r.depthLimit) := by
  intro id
  have hdeep : r.Deep r.depthLimit (r.meet (r.expand (r.resolveType r.depthLimit))) :=
    deep_resolveType (Nat.le_succ r.depthLimit)
  funext c
  exact ((deep_resolveType (Nat.le_refl r.depthLimit)).coincide hdeep id).2 c trivial
    card_idle_le_depthLimit

/-- From any chain, resolution comes back to the namespace, the direction and the types in expansion
that it started with, and keeps the imports noted before. It is resolution without a limit, and the
only one. Expansions never nest deeper than there are types not in expansion at the start: with so
many nested expansions allowed the outcome is the same, whatever would be done about one more. -/
theorem resolveRoot_nesting (r : Resolver) (v : Variable) (c : Chain) :
    let out := (r.resolveRoot v).run c
    (out.2.ns = c.ns ∧ out.2.direction = c.direction ∧ out.2.processing = c.processing ∧
      c.imports ⊆ out.2.imports) ∧
    r.Unlimited (r.resolveType r.depthLimit) ∧
    (∀ f, r.Unlimited f → (r.resolveVariable f v).run c = out) ∧
    ∀ beyond, (r.resolveVariable (r.resolveUpTo beyond (r.idle c).card) v).run c = out := by
  intro out
  have hroot : r.Deep (r.idle c).card (r.resolveType r.depthLimit) :=
    deep_resolveType card_idle_le_depthLimit
  have hout {f : TypeId → Resolving Descriptor} (hf : r.Deep (r.idle c).card f) :
      (r.resolveVariable f v).run c = out :=
    (hf.coincide_resolveVariable hroot v).2 c trivial (Nat.le_refl _)
  obtain ⟨-, hext, -⟩ :=
    (hroot.coincide_resolveVariable hroot v).1 c trivial (Nat.le_refl _)
  refine ⟨⟨hext.ns, hext.direction, hext.processing, hext.imports⟩, unlimited_resolveType r,
    fun f hf => hout (hf.deep _), fun beyond => hout (deep_resolveUpTo beyond (Nat.le_refl _))⟩

end Resolver

end ClientTypes

import Mathlib.Logic.Relation
import ClientTypes.Proofs.Resolve.Aspect
import ClientTypes.Proofs.Resolve.Meet

/-!
# Steady types

The body of a type takes over parts of other types: what it promotes, what it inlines because it has
no name. If such a type leads back to the one that takes it over, then what it shows depends on
which of the two is resolved first. A type is steady, in an aspect, if this does not happen to it
nor to the types that it takes over, and if the types that it mentions are treated alike in both
directions.

## Main definitions

* `Resolver.Leads` — a path of visits
* `Resolver.Behind` — what an alias goes by in the end
* `Resolver.Consults` — the types whose own bodies show in the body of a type
* `Resolver.OnwardAt` — no step leads back, as far as a number of them
* `Resolver.SteadyAt`, `Resolver.Steady` — nothing consulted leads back
-/

namespace ClientTypes

/-- Named types have distinct qualified names. -/
def Project.Distinct (p : Project) : Prop := ∀ i j q, p.Names i q → p.Names j q → i = j

theorem Project.distinct_of_forall {p : Project}
    (h : ∀ t ∈ p.types, ∀ u ∈ p.types, t.2.qname? = u.2.qname? → t.2.qname? = none ∨ t.1 = u.1) :
    p.Distinct := by
  rintro i j q ⟨decl, hd, hq⟩ ⟨decl', hd', hq'⟩
  have hsame := h _ (mem_types_of_type? hd) _ (mem_types_of_type? hd') (hq.trans hq'.symm)
  exact hsame.resolve_left (by simp [hq])

namespace Resolver

variable {r : Resolver} {a : Aspect} {id i j : TypeId} {decl : TypeDecl} {dir : Direction} {k : Nat}

/-- The expansion of a type visits another one, in some direction. -/
def Hands (r : Resolver) (id i : TypeId) : Prop :=
  ∃ dir decl, r.Opens dir id decl ∧ i ∈ r.visits id decl.kind

/-- A path of visits. -/
def Leads (r : Resolver) : TypeId → TypeId → Prop := Relation.ReflTransGen r.Hands

/-- Both directions treat a type alike: it controls its wire format in both or in neither. -/
def Even (r : Resolver) (id : TypeId) : Prop :=
  ∀ decl, r.project.type? id = some decl →
    Direction.outbound.isOverriddenBy decl.capabilities =
      Direction.inbound.isOverriddenBy decl.capabilities

def Unnamed (r : Resolver) (id : TypeId) : Prop :=
  ∃ decl, r.project.type? id = some decl ∧ decl.qname? = none

/-- A type itself, and behind an alias what it stands for, and so on. -/
inductive Behind (r : Resolver) : TypeId → TypeId → Prop
  | refl (id : TypeId) : Behind r id id
  | link {id link last : TypeId} {dir : Direction} {decl : TypeDecl} {links : AliasLinks} :
      r.Opens dir id decl → decl.kind = .aliasOf links → r.usableLink? id links = some link →
        Behind r link last → Behind r id last

/-- The types whose own bodies show in the body of a type: the unnamed ones that it mentions, and
the ones behind which it reads. -/
def Consults (r : Resolver) (a : Aspect) (id i : TypeId) : Prop :=
  ∃ dir decl, r.Opens dir id decl ∧
    ((i ∈ r.mentions a id decl.kind ∧ r.Unnamed i) ∨ ∃ j ∈ r.reads a decl.kind, r.Behind j i)

/-- As far as a number of steps one behind the other, no step leads back to where it starts, and
both directions treat the types on the way alike, and those in sight of them. -/
def OnwardAt (r : Resolver) (sight : TypeId → Kind → List TypeId)
    (step : TypeId → TypeId → Prop) : Nat → TypeId → Prop
  | 0, _ => False
  | k + 1, id => r.Even id ∧
      (∀ dir decl, r.Opens dir id decl → ∀ i ∈ sight id decl.kind, r.Even i) ∧
      ∀ i, step id i → ¬ r.Leads i id ∧ OnwardAt r sight step k i

/-- Steady as far as a number of consultations one behind the other. -/
def SteadyAt (r : Resolver) (a : Aspect) : Nat → TypeId → Prop :=
  r.OnwardAt (r.mentions a) (r.Consults a)

/-- Nothing that the body of a type takes over leads back to where it is taken over. -/
def Steady (r : Resolver) (a : Aspect) (id : TypeId) : Prop := ∃ k, r.SteadyAt a k id

namespace OnwardAt

variable {sight : TypeId → Kind → List TypeId} {step : TypeId → TypeId → Prop}

theorem even (h : r.OnwardAt sight step k id) : r.Even id := by
  cases k with
  | zero => exact h.elim
  | succ k => exact h.1

theorem succ (h : r.OnwardAt sight step k id) : r.OnwardAt sight step (k + 1) id := by
  induction k generalizing id with
  | zero => exact h.elim
  | succ k ih => exact ⟨h.1, h.2.1, fun i hi => ⟨(h.2.2 i hi).1, ih (h.2.2 i hi).2⟩⟩

theorem mono {n : Nat} (h : r.OnwardAt sight step k id) (hk : k ≤ n) :
    r.OnwardAt sight step n id := by
  induction hk with
  | refl => exact h
  | step _ ih => exact ih.succ

end OnwardAt

/-! ## Projects without cycles -/

theorem Behind.leads (h : r.Behind id i) : r.Leads id i := by
  induction h with
  | refl => exact .refl
  | link ho hk hl _ ih => exact .head ⟨_, _, ho, by rw [hk]; simp [visits, hl]⟩ ih

/-- What a type consults lies behind what it visits. -/
theorem Consults.exists_hands (h : r.Consults a id i) : ∃ j, r.Hands id j ∧ r.Leads j i := by
  obtain ⟨dir, decl, ho, ⟨hi, -⟩ | ⟨j, hj, hji⟩⟩ := h
  · exact ⟨i, ⟨dir, decl, ho, mentions_subset_visits a id _ hi⟩, .refl⟩
  · exact ⟨j, ⟨dir, decl, ho, reads_subset_visits a id _ hj⟩, hji.leads⟩

section

variable {rank : TypeId → Nat}
  (h : ∀ t ∈ r.project.types, ∀ i ∈ r.visits t.1 t.2.kind, rank i < rank t.1)

include h

theorem Leads.rank_le (hl : r.Leads id i) : rank i ≤ rank id := by
  induction hl with
  | refl => exact Nat.le_refl _
  | tail _ hi ih =>
    obtain ⟨dir, decl, ho, hi⟩ := hi
    exact Nat.le_trans (Nat.le_of_lt (h _ (Project.mem_types_of_type? ho.declared) _ hi)) ih

variable (heven : ∀ t ∈ r.project.types,
  Direction.outbound.isOverriddenBy t.2.capabilities =
    Direction.inbound.isOverriddenBy t.2.capabilities)

include heven

/-- Where visits go down in rank, so that there are no cycles, and where both directions treat all
types alike, no step leads back that is made of visits. -/
theorem onwardAt_of_rank (sight : TypeId → Kind → List TypeId) {step : TypeId → TypeId → Prop}
    (hstep : ∀ i j, step i j → ∃ next, r.Hands i next ∧ r.Leads next j) (id : TypeId) :
    r.OnwardAt sight step (rank id + 1) id := by
  have heven (id : TypeId) : r.Even id := fun decl hd => heven _ (Project.mem_types_of_type? hd)
  induction hn : rank id using Nat.strongRecOn generalizing id with
  | ind n ih =>
    refine ⟨heven id, fun _ _ _ i _ => heven i, fun i hi => ?_⟩
    obtain ⟨next, ⟨dir, decl, ho, hnext⟩, hbehind⟩ := hstep id i hi
    have hlt : rank i < rank id := Nat.lt_of_le_of_lt (Leads.rank_le h hbehind)
      (h _ (Project.mem_types_of_type? ho.declared) _ hnext)
    refine ⟨fun hback => ?_, (ih _ (hn ▸ hlt) i rfl).mono (hn ▸ hlt)⟩
    have := Leads.rank_le h hback
    omega

theorem steady_of_rank (a : Aspect) (id : TypeId) : r.Steady a id :=
  ⟨_, onwardAt_of_rank h heven (r.mentions a) (fun _ _ => Consults.exists_hands) id⟩

end

/-! ## Even types -/

theorem Even.isOverriddenBy_eq (h : r.Even id) (hd : r.project.type? id = some decl)
    (dir dir' : Direction) :
    dir.isOverriddenBy decl.capabilities = dir'.isOverriddenBy decl.capabilities := by
  have := h decl hd
  cases dir <;> cases dir' <;> simp_all

theorem Even.opens (h : r.Even id) (ho : r.Opens dir id decl) (dir' : Direction) :
    r.Opens dir' id decl :=
  ⟨ho.declared, ho.unsubstituted, h.isOverriddenBy_eq ho.declared dir' dir ▸ ho.opened⟩

theorem Even.hides (h : r.Even id) (hh : r.Hides dir id decl) (dir' : Direction) :
    r.Hides dir' id decl :=
  ⟨hh.declared, hh.unsubstituted, h.isOverriddenBy_eq hh.declared dir' dir ▸ hh.hidden⟩

/-! ## Types that do not control their wire format -/

theorem even_of_plain (hd : r.project.type? id = some decl) (hplain : decl.capabilities = {}) :
    r.Even id := by
  intro decl' hd'
  obtain rfl : decl' = decl := Option.some.inj (hd'.symm.trans hd)
  rw [hplain]
  rfl

theorem opens_of_capabilities (hd : r.project.type? id = some decl)
    (hs : r.substitute? decl = none) (hplain : decl.capabilities = {})
    (hk : decl.kind.isFormless = false) (dir : Direction) : r.Opens dir id decl := by
  refine ⟨hd, hs, ?_⟩
  rw [hplain, hk]
  cases dir <;> rfl

/-! ## Answers by name -/

/-- The answer for a type that needs no look inside: every type but an unnamed one of known
format. -/
def answer? (r : Resolver) (dir : Direction) (id : TypeId) : Option Descriptor :=
  match r.project.type? id with
  | none => some (r.substitutions.guess id.text)
  | some decl =>
    match r.substitute? decl with
    | some s => some s.descriptor
    | none =>
      if dir.isOverriddenBy decl.capabilities || decl.kind.isFormless then
        some ((decl.qname?.map Descriptor.opaqueAs).getD .bareOpaque)
      else decl.qname?.map Descriptor.named

theorem answer?_of_hides (h : r.Hides dir id decl) :
    r.answer? dir id = some ((decl.qname?.map Descriptor.opaqueAs).getD .bareOpaque) := by
  simp only [answer?, h.declared, h.unsubstituted]
  rw [if_pos h.hidden]

theorem answer?_of_opens (h : r.Opens dir id decl) :
    r.answer? dir id = decl.qname?.map Descriptor.named := by
  simp only [answer?, h.declared, h.unsubstituted]
  rw [if_neg (by simp [h.opened])]

theorem Even.answer?_eq (h : r.Even id) (dir dir' : Direction) :
    r.answer? dir id = r.answer? dir' id := by
  unfold answer?
  cases hd : r.project.type? id with
  | none => rfl
  | some decl => simp only [h.isOverriddenBy_eq hd dir dir']

/-- The answer for a named type refers to its name. -/
theorem exists_answer?_of_named (hd : r.project.type? id = some decl) {q : QName}
    (hq : decl.qname? = some q) (hs : r.substitute? decl = none) (dir : Direction) :
    ∃ d, r.answer? dir id = some d ∧ d.shape.reference? = some q := by
  by_cases ho : (dir.isOverriddenBy decl.capabilities || decl.kind.isFormless) = true
  · exact ⟨_, answer?_of_hides ⟨hd, hs, ho⟩, by rw [hq]; rfl⟩
  · exact ⟨.named q, by rw [answer?_of_opens ⟨hd, hs, by simpa using ho⟩, hq]; rfl, rfl⟩

/-- Only unnamed types of known format have no answer by name. -/
theorem exists_opens_of_answer?_eq_none (h : r.answer? dir id = none) :
    ∃ decl, r.Opens dir id decl ∧ decl.qname? = none := by
  unfold answer? at h
  split at h
  · simp at h
  · next decl hd =>
    split at h
    · simp at h
    · next hs =>
      split at h
      · simp at h
      · next ho => exact ⟨decl, ⟨hd, hs, by simpa using ho⟩, by simpa using h⟩

/-- An answer that is a name is the type's own. -/
theorem opens_of_answer?_named {d : Descriptor} {q : QName} (h : r.answer? dir id = some d)
    (hq : d.shape = .named q) : ∃ decl, r.Opens dir id decl ∧ decl.qname? = some q := by
  unfold answer? at h
  split at h
  · simp only [Option.some.injEq] at h
    have := (r.substitutions.elementary_guess id.text).reference?_eq_none
    rw [h] at this
    simp [hq, Shape.reference?] at this
  · next decl hd =>
    split at h
    · next s hs =>
      simp only [Option.some.injEq] at h
      have := s.elementary_descriptor.reference?_eq_none
      rw [h] at this
      simp [hq, Shape.reference?] at this
    · next hs =>
      split at h
      · simp only [Option.some.injEq] at h
        subst h
        cases hn : decl.qname? <;> simp [hn, Descriptor.opaqueAs, Descriptor.bareOpaque] at hq
      · next ho =>
        obtain ⟨q', hq', rfl⟩ := Option.map_eq_some_iff.1 h
        obtain rfl : q' = q := by simpa [Descriptor.named] using hq
        exact ⟨decl, ⟨hd, hs, by simpa using ho⟩, hq'⟩

end Resolver

end ClientTypes

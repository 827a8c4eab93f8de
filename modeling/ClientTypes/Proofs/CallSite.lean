import ClientTypes.Proofs.Pass.Unreached

/-!
# Containers at a use of a type

An array or a map can be declared as a type of its own without a name, or be spelled out where it is
used. The two are resolved by different paths: while the parts of the declared one are resolved it
is marked as being expanded, and nothing is marked for the other. Only a path in the type graph
from the parts back to the container would notice, and where there is none both come to the same.

## Main definitions

* `Variable.Spells` — a variable that spells out the container that a type is
* `Chain.Beside` — two chains that differ in what is being expanded and in nothing else

The main statement is `resolve_eq_resolveRoot`.
-/

namespace ClientTypes

/-- The variable spells out the container that the type with the given id and kind is: the element
of an array with its length and the pointers inside, or the key and the value of a map with the
pointers inside. -/
inductive Variable.Spells (id : TypeId) : Kind → Variable → Prop
  | array {a : ArrayType} {v : Variable} : v.isSequence = true → v.isMap = false →
      v.type = a.elem → v.arrayLen = a.len → v.elemPointers = a.elemPointers →
      Spells id (.array a) v
  | map {m : MapType} {v : Variable} : v.isSequence = false → v.type = id →
      v.mapKey = some m.key → v.mapValue = some m.value → v.elemPointers = m.valuePointers →
      Spells id (.map m) v

theorem Variable.Spells.isFormless {id : TypeId} {k : Kind} {v : Variable} (h : v.Spells id k) :
    k.isFormless = false := by
  cases h <;> rfl

/-! ## Chains beside each other -/

/-- The chain with other types in expansion. -/
def Chain.marking (p : List TypeId) (c : Chain) : Chain := { c with processing := p }

/-- Two chains with these types in expansion that have everything else in common. -/
def Chain.Beside (p₁ p₂ : List TypeId) (c₁ c₂ : Chain) : Prop :=
  c₁.processing = p₁ ∧ c₂ = c₁.marking p₂

namespace Mirrors

variable {α : Type} {p₁ p₂ : List TypeId} {m₁ m₂ : Resolving α}

theorem beside_update {f : Chain → Chain} (hf : ∀ c p, f (c.marking p) = (f c).marking p) :
    Mirrors (Chain.Beside p₁ p₂) (modify f) (modify f) := by
  refine .update ?_
  rintro c _ ⟨rfl, rfl⟩
  exact ⟨congrArg (·.processing) (hf c c.processing), hf c p₂⟩

theorem beside_note (name : QName) :
    Mirrors (Chain.Beside p₁ p₂) (modify (Chain.note name)) (modify (Chain.note name)) := by
  refine beside_update fun c p => ?_
  unfold Chain.note Chain.marking
  split <;> rfl

theorem beside_offer (d : Definition) :
    Mirrors (Chain.Beside p₁ p₂) (modify (Chain.offer d)) (modify (Chain.offer d)) :=
  beside_update fun _ _ => rfl

theorem beside_refer (name : QName) :
    Mirrors (Chain.Beside p₁ p₂) (Chain.refer name) (Chain.refer name) :=
  .bind (beside_note name) fun _ => .pure _

theorem beside_expanding {id : TypeId} (h : Mirrors (Chain.Beside (id :: p₁) (id :: p₂)) m₁ m₂) :
    Mirrors (Chain.Beside p₁ p₂) (Chain.expanding id m₁) (Chain.expanding id m₂) := by
  rintro c _ ⟨rfl, rfl⟩
  obtain ⟨heq, hp, hc⟩ := h (c.inside id) ((c.marking p₂).inside id) ⟨rfl, rfl⟩
  rw [Chain.run_expanding_eq, Chain.run_expanding_eq, hc]
  exact ⟨heq, by simp [hp], by simp [Chain.marking]⟩

theorem beside_within {ns : String} (h : Mirrors (Chain.Beside p₁ p₂) m₁ m₂) :
    Mirrors (Chain.Beside p₁ p₂) (Chain.within ns m₁) (Chain.within ns m₂) := by
  rintro c _ ⟨rfl, rfl⟩
  obtain ⟨heq, hp, hc⟩ :=
    h { c with ns, imports := [] } (Chain.marking p₂ { c with ns, imports := [] }) ⟨rfl, rfl⟩
  rw [Chain.run_within_eq, Chain.run_within_eq]
  refine ⟨heq, hp, ?_⟩
  exact congrArg (fun c' : Chain => { c' with ns := c.ns, imports := c.imports }) hc

/-- What depends on the state in the same way on both sides. -/
theorem beside_read {f₁ f₂ : Chain → Resolving α}
    (h : ∀ c, c.processing = p₁ → Mirrors (Chain.Beside p₁ p₂) (f₁ c) (f₂ (c.marking p₂))) :
    Mirrors (Chain.Beside p₁ p₂) (get >>= f₁) (get >>= f₂) := by
  rintro c _ ⟨hp, rfl⟩
  exact h c hp c _ ⟨hp, rfl⟩

end Mirrors

/-! ## Types that do not lead to what is marked -/

namespace Resolver

variable {r : Resolver} {P : TypeId → Prop} {p₁ p₂ : List TypeId} {id : TypeId} {decl : TypeDecl}
  {v : Variable} {c : Chain}

theorem beside_hide (id : TypeId) (decl : TypeDecl) :
    Mirrors (Chain.Beside p₁ p₂) (hide id decl) (hide id decl) := by
  unfold hide
  split
  · exact .pure _
  · exact .bind (.beside_offer _) fun _ => .bind (.beside_note _) fun _ => .pure _

theorem beside_referBack (id : TypeId) (decl : TypeDecl) (name : QName) :
    Mirrors (Chain.Beside p₁ p₂) (referBack id decl name) (referBack id decl name) := by
  unfold referBack
  split
  · exact .bind (.beside_offer _) fun _ => .beside_refer name
  · exact .beside_refer name

theorem beside_meet {expansion₁ expansion₂ : TypeId → TypeDecl → Resolving Descriptor}
    (hid : id ∈ p₁ ↔ id ∈ p₂) (h : ∀ decl, r.project.type? id = some decl →
      Mirrors (Chain.Beside p₁ p₂) (expansion₁ id decl) (expansion₂ id decl)) :
    Mirrors (Chain.Beside p₁ p₂) (r.meet expansion₁ id) (r.meet expansion₂ id) := by
  unfold meet
  split
  · exact .pure _
  · next decl hd =>
    refine .beside_read fun c hc => ?_
    have hmem : id ∈ c.processing ↔ id ∈ (c.marking p₂).processing := hc ▸ hid
    split
    · exact .pure _
    · refine .ite .rfl (beside_hide id decl) ?_
      split
      · next name _ =>
        refine .ite hmem (beside_referBack id decl name) ?_
        exact .ite .rfl (.beside_refer name) (h decl hd)
      · exact .ite hmem (.pure _) (h decl hd)

theorem beside_expand {inner₁ inner₂ : TypeId → Resolving Descriptor}
    (h : Mirrors (Chain.Beside (id :: p₁) (id :: p₂)) (r.body inner₁ id decl.kind)
      (r.body inner₂ id decl.kind)) :
    Mirrors (Chain.Beside p₁ p₂) (r.expand inner₁ id decl) (r.expand inner₂ id decl) := by
  unfold expand
  split
  · exact .bind (.beside_expanding h) fun _ => .pure _
  · refine .bind (.beside_expanding (.beside_within h)) fun body => ?_
    refine .bind (.beside_offer _) fun _ => ?_
    exact .bind (.beside_update fun _ _ => rfl) fun _ => .beside_refer _

/-- What does not lead to a type whose mark the chains differ in is resolved alike in both. -/
theorem beside_resolveType
    (hlinks : ∀ id decl, P id → r.project.type? id = some decl → ∀ i ∈ decl.kind.links, P i)
    (hp : ∀ i, P i → (i ∈ p₁ ↔ i ∈ p₂)) (n : Nat) (hid : P id) :
    Mirrors (Chain.Beside p₁ p₂) (r.resolveType n id) (r.resolveType n id) := by
  induction n generalizing id p₁ p₂ with
  | zero => exact beside_meet (hp id hid) fun _ _ => .pure _
  | succ n ih =>
    refine beside_meet (hp id hid) fun decl hd => beside_expand ?_
    have hp' (i : TypeId) (hi : P i) : i ∈ id :: p₁ ↔ i ∈ id :: p₂ := by
      simp only [List.mem_cons, hp i hi]
    refine mirrors_body (.refl r P) ?_ (fun i hi => ih hp' hi) (hlinks id decl hid hd) id
    rintro c _ ⟨-, rfl⟩
    rfl

/-! ## The two paths -/

/-- A variable that spells out a container comes to the body of that container, in place. -/
theorem resolveVariable_of_spells (inner : TypeId → Resolving Descriptor)
    (hmap : r.isNamedMap id = false) {k : Kind} (hv : v.Spells id k) :
    r.resolveVariable inner v = do
      return (← r.body inner id k).inlined.withPointers v.pointers := by
  cases hv with
  | @array a _ hseq hm htype hlen hptr =>
    have helem : r.resolveItem inner v.element =
        do return (← inner a.elem).withPointers a.elemPointers := by
      rw [← htype, ← hptr]
      exact resolveItem_of_not_map inner hm
    simp only [resolveVariable, body, arrayShape, hseq, hm, htype, hlen, hptr, helem]
    by_cases hbytes : (a.len.isNone && a.elemPointers == 0 && r.isByte a.elem) = true <;>
      simp [hbytes, Body.inlined]
  | @map m _ hseq htype hkey hvalue hptr =>
    simp [resolveVariable, resolveItem, body, mapShape, hseq, htype, hkey, hvalue, hptr, hmap,
      Body.inlined]

/-- The mark of a type is not noticed by its parts if they do not lead back to it. -/
theorem beside_body {p : List TypeId} {k : Kind} (n : Nat)
    (hback : ∀ i ∈ k.links, ¬ r.project.Connects i id) :
    Mirrors (Chain.Beside (id :: p) p) (r.body (r.resolveType n) id k)
      (r.body (r.resolveType n) id k) := by
  let P (i : TypeId) : Prop := ∃ part ∈ k.links, r.project.Connects part i
  have hlinks (i : TypeId) (decl : TypeDecl) : P i → r.project.type? i = some decl →
      ∀ next ∈ decl.kind.links, P next := by
    rintro ⟨part, hpart, hpath⟩ hd next hnext
    exact ⟨part, hpart, hpath.tail ⟨decl, hd, Kind.mem_links.1 hnext⟩⟩
  have hmark (i : TypeId) : P i → (i ∈ id :: p ↔ i ∈ p) := by
    rintro ⟨part, hpart, hpath⟩
    have hne : i ≠ id := by
      rintro rfl
      exact hback part hpart hpath
    simp [hne]
  refine mirrors_body (.refl r P) ?_ (fun i hi => beside_resolveType hlinks hmark n hi)
    (fun i hi => ⟨i, hi, .refl⟩) id
  rintro c _ ⟨-, rfl⟩
  rfl

/-- A type without a name that nothing notices the mark of comes to its body, in place. -/
theorem run_expand_of_mirrors {inner : TypeId → Resolving Descriptor} (hname : decl.qname? = none)
    (h : Mirrors (Chain.Beside (id :: c.processing) c.processing) (r.body inner id decl.kind)
      (r.body inner id decl.kind)) :
    (r.expand inner id decl).run c = (Body.inlined <$> r.body inner id decl.kind).run c := by
  obtain ⟨heq, hp, hc⟩ := h (c.inside id) c ⟨rfl, rfl⟩
  simp only [expand, hname]
  rw [StateT.run_bind, Chain.run_expanding_eq, heq, hp, List.erase_cons_head, StateT.run_map]
  refine Prod.ext rfl ?_
  exact hc.symm

/-- An array or a map without a name that its parts do not lead back to, and a variable that spells
it out, come to the same behind the same pointers: the same descriptor, and the same chain, with its
registry and its imports. -/
theorem resolve_eq_resolveRoot (r : Resolver) (hd : r.project.type? id = some decl)
    (hname : decl.qname? = none) (hcap : decl.capabilities = {}) (hv : v.Spells id decl.kind)
    (hback : ∀ i ∈ decl.kind.links, ¬ r.project.Connects i id) (hc : id ∉ c.processing) :
    (r.resolve id v.pointers).run c = (r.resolveRoot v).run c := by
  have hopens : r.Opens c.direction id decl := by
    refine ⟨hd, by simp [substitute?, hname], ?_⟩
    rw [hcap, hv.isFormless]
    cases c.direction <;> rfl
  have hmap : r.isNamedMap id = false := by
    obtain ⟨package, name, kind, capabilities, doc⟩ := decl
    cases hv <;> simp [isNamedMap, hd, TypeDecl.isNamed, hname]
  have hid : (r.resolveType r.depthLimit id).run c =
      (Body.inlined <$> r.body (r.resolveType r.depthLimit) id decl.kind).run c := by
    rw [unlimited_resolveType r id, run_meet_of_unnamed hopens hname, if_neg hc,
      run_expand_of_mirrors hname (beside_body _ hback)]
  rw [resolve, resolveRoot, resolveVariable_of_spells _ hmap hv, StateT.run_bind, hid,
    StateT.run_map, StateT.run_bind]
  rfl

end Resolver

/-! ## A price list -/

namespace Tariff

def price : TypeDecl where
  package := some "shop"
  name := some "Price"
  kind := .struct [{ var := { name := "Cents", type := ⟨"int64"⟩ } }]

/-- Prices by article, without a name. -/
def prices : TypeDecl where
  kind := .map { key := ⟨"string"⟩, value := ⟨"Price"⟩, valuePointers := 1 }

/-- Nestings of brackets, without a name either. -/
def nesting : TypeDecl where
  kind := .array { elem := ⟨"nesting"⟩ }

def resolver : Resolver where
  project := {
    path := "shop"
    types := [(⟨"prices"⟩, prices), (⟨"Price"⟩, price), (⟨"nesting"⟩, nesting)] }
  substitutions := {}
  tagKey := "json"

/-- A pointer to a price list, spelled out. -/
def argument : Variable where
  type := ⟨"prices"⟩
  pointers := 1
  elemPointers := 1
  mapKey := some ⟨"string"⟩
  mapValue := some ⟨"Price"⟩

theorem resolve_prices :
    (prices.qname? = none ∧ argument.Spells ⟨"prices"⟩ prices.kind ∧
      ∀ i ∈ prices.kind.links, ¬ resolver.project.Connects i ⟨"prices"⟩) ∧
    (resolver.resolve ⟨"prices"⟩ 1).run { ns := "shop", direction := .outbound, registry := {} } =
      (resolver.resolveRoot argument).run
        { ns := "shop", direction := .outbound, registry := {} } := by
  have hspells : argument.Spells ⟨"prices"⟩ prices.kind := .map rfl rfl rfl rfl rfl
  let parts : List TypeId := [⟨"string"⟩, ⟨"Price"⟩, ⟨"int64"⟩]
  have hlinks : ∀ id ∈ parts, ∀ decl ∈ resolver.project.type? id,
      ∀ i ∈ decl.kind.links, i ∈ parts := by
    decide
  have hparts : ∀ i ∈ prices.kind.links, i ∈ parts := by decide
  have hback (i : TypeId) (hi : i ∈ prices.kind.links) :
      ¬ resolver.project.Connects i ⟨"prices"⟩ := by
    intro hpath
    have hend : ⟨"prices"⟩ ∈ parts :=
      hpath.of_links (hparts i hi) fun id decl hid hd => hlinks id hid decl hd
    exact absurd hend (by decide)
  exact ⟨⟨rfl, hspells, hback⟩,
    resolver.resolve_eq_resolveRoot rfl rfl rfl hspells hback (by decide)⟩

/-- Where the element leads back to the array, the array itself ends it one step sooner. -/
example :
    ((resolver.resolve ⟨"nesting"⟩ 0).run { ns := "", direction := .outbound, registry := {} }).1 =
      .array .bareOpaque ∧
    ((resolver.resolveRoot { type := ⟨"nesting"⟩, slice := true }).run
      { ns := "", direction := .outbound, registry := {} }).1 = .array (.array .bareOpaque) := by
  cbv

end Tariff

end ClientTypes

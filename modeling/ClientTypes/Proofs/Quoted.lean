import ClientTypes.Proofs.Amid
import ClientTypes.Proofs.Resolve.Agreement

/-!
# Scalars that travel as text

With the option `string` a property of a scalar type is text. Behind the name of its type, one
definition is looked at. So the scalar is found where it is this definition, or stands in it because
it has no name itself; it is not found where that definition goes on to another name.

## Main definitions

* `Resolver.ScalarBehind` — a type at the end of whose aliases there is a scalar
* `Resolver.AtHand` — the scalar behind a type is found in one step

The main statement is `shape_property_iff_atHand`.
-/

namespace ClientTypes

namespace Resolver

variable {r : Resolver} {I : Registry → Prop} {id i : TypeId} {decl : TypeDecl} {n : Nat}
  {c : Chain} {s : Scalar} {q : QName} {d t : Descriptor} {reg : Registry}

/-! ## Quotable descriptors -/

theorem isQuotable_descriptor (hs : s.isInteger ∨ s.isFloat ∨ s = .bool) :
    isQuotable s.descriptor = true := by
  cases s <;> simp_all [Scalar.isInteger, Scalar.isFloat] <;> rfl

theorem isFormless_scalar (hs : s.isInteger ∨ s.isFloat ∨ s = .bool) :
    (Kind.scalar s).isFormless = false := by
  cases s <;> simp_all [Scalar.isInteger, Scalar.isFloat] <;> rfl

theorem shape_stringEncoded_of_isQuotable (reg : Registry) (hd : isQuotable d = true) :
    (stringEncoded reg d).shape = .builtin .string := by
  unfold stringEncoded
  split
  · next q hq => simp [isQuotable, hq] at hd
  · simp [hd]

/-- Behind a name it is the target of the alias that counts. -/
theorem shape_stringEncoded_named_iff (hd : d.shape = .named q)
    (hb : reg.body? q = some (.aliasOf t)) :
    (stringEncoded reg d).shape = .builtin .string ↔ isQuotable t = true := by
  unfold stringEncoded
  simp only [hd, hb]
  cases isQuotable t <;> simp [hd]

theorem stringEncoded_withPointers (reg : Registry) (d : Descriptor) (k : Nat) :
    stringEncoded reg (d.withPointers k) = (stringEncoded reg d).withPointers k := by
  have hite (quotable : Bool) :
      (if quotable then { d.withPointers k with shape := .builtin .string }
        else d.withPointers k) =
      (if quotable then { d with shape := .builtin .string } else d : Descriptor).withPointers
        k := by
    cases quotable <;> rfl
  exact hite _

/-! ## Behind aliases -/

/-- A declared type that is not substituted and has no say in its wire format. -/
structure Ordinary (r : Resolver) (id : TypeId) (decl : TypeDecl) : Prop where
  declared : r.project.type? id = some decl
  unsubstituted : r.substitute? decl = none
  plain : decl.capabilities = {}

/-- A type at the end of whose aliases there is a scalar. The aliases have names. -/
inductive ScalarBehind (r : Resolver) (s : Scalar) : TypeId → Prop
  | scalar {id : TypeId} {decl : TypeDecl} :
      r.Ordinary id decl → decl.kind = .scalar s → ScalarBehind r s id
  | link {id target : TypeId} {decl : TypeDecl} {links : AliasLinks} :
      r.Ordinary id decl → decl.isNamed → decl.kind = .aliasOf links →
        links.target = some target → ScalarBehind r s target → ScalarBehind r s id

/-- The scalar behind a type is found in one step: the type is a scalar, or an alias of a type
without a name. -/
def AtHand (r : Resolver) (id : TypeId) : Prop :=
  ∃ decl, r.project.type? id = some decl ∧ ((∃ s, decl.kind = .scalar s) ∨
    ∃ links target, decl.kind = .aliasOf links ∧ links.target = some target ∧ r.Unnamed target)

theorem Ordinary.decl_eq (h : r.Ordinary id decl) {decl' : TypeDecl}
    (h' : r.project.type? id = some decl') : decl' = decl :=
  Option.some.inj (h'.symm.trans h.declared)

theorem Ordinary.even (h : r.Ordinary id decl) : r.Even id := even_of_plain h.declared h.plain

theorem Ordinary.opens (h : r.Ordinary id decl) (hk : decl.kind.isFormless = false)
    (dir : Direction) : r.Opens dir id decl :=
  opens_of_capabilities h.declared h.unsubstituted h.plain hk dir

theorem ScalarBehind.exists_ordinary (h : r.ScalarBehind s id) : ∃ decl, r.Ordinary id decl ∧
    (decl.kind = .scalar s ∨ ∃ links, decl.kind = .aliasOf links) := by
  cases h with
  | scalar ho hk => exact ⟨_, ho, .inl hk⟩
  | link ho _ hk _ _ => exact ⟨_, ho, .inr ⟨_, hk⟩⟩

theorem ScalarBehind.exists_opens (hs : s.isInteger ∨ s.isFloat ∨ s = .bool)
    (h : r.ScalarBehind s id) : ∃ decl, r.Ordinary id decl ∧ ∀ dir, r.Opens dir id decl := by
  obtain ⟨decl, ho, hk | ⟨links, hk⟩⟩ := h.exists_ordinary
  · exact ⟨decl, ho, ho.opens (by rw [hk, isFormless_scalar hs])⟩
  · exact ⟨decl, ho, ho.opens (by rw [hk]; rfl)⟩

/-- A type without a name is no alias here. -/
theorem ScalarBehind.kind_of_unnamed (h : r.ScalarBehind s id)
    (hd : r.project.type? id = some decl) (hname : decl.qname? = none) :
    decl.kind = .scalar s := by
  cases h with
  | scalar ho hk =>
    obtain rfl := ho.decl_eq hd
    exact hk
  | link ho hnamed _ _ _ =>
    obtain rfl := ho.decl_eq hd
    simp [TypeDecl.isNamed, hname] at hnamed

/-- An alias of itself would have nothing at its end. -/
theorem ScalarBehind.target_ne (h : r.ScalarBehind s id) (hd : r.project.type? id = some decl)
    {links : AliasLinks} (hk : decl.kind = .aliasOf links) : links.target ≠ some id := by
  induction h with
  | scalar ho hk' =>
    obtain rfl := ho.decl_eq hd
    simp [hk] at hk'
  | link ho _ hk' ht _ ih =>
    obtain rfl := ho.decl_eq hd
    obtain rfl := Kind.aliasOf.inj (hk'.symm.trans hk)
    intro hself
    obtain rfl := Option.some.inj (ht.symm.trans hself)
    exact ih hd hself

/-- What it is an alias of is what an alias goes by. -/
theorem ScalarBehind.usableLink?_eq (h : r.ScalarBehind s id)
    (hd : r.project.type? id = some decl) {links : AliasLinks} (hk : decl.kind = .aliasOf links)
    {target : TypeId} (ht : links.target = some target) (hb : r.ScalarBehind s target) :
    r.usableLink? id links = some target := by
  obtain ⟨declT, ho, -⟩ := hb.exists_ordinary
  have hne : target ≠ id := fun hself => h.target_ne hd hk (hself ▸ ht)
  simp [usableLink?, ht, hne, ho.declared]

/-- All that such a type leads to is such a type. -/
theorem ScalarBehind.of_leads (h : r.ScalarBehind s id) (hl : r.Leads id i) :
    r.ScalarBehind s i := by
  induction hl with
  | refl => exact h
  | @tail j k _ hi ih =>
    obtain ⟨dir, decl, ho, hi⟩ := hi
    cases ih with
    | scalar ho' hk =>
      obtain rfl := ho.decl_eq ho'.declared
      simp [hk, visits] at hi
    | link ho' hname hk ht hb =>
      obtain rfl := ho.decl_eq ho'.declared
      have hlink := (ScalarBehind.link ho' hname hk ht hb).usableLink?_eq ho'.declared hk ht hb
      obtain rfl : k = _ := by simpa [hk, visits, hlink] using hi
      exact hb

/-- A scalar leads nowhere else. -/
theorem eq_of_leads_scalar (hd : r.project.type? id = some decl) (hk : decl.kind = .scalar s)
    (hl : r.Leads id i) : i = id := by
  induction hl with
  | refl => rfl
  | tail _ hi ih =>
    obtain rfl := ih
    obtain ⟨dir, decl', ho, hi⟩ := hi
    obtain rfl := ho.decl_eq hd
    simp [hk, visits] at hi

/-- No such type leads to a struct. -/
theorem ScalarBehind.not_leads (h : r.ScalarBehind s i) (hd : r.project.type? id = some decl)
    {fields : List Field} (hk : decl.kind = .struct fields) : ¬ r.Leads i id := by
  intro hl
  obtain ⟨decl', ho, hkind⟩ := (h.of_leads hl).exists_ordinary
  obtain rfl := ho.decl_eq hd
  simp [hk] at hkind

/-! ## What a scalar comes to -/

/-- A scalar without a name stands in place. -/
theorem resolveType_unnamed_scalar (hI : r.Steps I) (hc : r.Inv I c) (hu : r.Underway n i c)
    (ho : r.Opens c.direction i decl) (hname : decl.qname? = none) (hk : decl.kind = .scalar s)
    (hmem : i ∉ c.processing) : ((r.resolveType n i).run c).1 = s.descriptor := by
  obtain ⟨m, -, hrun⟩ := exists_site_of_unnamed hI hc hu ho hname hmem
  rw [hrun, hk]
  rfl

section

variable (hs : s.isInteger ∨ s.isFloat ∨ s = .bool) (hb : r.ScalarBehind s i)

include hs hb

/-- An alias is born with the scalar in its place, or with a name there. -/
theorem isQuotable_iff_of_born (hI : r.Steps I) {b : Body} (hborn : r.Born I i b) :
    ∃ t, b = .aliasOf t ∧ (isQuotable t = true ↔ r.AtHand i) := by
  obtain ⟨n, decl, c, hsite, rfl⟩ := hborn
  cases hb with
  | scalar ho hk =>
    obtain rfl := ho.decl_eq hsite.opens.declared
    rw [hk]
    exact ⟨s.descriptor, rfl,
      iff_of_true (isQuotable_descriptor hs) ⟨_, ho.declared, .inl ⟨s, hk⟩⟩⟩
  | @link _ target _ links ho hname hk ht hb =>
    obtain rfl := ho.decl_eq hsite.opens.declared
    have hlink := (ScalarBehind.link ho hname hk ht hb).usableLink?_eq ho.declared hk ht hb
    have hunnamed : r.AtHand i ↔ r.Unnamed target := by
      simp [AtHand, ho.declared, hk, ht]
    have hu : r.Underway n target c :=
      hsite.underway.visit hsite.opens (by simp [hk, visits, hlink])
    obtain ⟨declT, hoT, hopens⟩ := hb.exists_opens hs
    rw [hk, run_body_of_link hlink, hunnamed]
    refine ⟨_, rfl, ?_⟩
    cases hnameT : declT.qname? with
    | none =>
      -- The target leads nowhere, so it is not what is being expanded.
      have hkT := hb.kind_of_unnamed hoT.declared hnameT
      have hmem : target ∉ c.processing := by
        intro hmem
        obtain rfl := eq_of_leads_scalar hoT.declared hkT (hsite.underway.path target hmem)
        obtain rfl := hoT.decl_eq ho.declared
        simp [hk] at hkT
      rw [resolveType_unnamed_scalar hI hsite.inv hu (hopens _) hnameT hkT hmem]
      exact iff_of_true (isQuotable_descriptor hs) ⟨declT, hoT.declared, hnameT⟩
    | some q =>
      obtain ⟨-, hle, hreply⟩ := keeps_of_steps hI n target c hsite.inv hu
      rw [hreply.eq_named (hopens _) hnameT]
      refine iff_of_false (by simp [isQuotable, Descriptor.named]) ?_
      rintro ⟨declT', hd, hnone⟩
      obtain rfl := hoT.decl_eq hd
      simp [hnone] at hnameT

/-- Where a type is visited that does not lead back, the option finds the scalar behind it if and
only if this is at hand. -/
theorem shape_stringEncoded_iff_atHand (hdistinct : r.project.Distinct)
    (hsite : r.Site (r.layer 1) n id decl c) (hi : i ∈ r.visits id decl.kind)
    (hleads : ¬ r.Leads i id) :
    (stringEncoded ((r.resolveType n i).run c).2.registry ((r.resolveType n i).run c).1).shape =
      .builtin .string ↔ r.AtHand i := by
  have hlayer := steps_layer (r := r) hdistinct 1
  have hu := hsite.underway.visit hsite.opens hi
  have hmem : i ∉ c.processing := fun hmem => hleads (hsite.underway.path i hmem)
  obtain ⟨declI, ho, hopens⟩ := hb.exists_opens hs
  cases hname : declI.qname? with
  | none =>
    have hk := hb.kind_of_unnamed ho.declared hname
    rw [resolveType_unnamed_scalar hlayer hsite.inv hu (hopens _) hname hk hmem]
    exact iff_of_true (shape_stringEncoded_of_isQuotable _ (isQuotable_descriptor hs))
      ⟨declI, ho.declared, .inl ⟨s, hk⟩⟩
  | some q =>
    obtain ⟨-, -, hd, e, he, hborn⟩ := keeps_named (k := 0) (n := n) hdistinct hi hleads ho.even
      (hopens .outbound) hname c hsite.inv hsite
    obtain ⟨t, ht, hiff⟩ := isQuotable_iff_of_born hs hb (steps_layer hdistinct 0) hborn
    have hbody : ((r.resolveType n i).run c).2.registry.body? q = some (.aliasOf t) := by
      rw [Registry.body?, he, ← ht]
      rfl
    rw [hd]
    exact (shape_stringEncoded_named_iff rfl hbody).trans hiff

end

/-- A property with the option `string`, of an integer, a float or a truth value behind any number
of aliases, is text if and only if that scalar is at hand. -/
theorem shape_property_iff_atHand (hdistinct : r.project.Distinct) (hc : r.Amid n id decl c)
    {fields : List Field} (hk : decl.kind = .struct fields) {f : Field} (hf : f ∈ fields)
    {wire : WireField} (hrole : f.role r.tagKey = .property wire) (hstring : wire.asString = true)
    (hcontainer : (f.var.isSequence || f.var.isMap) = false)
    (hs : s.isInteger ∨ s.isFloat ∨ s = .bool) (hb : r.ScalarBehind s f.var.type) :
    ((r.property (r.resolveType n) f wire).run c).1.type.shape = .builtin .string ↔
      r.AtHand f.var.type := by
  have hsite := hc.site (steps_layer hdistinct 1) (r.layer_empty 1)
  have hi : f.var.type ∈ r.visits id decl.kind := by
    rw [hk]
    refine List.mem_flatMap.2 ⟨f, hf, ?_⟩
    simp [fieldVisits, hrole, variableVisits_of_not_container hcontainer]
  have htype : ((r.property (r.resolveType n) f wire).run c).1.type =
      stringEncoded ((r.resolveType n f.var.type).run c).2.registry
        (((r.resolveType n f.var.type).run c).1.withPointers f.var.pointers) := by
    unfold property
    rw [resolveVariable_of_not_container _ hcontainer, hstring]
    rfl
  rw [htype, stringEncoded_withPointers]
  exact shape_stringEncoded_iff_atHand hs hb hdistinct hsite hi
    (hb.not_leads hsite.opens.declared hk)

end Resolver

/-! ## A receipt -/

namespace Tills

-- The tags of the fields are read when the run is evaluated.
attribute [local semireducible] Tag.lookupChars

def tax : Field where
  var := { name := "Tax", type := ⟨"Tax"⟩ }
  tags := "json:\"tax,string\""

def total : Field where
  var := { name := "Total", type := ⟨"Total"⟩ }
  tags := "json:\"total,string\""

def receipt : TypeDecl where
  package := some "till"
  name := some "Receipt"
  kind := .struct [tax, total]

def cents : TypeDecl where
  package := some "till"
  name := some "Cents"
  kind := .scalar .int64

def totalDecl : TypeDecl where
  package := some "till"
  name := some "Total"
  kind := .aliasOf { target := some ⟨"Cents"⟩ }

/-- A tax is an integer, and so is a total, but by way of another name. -/
def project : Project where
  path := "till"
  contracts := []
  types :=
    [(⟨"Receipt"⟩, receipt),
     (⟨"Tax"⟩, {
        package := some "till", name := some "Tax"
        kind := .aliasOf { target := some ⟨"int64"⟩ } }),
     (⟨"Total"⟩, totalDecl),
     (⟨"Cents"⟩, cents),
     (⟨"int64"⟩, { name := some "int64", kind := .scalar .int64 })]

def resolver : Resolver := .make project {}

def root : Chain where
  ns := "till"
  direction := .inbound
  registry := {}

/-- The chain in which the receipt is expanded. -/
def start : Chain := root.enter ⟨"Receipt"⟩ "till"

/-- The same when the tax has been resolved. -/
def chain : Chain := (([tax].mapM (resolver.fieldEntries (resolver.resolveType 4))).run start).2

def wire : WireField where
  name := "total"
  omitEmpty := false
  asString := true

theorem plain : ∀ t ∈ project.types, t.2.capabilities = {} := by decide

theorem amid_chain : resolver.Amid 4 ⟨"Receipt"⟩ receipt chain := by
  have hopens : resolver.Opens root.direction ⟨"Receipt"⟩ receipt := ⟨rfl, by decide, by decide⟩
  have hname : receipt.qname? = some ⟨"till", "Receipt"⟩ := by decide
  have hbegins : resolver.Begins ⟨"Receipt"⟩ receipt root start :=
    .named hopens hname List.not_mem_nil List.not_mem_nil
  have hstart : resolver.Amid 4 ⟨"Receipt"⟩ receipt start :=
    .outer (.start "till" .inbound) rfl hbegins
  exact hstart.fields rfl (by simp)

theorem scalarBehind_total : resolver.ScalarBehind .int64 ⟨"Total"⟩ := by
  have hcents : resolver.Ordinary ⟨"Cents"⟩ cents := ⟨rfl, by decide, rfl⟩
  have htotal : resolver.Ordinary ⟨"Total"⟩ totalDecl := ⟨rfl, by decide, rfl⟩
  exact .link htotal (by decide) rfl rfl (.scalar hcents rfl)

theorem total_iff_atHand :
    (resolver.project.Distinct ∧ resolver.Amid 4 ⟨"Receipt"⟩ receipt chain ∧
      total.role resolver.tagKey = .property wire ∧
        resolver.ScalarBehind .int64 total.var.type) ∧
    (((resolver.property (resolver.resolveType 4) total wire).run chain).1.type.shape =
      .builtin .string ↔ resolver.AtHand total.var.type) := by
  have hdistinct : resolver.project.Distinct := Project.distinct_of_forall (by decide)
  have hrole : total.role resolver.tagKey = .property wire := by decide
  exact ⟨⟨hdistinct, amid_chain, hrole, scalarBehind_total⟩,
    Resolver.shape_property_iff_atHand hdistinct amid_chain rfl (by simp) hrole rfl rfl
      (.inl rfl) scalarBehind_total⟩

/-- The total is an alias of an integer by another name. With the option `string` it is still
referred to by its own name. -/
theorem total_not_text : project.Distinct ∧
    (∀ id decl, project.type? id = some decl → decl.isNamed → decl.capabilities = {}) ∧
      resolver.Amid 4 ⟨"Receipt"⟩ receipt chain ∧ receipt.kind = .struct [tax, total] ∧
        total.role resolver.tagKey = .property wire ∧ wire.asString = true ∧
          (total.var.isSequence || total.var.isMap) = false ∧
            resolver.ScalarBehind .int64 total.var.type ∧
    ((resolver.property (resolver.resolveType 4) total wire).run chain).1.type.shape ≠
      .builtin .string := by
  have hshape : ((resolver.property (resolver.resolveType 4) total wire).run chain).1.type.shape =
      .named ⟨"till", "Total"⟩ := by
    rfl
  exact ⟨Project.distinct_of_forall (by decide),
    fun id decl hd _ => plain _ (Project.mem_types_of_type? hd), amid_chain, rfl, by decide, rfl,
    rfl, scalarBehind_total, by rw [hshape]; simp⟩

end Tills

end ClientTypes

import ClientTypes.Proofs.Reach

/-!
# Paths in the type graph

The type graph has an edge for each way in which a declared type mentions another one. What a
collector returns is said here by paths along these edges, without the walk: a type is needed if it
counts, and if a path leads to it from a root through types that the walk looks behind.

## Main definitions

* `Variable.Mentions`, `Kind.Mentions` — the edges of the type graph
* `Collector.Enters` — the types behind which values travel on in a direction
* `Collector.Path` — a path through such types

The main statement is `mem_collect_iff_path`.
-/

namespace ClientTypes

/-! ## Edges -/

/-- The types that a variable mentions: its own, and those of the keys and the values of a map. -/
inductive Variable.Mentions (v : Variable) : TypeId → Prop
  | type : Mentions v v.type
  | mapKey {key : TypeId} : v.mapKey = some key → Mentions v key
  | mapValue {value : TypeId} : v.mapValue = some value → Mentions v value

/-- The edges that lead away from a type of some kind. Scalars, channels and types that hold
anything have none. -/
inductive Kind.Mentions : Kind → TypeId → Prop
  | element (a : ArrayType) : Mentions (.array a) a.elem
  | key (m : MapType) : Mentions (.map m) m.key
  | value (m : MapType) : Mentions (.map m) m.value
  | target {links : AliasLinks} {id : TypeId} :
      links.target = some id → Mentions (.aliasOf links) id
  | underlying {links : AliasLinks} {id : TypeId} :
      links.underlying = some id → Mentions (.aliasOf links) id
  | field {fields : List Field} {f : Field} {id : TypeId} :
      f ∈ fields → f.var.Mentions id → Mentions (.struct fields) id
  | embedded {embeds : List TypeId} {methods : List InterfaceMethod} {id : TypeId} :
      id ∈ embeds → Mentions (.interface embeds methods) id
  | method {embeds : List TypeId} {methods : List InterfaceMethod} {m : InterfaceMethod}
      {v : Variable} {id : TypeId} :
      m ∈ methods → v ∈ m.signature.params ++ m.signature.results → v.Mentions id →
        Mentions (.interface embeds methods) id
  | parameter {s : Signature} {v : Variable} {id : TypeId} :
      v ∈ s.params ++ s.results → v.Mentions id → Mentions (.function s) id

theorem Variable.mem_ids {v : Variable} {id : TypeId} : id ∈ v.ids ↔ v.Mentions id := by
  simp only [ids, List.mem_cons, List.mem_append, Option.mem_toList]
  constructor
  · rintro (rfl | h | h)
    · exact .type
    · exact .mapKey h
    · exact .mapValue h
  · intro h
    cases h with
    | type => exact .inl rfl
    | mapKey h => exact .inr (.inl h)
    | mapValue h => exact .inr (.inr h)

theorem Signature.mem_ids {s : Signature} {id : TypeId} :
    id ∈ s.ids ↔ ∃ v ∈ s.params ++ s.results, v.Mentions id := by
  simp only [ids, List.mem_flatMap, Variable.mem_ids]

/-- The links of a kind are its edges. -/
theorem Kind.mem_links {k : Kind} {id : TypeId} : id ∈ k.links ↔ k.Mentions id := by
  constructor
  · intro h
    cases k with
    | scalar | channel | any => simp [links] at h
    | array a =>
      obtain rfl : id = a.elem := by simpa [links] using h
      exact .element a
    | map m =>
      obtain rfl | rfl : id = m.key ∨ id = m.value := by simpa [links] using h
      · exact .key m
      · exact .value m
    | aliasOf l =>
      obtain h | h : l.target = some id ∨ l.underlying = some id := by simpa [links] using h
      · exact .target h
      · exact .underlying h
    | struct fields =>
      obtain ⟨f, hf, h⟩ := List.mem_flatMap.1 h
      exact .field hf (Variable.mem_ids.1 h)
    | interface embeds methods =>
      rcases List.mem_append.1 h with h | h
      · exact .embedded h
      · obtain ⟨m, hm, h⟩ := List.mem_flatMap.1 h
        obtain ⟨v, hv, h⟩ := Signature.mem_ids.1 h
        exact .method hm hv h
    | function s =>
      obtain ⟨v, hv, h⟩ := Signature.mem_ids.1 h
      exact .parameter hv h
  · intro h
    cases h with
    | element a => exact List.mem_singleton.2 rfl
    | key m => exact List.mem_cons_self
    | value m => exact List.mem_cons_of_mem _ List.mem_cons_self
    | target h => simp [links, h]
    | underlying h => simp [links, h]
    | field hf h => exact List.mem_flatMap.2 ⟨_, hf, Variable.mem_ids.2 h⟩
    | embedded h => exact List.mem_append_left _ h
    | method hm hv h =>
      exact List.mem_append_right _ (List.mem_flatMap.2 ⟨_, hm, Signature.mem_ids.2 ⟨_, hv, h⟩⟩)
    | parameter hv h => exact Signature.mem_ids.2 ⟨_, hv, h⟩

namespace Collector

variable {c : Collector} {direction : Direction} {roots : List Root} {id next last : TypeId}
  {decl : TypeDecl}

/-! ## Paths -/

/-- A declared type that has no substitute and leaves its wire format in a direction to its
structure. -/
structure Enters (c : Collector) (direction : Direction) (id : TypeId) (decl : TypeDecl) :
    Prop where
  declared : c.project.type? id = some decl
  unsubstituted : ∀ q, decl.qname? = some q → c.substitutions.get? q.dotted = none
  opened : direction.isOverriddenBy decl.capabilities = false

/-- A path along the edges of the type graph: every type before the last one is entered. -/
inductive Path (c : Collector) (direction : Direction) : TypeId → TypeId → Prop
  | here (id : TypeId) : Path c direction id id
  | step {id next last : TypeId} {decl : TypeDecl} :
      c.Enters direction id decl → decl.kind.Mentions next → Path c direction next last →
        Path c direction id last

theorem isSubstituted_eq_false :
    c.isSubstituted decl = false ↔
      ∀ q, decl.qname? = some q → c.substitutions.get? q.dotted = none := by
  unfold isSubstituted SubstitutionTable.contains
  cases decl.qname? <;> simp

theorem mem_successors_iff_enters {a b : Root} :
    b ∈ c.successors a ↔
      ∃ decl, c.Enters a.2 a.1 decl ∧ decl.kind.Mentions b.1 ∧ b.2 = a.2 := by
  rw [mem_successors]
  constructor
  · rintro ⟨decl, hd, hs, ho, hlink, hdir⟩
    exact ⟨decl, ⟨hd, isSubstituted_eq_false.1 hs, ho⟩, Kind.mem_links.1 hlink, hdir⟩
  · rintro ⟨decl, he, hlink, hdir⟩
    exact ⟨decl, he.declared, isSubstituted_eq_false.2 he.unsubstituted, he.opened,
      Kind.mem_links.2 hlink, hdir⟩

theorem Path.reaches (h : c.Path direction id last) :
    c.Reaches (id, direction) (last, direction) := by
  induction h with
  | here id => exact .refl
  | @step id next last decl he hlink _ ih =>
    have hnext : (next, direction) ∈ c.successors (id, direction) :=
      mem_successors_iff_enters.2 ⟨decl, he, hlink, rfl⟩
    exact .head hnext ih

/-- The walk never changes its direction, and follows exactly the paths in it. -/
theorem reaches_iff_path {a b : Root} : c.Reaches a b ↔ b.2 = a.2 ∧ c.Path a.2 a.1 b.1 := by
  constructor
  · intro h
    induction h using Relation.ReflTransGen.head_induction_on with
    | refl => exact ⟨rfl, .here _⟩
    | head hab _ ih =>
      obtain ⟨decl, he, hlink, hdir⟩ := mem_successors_iff_enters.1 hab
      rw [hdir] at ih
      exact ⟨ih.1, .step he hlink ih.2⟩
  · rintro ⟨hdir, h⟩
    have hb : b = (b.1, a.2) := Prod.ext rfl hdir
    rw [hb]
    exact h.reaches

/-! ## Collected types -/

theorem collects_iff : c.collects id ↔ ∃ decl q, c.project.type? id = some decl ∧
    decl.qname? = some q ∧ (c.substitutions.get? q.dotted = none ∨ c.policy = .materialize) := by
  unfold collects
  cases c.project.type? id with
  | none => simp
  | some decl =>
    cases hq : decl.qname? with
    | none => simp [TypeDecl.isNamed, hq]
    | some q =>
      simp [TypeDecl.isNamed, isSubstituted, SubstitutionTable.contains, hq]

theorem pairwise_lt_collect (roots : List Root) :
    (c.collect roots).Pairwise fun i j => i.text < j.text :=
  List.pairwise_map.2 (pairwise_lt_sortedSet _)

/-- A collector returns each needed type once, in ascending order. A type is needed if it is
declared and named, if a path leads to it from some root in the root's direction, and if it has no
substitute unless the policy materializes types that have one. -/
theorem mem_collect_iff_path (c : Collector) (roots : List Root) :
    (c.collect roots).Pairwise (fun i j => i.text < j.text) ∧
    ∀ id, id ∈ c.collect roots ↔ ∃ decl q, c.project.type? id = some decl ∧
      decl.qname? = some q ∧ (∃ root ∈ roots, c.Path root.2 root.1 id) ∧
        (c.substitutions.get? q.dotted = none ∨ c.policy = .materialize) := by
  refine ⟨pairwise_lt_collect roots, fun id => ?_⟩
  rw [mem_collect, collects_iff]
  constructor
  · rintro ⟨⟨decl, q, hd, hq, hcounts⟩, direction, root, hroot, hreach⟩
    exact ⟨decl, q, hd, hq, ⟨root, hroot, (reaches_iff_path.1 hreach).2⟩, hcounts⟩
  · rintro ⟨decl, q, hd, hq, ⟨root, hroot, hpath⟩, hcounts⟩
    exact ⟨⟨decl, q, hd, hq, hcounts⟩, root.2, root, hroot, reaches_iff_path.2 ⟨rfl, hpath⟩⟩

end Collector

end ClientTypes

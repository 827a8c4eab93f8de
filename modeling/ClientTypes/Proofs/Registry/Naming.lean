import Mathlib.Data.List.Basic
import ClientTypes.Proofs.Registry.Prevailing
import ClientTypes.Proofs.Registry.Rendering

/-!
# Names in a namespace

In the text of a namespace its own names stand bare and foreign ones behind the alias of their
namespace. An alias has no dot in it, so that it can be told from what follows, and where names have
none either, no two of them are written alike. The words that the text binds are the aliases of its
imports and the names of its definitions: of either kind none is bound twice.

## Main definitions

* `Table.Occurs` — a name that a namespace defines or mentions
* `Table.boundNames` — the words that the text of a namespace binds

The main statements are `name_ne_of_ne` and `Unique.nodup_boundNames_iff`.
-/

namespace ClientTypes

/-! ## Dots -/

/-- The text has no dot in it. -/
def Dotless (text : String) : Prop := '.' ∉ text.toList

instance (text : String) : Decidable (Dotless text) :=
  inferInstanceAs (Decidable ('.' ∉ text.toList))

theorem Text.Bindable.dotless {word : String} (h : Bindable word) : Dotless word := by
  intro hdot
  rcases h.parts '.' hdot with hpart | hpart
  · exact absurd hpart (by decide)
  · exact absurd hpart (by decide)

/-- A text with a single dot is split by it in one way. -/
theorem eq_of_append_dot {word word' name name' : String} (hword : Dotless word)
    (hname : Dotless name) (h : word ++ "." ++ name = word' ++ "." ++ name') :
    word = word' ∧ name = name' := by
  have hchars : word.toList ++ '.' :: name.toList = word'.toList ++ '.' :: name'.toList := by
    simpa using congrArg String.toList h
  obtain ⟨hw, -, hn⟩ := (List.append_cons_inj_of_notMem hword hname).1 hchars
  exact ⟨String.toList_injective hw, String.toList_injective hn⟩

namespace Table

/-- One of the definitions of the namespace has the name or mentions it. -/
def Occurs (t : Table) (ns : String) (q : QName) : Prop :=
  ∃ d ∈ t.inNamespace ns, d.name = q ∨ d.body.Mentions q

/-- The words that the text of a namespace binds: those of its import lines, then the names of its
definitions. -/
def boundNames (t : Table) (ns : String) : List String :=
  (t.bindings ns).map (·.1) ++ (t.inNamespace ns).map (·.name.name)

theorem name_scope_of_eq {t : Table} {ns : String} {q : QName} (h : q.ns = ns) :
    (t.scope ns).name q = q.name :=
  if_pos h

end Table

namespace Registry

variable {r : Registry} {ns : String} {q q' : QName}

/-! ## Bound words -/

/-- The import lines bind different words. -/
theorem nodup_map_fst_bindings (r : Registry) (ns : String) :
    ((r.finalize.bindings ns).map (·.1)).Nodup := by
  refine (r.nodup_bindings ns).map_on ?_
  rintro ⟨word, n⟩ h ⟨word', n'⟩ h' (rfl : word = word')
  obtain ⟨-, -, -, halias⟩ := mem_bindings.1 h
  obtain ⟨-, -, -, halias'⟩ := mem_bindings.1 h'
  exact congrArg (word, ·) (NamespaceAliases.eq_of_get?_assign halias halias')

/-- The definitions of a namespace have different names. -/
theorem Unique.nodup_map_name_inNamespace (h : r.Unique) (ns : String) :
    ((r.finalize.inNamespace ns).map (·.name.name)).Nodup := by
  have hnodup : r.finalize.definitions.Nodup :=
    r.definitions_finalize_perm.nodup_iff.2 (List.Nodup.of_map _ h)
  refine (hnodup.filter _).map_on fun d hd e he hname => ?_
  obtain ⟨hd, hns⟩ := Table.mem_inNamespace.1 hd
  obtain ⟨he, hns'⟩ := Table.mem_inNamespace.1 he
  exact h.eq_of_name (mem_definitions_finalize.1 hd) (mem_definitions_finalize.1 he)
    (congrArg₂ QName.mk (hns.trans hns'.symm) hname)

/-- No word is bound twice if and only if no definition is called like an import. -/
theorem Unique.nodup_boundNames_iff (h : r.Unique) (ns : String) :
    (r.finalize.boundNames ns).Nodup ↔ ∀ binding ∈ r.finalize.bindings ns,
      ∀ d ∈ r.finalize.inNamespace ns, binding.1 ≠ d.name.name := by
  rw [Table.boundNames, List.nodup_append]
  simp only [r.nodup_map_fst_bindings ns, h.nodup_map_name_inNamespace ns, true_and,
    List.forall_mem_map]

/-! ## Spelling -/

/-- A foreign name is written behind the alias of its namespace. -/
theorem exists_alias_of_occurs (h : r.finalize.Occurs ns q) (hne : q.ns ≠ ns) :
    ∃ word, r.finalize.aliases.get? q.ns = some word ∧ Dotless word ∧
      (r.finalize.scope ns).name q = word ++ "." ++ q.name := by
  obtain ⟨d, hd, rfl | hq⟩ := h
  · exact absurd (Table.mem_inNamespace.1 hd).2 hne
  · obtain ⟨word, hbinding, hname⟩ := exists_binding hd hq hne
    obtain ⟨-, -, -, halias⟩ := mem_bindings.1 hbinding
    exact ⟨word, halias, (NamespaceAliases.bindable_of_get?_assign halias).dotless, hname⟩

/-- A name without dots is not written like a foreign one. -/
theorem name_ne_of_foreign (hdotless : Dotless q.name) (hq : q.ns = ns)
    (h : r.finalize.Occurs ns q') (hne : q'.ns ≠ ns) :
    (r.finalize.scope ns).name q ≠ (r.finalize.scope ns).name q' := by
  obtain ⟨word, -, -, hname⟩ := exists_alias_of_occurs h hne
  rw [Table.name_scope_of_eq hq, hname]
  intro heq
  exact hdotless (by simp [heq])

/-- Two foreign names that are written alike are the same. -/
theorem eq_of_name_eq_of_foreign (hdotless : Dotless q.name) (h : r.finalize.Occurs ns q)
    (h' : r.finalize.Occurs ns q') (hne : q.ns ≠ ns) (hne' : q'.ns ≠ ns)
    (heq : (r.finalize.scope ns).name q = (r.finalize.scope ns).name q') : q = q' := by
  obtain ⟨word, halias, hword, hname⟩ := exists_alias_of_occurs h hne
  obtain ⟨word', halias', -, hname'⟩ := exists_alias_of_occurs h' hne'
  rw [hname, hname'] at heq
  obtain ⟨rfl, hnames⟩ := eq_of_append_dot hword hdotless heq
  exact congrArg₂ QName.mk (NamespaceAliases.eq_of_get?_assign halias halias') hnames

/-- Of definitions whose names, and all names that they mention, have no dots, no two names that a
namespace defines or mentions are written alike in it. -/
theorem name_ne_of_ne (offered : List Definition)
    (h : ∀ d ∈ offered, Dotless d.name.name ∧ ∀ q, d.body.Mentions q → Dotless q.name) :
    let t := (offered.foldl merge {}).finalize
    ∀ ns q q', t.Occurs ns q → t.Occurs ns q' → q ≠ q' →
      (t.scope ns).name q ≠ (t.scope ns).name q' := by
  intro t ns q q' hq hq' hne heq
  have hdotless {q : QName} (hq : t.Occurs ns q) : Dotless q.name := by
    obtain ⟨d, hd, hdq⟩ := hq
    obtain ⟨hmem, -⟩ := Table.mem_inNamespace.1 hd
    obtain ⟨hname, hmentions⟩ := h d (mem_offered (mem_definitions_finalize.1 hmem))
    rcases hdq with rfl | hmention
    · exact hname
    · exact hmentions q hmention
  by_cases hns : q.ns = ns <;> by_cases hns' : q'.ns = ns
  · rw [Table.name_scope_of_eq hns, Table.name_scope_of_eq hns'] at heq
    exact hne (congrArg₂ QName.mk (hns.trans hns'.symm) heq)
  · exact name_ne_of_foreign (hdotless hq) hns hq' hns' heq
  · exact name_ne_of_foreign (hdotless hq') hns' hq hns heq.symm
  · exact hne (eq_of_name_eq_of_foreign (hdotless hq) hq hq' hns hns' heq)

end Registry

/-! ## Users of two packages -/

namespace Users

def mention (ns : String) : Property Descriptor where
  name := ns
  field := ns
  type := .named ⟨ns, "User"⟩

/-- An order mentions the users of two packages whose paths end alike. -/
def order : Definition where
  name := ⟨"shop", "Order"⟩
  typeId := ⟨"Order"⟩
  body := .struct [mention "a/models", mention "b/models"]

theorem dotless_order : ∀ d ∈ [order],
    Dotless d.name.name ∧ ∀ q, d.body.Mentions q → Dotless q.name := by
  have hreferences : ∀ d ∈ [order], Dotless d.name.name ∧ ∀ q ∈ d.body.references,
      Dotless q.name := by
    decide
  simpa only [Body.mem_references] using hreferences

def table : Table := ([order].foldl Registry.merge {}).finalize

/-- The users of the two packages are not written alike. -/
theorem name_user_ne : (∀ d ∈ [order], Dotless d.name.name ∧
      ∀ q, d.body.Mentions q → Dotless q.name) ∧
    table.Occurs "shop" ⟨"a/models", "User"⟩ ∧ table.Occurs "shop" ⟨"b/models", "User"⟩ ∧
    (table.scope "shop").name ⟨"a/models", "User"⟩ ≠
      (table.scope "shop").name ⟨"b/models", "User"⟩ := by
  have hmem : order ∈ table.inNamespace "shop" :=
    Table.mem_inNamespace.2 ⟨Registry.mem_definitions_finalize.2 List.mem_cons_self, rfl⟩
  have hmentions (q : QName) (hq : q ∈ order.body.references) : table.Occurs "shop" q :=
    ⟨order, hmem, .inr (Body.mem_references.1 hq)⟩
  have ha := hmentions ⟨"a/models", "User"⟩ (by decide)
  have hb := hmentions ⟨"b/models", "User"⟩ (by decide)
  exact ⟨dotless_order, ha, hb,
    Registry.name_ne_of_ne [order] dotless_order "shop" _ _ ha hb (by decide)⟩

end Users

end ClientTypes

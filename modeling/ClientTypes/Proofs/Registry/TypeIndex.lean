import ClientTypes.Proofs.Registry.Prevailing

/-!
# The types that a registry knows

Beside its definitions a registry lists types: those that the first definition of some name came
from. A definition that replaces another one adds nothing to the list, so that its type is on it
only if it had come first, under this name or under another one.

## Main definitions

* `Introduced` — the first definition that was offered under some name comes from a type

The main statement is `Registry.containsType_iff_introduced`.
-/

namespace ClientTypes

/-- The first definition that is offered under some name comes from the type. -/
def Introduced (offered : List Definition) (id : TypeId) : Prop :=
  ∃ q d, offered.find? (·.name = q) = some d ∧ d.typeId = id

variable {offered : List Definition} {d : Definition} {id : TypeId} {q : QName}

theorem Introduced.exists_mem (h : Introduced offered id) : ∃ d ∈ offered, d.typeId = id := by
  obtain ⟨q, d, hfind, hid⟩ := h
  exact ⟨d, List.mem_of_find?_eq_some hfind, hid⟩

/-- One more offer introduces its type if it is the first of its name. -/
theorem introduced_concat : Introduced (offered ++ [d]) id ↔
    (id = d.typeId ∧ ∀ e ∈ offered, e.name ≠ d.name) ∨ Introduced offered id := by
  constructor
  · rintro ⟨q, e, hfind, rfl⟩
    rw [List.find?_append] at hfind
    cases hearlier : offered.find? (·.name = q) with
    | none =>
      obtain ⟨rfl, rfl⟩ : d.name = q ∧ d = e := by
        simpa [hearlier, List.find?_cons_eq_some] using hfind
      exact .inl ⟨rfl, by simpa [List.find?_eq_none] using hearlier⟩
    | some e' =>
      rw [hearlier, Option.some_or] at hfind
      exact .inr ⟨q, e, hearlier.trans hfind, rfl⟩
  · rintro (⟨rfl, hfirst⟩ | ⟨q, e, hfind, rfl⟩)
    · have hnone : offered.find? (·.name = d.name) = none := by
        simpa [List.find?_eq_none] using hfirst
      exact ⟨d.name, d, by simp [hnone], rfl⟩
    · exact ⟨q, e, by simp [hfind], rfl⟩

namespace Registry

/-- The list has the types that have been introduced. -/
theorem containsType_foldl_merge :
    (offered.foldl merge {}).containsType id ↔ Introduced offered id := by
  rw [containsType, List.contains_iff_mem]
  induction offered using List.reverseRecOn with
  | nil => simp [Introduced]
  | append_singleton offered d ih =>
    rw [List.foldl_concat, mem_typeIds_merge, introduced_concat, ih, ← Bool.not_eq_true,
      contains_foldl_merge]
    simp

end Registry

/-- Where the definitions of one name come from one type, every offer comes from an introduced
type. -/
theorem introduced_of_mem
    (h : ∀ d ∈ offered, ∀ e ∈ offered, d.name = e.name → d.typeId = e.typeId) (hd : d ∈ offered) :
    Introduced offered d.typeId := by
  obtain ⟨e, he⟩ : ∃ e, offered.find? (·.name = d.name) = some e := by
    rw [← Option.isSome_iff_exists, List.find?_isSome]
    exact ⟨d, hd, by simp⟩
  have hname : e.name = d.name := by simpa using List.find?_some he
  exact ⟨d.name, e, he, h e (List.mem_of_find?_eq_some he) d hd hname⟩

namespace Registry

/-- Whatever definitions have been offered to a registry, the types on its list are those that have
been introduced, so that each of them is the type of an offer. The types of all stored definitions
are on the list if and only if those of all prevailing ones have been introduced, as they have where
the definitions of one name come from one type. -/
theorem containsType_iff_introduced (offered : List Definition) :
    let r := offered.foldl merge {}
    (∀ id, r.containsType id ↔ Introduced offered id) ∧
    (∀ id, r.containsType id → ∃ d ∈ offered, d.typeId = id) ∧
    ((∀ q d, r.get? q = some d → r.containsType d.typeId) ↔
      ∀ q d, Definition.prevailing? (offered.filter (·.name = q)) = some d →
        Introduced offered d.typeId) ∧
    ((∀ d ∈ offered, ∀ e ∈ offered, d.name = e.name → d.typeId = e.typeId) →
      ∀ q d, r.get? q = some d → r.containsType d.typeId) := by
  refine ⟨fun id => containsType_foldl_merge,
    fun id h => (containsType_foldl_merge.1 h).exists_mem, ?_, fun h q d hd => ?_⟩
  · simp only [get?_foldl_merge, containsType_foldl_merge]
  · exact containsType_foldl_merge.2 (introduced_of_mem h (mem_offered_of_get? hd))

end Registry

/-! ## Orders and drafts -/

namespace Drafts

/-- An order of which nothing is known. -/
def blank (id : TypeId) : Definition where
  name := ⟨"shop", "Order"⟩
  typeId := id
  body := .struct []

def order : Definition where
  name := ⟨"shop", "Order"⟩
  typeId := ⟨"Order"⟩
  body := .struct [{ name := "id", field := "ID", type := .builtin .integer }]

/-- A definition that replaces a blank one of its own type is on the list. -/
theorem containsType_order :
    ([blank ⟨"Order"⟩, order].foldl Registry.merge {}).get? ⟨"shop", "Order"⟩ = some order ∧
      ([blank ⟨"Order"⟩, order].foldl Registry.merge {}).containsType ⟨"Order"⟩ := by
  obtain ⟨-, -, -, h⟩ := Registry.containsType_iff_introduced [blank ⟨"Order"⟩, order]
  exact ⟨rfl, h (by decide) ⟨"shop", "Order"⟩ order rfl⟩

/-- The definition of another type replaces a blank one of its name, and its type is not on the
list. -/
theorem exists_stored_not_containsType :
    ∃ d, ([blank ⟨"Draft"⟩, order].foldl Registry.merge {}).get? ⟨"shop", "Order"⟩ = some d ∧
      ([blank ⟨"Draft"⟩, order].foldl Registry.merge {}).containsType d.typeId = false :=
  ⟨order, rfl, by decide⟩

end Drafts

end ClientTypes

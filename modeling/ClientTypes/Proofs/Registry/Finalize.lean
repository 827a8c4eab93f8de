import Mathlib.Data.List.Nodup
import ClientTypes.Proofs.Registry.Growth
import ClientTypes.Registry.Table

/-!
# Finished tables

A table holds the definitions of its registry in another order: in the order of their names, which
are distinct. So a binary search finds what the registry has under a name, and two registries that
define the same names alike have the same table.

## Main definitions

* `Registry.Unique` — at most one definition per name

The main statements are `Unique.get?_finalize` and `finalize_congr`.
-/

namespace ClientTypes

/-! ## The order of names -/

namespace QName

variable {a b c : QName}

theorem le_iff : le a b ↔ a.ns < b.ns ∨ a.ns = b.ns ∧ a.name ≤ b.name := by
  simp [le]

theorem le_total (a b : QName) : le a b ∨ le b a := by
  rw [le_iff, le_iff]
  by_cases hlt : a.ns < b.ns
  · exact .inl (.inl hlt)
  · by_cases hgt : b.ns < a.ns
    · exact .inr (.inl hgt)
    · have hns : a.ns = b.ns := String.le_antisymm (String.not_lt.1 hgt) (String.not_lt.1 hlt)
      rcases String.le_total a.name b.name with hname | hname
      · exact .inl (.inr ⟨hns, hname⟩)
      · exact .inr (.inr ⟨hns.symm, hname⟩)

theorem le_trans (hab : le a b) (hbc : le b c) : le a c := by
  rw [le_iff] at *
  rcases hab with hab | ⟨hab, hname⟩ <;> rcases hbc with hbc | ⟨hbc, hname'⟩
  · exact .inl (String.lt_trans hab hbc)
  · exact .inl (hbc ▸ hab)
  · exact .inl (hab ▸ hbc)
  · exact .inr ⟨hab.trans hbc, String.le_trans hname hname'⟩

theorem le_antisymm (hab : le a b) (hba : le b a) : a = b := by
  rw [le_iff] at hab hba
  rcases hab with hab | ⟨hab, hname⟩ <;> rcases hba with hba | ⟨hba, hname'⟩
  · exact absurd (String.lt_trans hab hba) (String.lt_irrefl _)
  · exact absurd (hba ▸ hab) (String.lt_irrefl _)
  · exact absurd (hab ▸ hba) (String.lt_irrefl _)
  · exact congrArg₂ QName.mk hab (String.le_antisymm hname hname')

end QName

/-! ## Lookups -/

namespace Table

variable {q : QName} {d : Definition} {ds : List Definition}

/-- What a search finds is listed under the name. -/
theorem mem_of_search (h : search q ds = some d) : d ∈ ds ∧ d.name = q := by
  fun_induction search q ds with
  | case1 => simp at h
  | case2 ds e later hdrop hname =>
    obtain rfl := Option.some.inj h
    exact ⟨List.mem_of_mem_drop (hdrop ▸ List.mem_cons_self), hname⟩
  | case3 ds e later hdrop _ _ ih =>
    obtain ⟨hd, hname⟩ := ih h
    exact ⟨List.mem_of_mem_drop (hdrop ▸ List.mem_cons_of_mem e hd), hname⟩
  | case4 ds e later hdrop _ _ ih =>
    obtain ⟨hd, hname⟩ := ih h
    exact ⟨List.mem_of_mem_take hd, hname⟩

/-- Of definitions in order, those before a place have no later names than the one there, and those
behind it no earlier ones. -/
theorem mem_take_or_mem_later {e : Definition} {later : List Definition} {i : Nat}
    (hsorted : ds.Pairwise fun a b => QName.le a.name b.name) (hdrop : ds.drop i = e :: later)
    (hd : d ∈ ds) (hne : e.name ≠ d.name) :
    d ∈ ds.take i ∧ QName.le d.name e.name ∨ d ∈ later ∧ QName.le e.name d.name := by
  have hsplit : ds.take i ++ e :: later = ds := hdrop ▸ List.take_append_drop i ds
  rw [← hsplit, List.pairwise_append] at hsorted
  rw [← hsplit, List.mem_append, List.mem_cons] at hd
  rcases hd with hearlier | rfl | hlater
  · exact .inl ⟨hearlier, hsorted.2.2 d hearlier e List.mem_cons_self⟩
  · exact absurd rfl hne
  · exact .inr ⟨hlater, (List.pairwise_cons.1 hsorted.2.1).1 d hlater⟩

/-- A search of definitions in order finds every name that one of them has. -/
theorem isSome_search (hsorted : ds.Pairwise fun a b => QName.le a.name b.name)
    (h : ∃ d ∈ ds, d.name = q) : (search q ds).isSome := by
  obtain ⟨d, hd, rfl⟩ := h
  fun_induction search d.name ds with
  | case1 ds hdrop =>
    have hlength := congrArg List.length hdrop
    have hpos := List.length_pos_of_mem hd
    simp only [List.length_drop, List.length_nil] at hlength
    omega
  | case2 => rfl
  | case3 ds e later hdrop hname hle ih =>
    obtain ⟨-, hge⟩ | ⟨hlater, -⟩ := mem_take_or_mem_later hsorted hdrop hd hname
    · exact absurd (QName.le_antisymm hle hge) hname
    · have hsub := (List.sublist_cons_self e later).trans (hdrop ▸ List.drop_sublist _ ds)
      exact ih (hsorted.sublist hsub) hlater
  | case4 ds e later hdrop hname hle ih =>
    obtain ⟨hearlier, -⟩ | ⟨-, hge⟩ := mem_take_or_mem_later hsorted hdrop hd hname
    · exact ih (hsorted.sublist (List.take_sublist _ ds)) hearlier
    · exact absurd hge hle

theorem mem_inNamespace {t : Table} {ns : String} :
    d ∈ t.inNamespace ns ↔ d ∈ t.definitions ∧ d.name.ns = ns := by
  simp [inNamespace]

end Table

namespace Registry

variable {r : Registry}

theorem definitions_finalize_perm (r : Registry) : r.finalize.definitions.Perm r.definitions :=
  List.mergeSort_perm r.definitions _

@[simp] theorem mem_definitions_finalize {d : Definition} :
    d ∈ r.finalize.definitions ↔ d ∈ r.definitions :=
  r.definitions_finalize_perm.mem_iff

theorem pairwise_le_finalize (r : Registry) :
    r.finalize.definitions.Pairwise fun a b => QName.le a.name b.name := by
  refine List.pairwise_mergeSort (fun a b c => ?_) (fun a b => ?_) r.definitions
  · exact QName.le_trans
  · simpa using QName.le_total a.name b.name

@[simp] theorem isSome_get?_finalize {q : QName} : (r.finalize.get? q).isSome ↔ r.contains q := by
  rw [contains_iff, Table.get?]
  constructor
  · intro h
    obtain ⟨d, hd⟩ := Option.isSome_iff_exists.1 h
    obtain ⟨hmem, hname⟩ := Table.mem_of_search hd
    exact ⟨d, mem_definitions_finalize.1 hmem, hname⟩
  · rintro ⟨d, hd, hname⟩
    exact Table.isSome_search r.pairwise_le_finalize ⟨d, mem_definitions_finalize.2 hd, hname⟩

theorem inNamespace_finalize_ne_nil {ns : String} :
    r.finalize.inNamespace ns ≠ [] ↔ ∃ q, r.contains q ∧ q.ns = ns := by
  rw [← List.isEmpty_eq_false_iff, List.isEmpty_eq_false_iff_exists_mem]
  simp only [Table.mem_inNamespace, mem_definitions_finalize]
  constructor
  · rintro ⟨d, hd, hns⟩
    refine ⟨d.name, ?_, hns⟩
    simpa [contains, get?, List.find?_isSome] using ⟨d, hd, rfl⟩
  · rintro ⟨q, hq, hns⟩
    obtain ⟨d, hd⟩ := Option.isSome_iff_exists.1 hq
    exact ⟨d, mem_of_get? hd, name_of_get? hd ▸ hns⟩

/-! ## One definition per name -/

/-- No name has two definitions. -/
def Unique (r : Registry) : Prop := (r.definitions.map (·.name)).Nodup

theorem Unique.empty : ({} : Registry).Unique := List.nodup_nil

theorem Unique.merge (h : r.Unique) (d : Definition) : (r.merge d).Unique := by
  unfold Registry.merge
  split
  · next hinserted =>
    have hnew : d.name ∉ r.definitions.map (·.name) := by
      intro hmem
      have : r.contains d.name := contains_iff.2 (List.mem_map.1 hmem)
      simp [outcome_inserted_iff.1 hinserted] at this
    simpa [Unique, List.nodup_append] using
      ⟨h, fun e he hname => hnew (hname ▸ List.mem_map_of_mem he)⟩
  · have hnames : (r.definitions.map fun e => if e.name = d.name then d else e).map (·.name) =
        r.definitions.map (·.name) := by
      rw [List.map_map]
      refine List.map_congr_left fun e _ => ?_
      by_cases he : e.name = d.name <;> simp [he]
    exact (congrArg List.Nodup hnames).mpr h
  · exact h

theorem unique_foldl_merge (h : r.Unique) (offered : List Definition) :
    (offered.foldl Registry.merge r).Unique := by
  induction offered generalizing r with
  | nil => exact h
  | cons d offered ih => exact ih (h.merge d)

theorem Unique.eq_of_name (h : r.Unique) {d e : Definition} (hd : d ∈ r.definitions)
    (he : e ∈ r.definitions) (hname : d.name = e.name) : d = e := by
  have hnodup : (r.definitions.map (·.name)).Nodup := h
  exact List.inj_on_of_nodup_map hnodup hd he hname

theorem Unique.get?_eq_some_iff (h : r.Unique) {q : QName} {d : Definition} :
    r.get? q = some d ↔ d ∈ r.definitions ∧ d.name = q := by
  constructor
  · exact fun hd => ⟨mem_of_get? hd, name_of_get? hd⟩
  · rintro ⟨hd, rfl⟩
    obtain ⟨e, he⟩ : ∃ e, r.get? d.name = some e :=
      Option.isSome_iff_exists.1 (contains_iff.2 ⟨d, hd, rfl⟩)
    rw [he, h.eq_of_name (mem_of_get? he) hd (name_of_get? he)]

/-- In a table a name is looked up as in the registry. -/
theorem Unique.get?_finalize (h : r.Unique) (q : QName) : r.finalize.get? q = r.get? q := by
  by_cases hcontains : r.contains q
  · obtain ⟨d, hd⟩ := Option.isSome_iff_exists.1 (isSome_get?_finalize.2 hcontains)
    obtain ⟨hmem, hname⟩ := Table.mem_of_search hd
    rw [hd, h.get?_eq_some_iff.2 ⟨mem_definitions_finalize.1 hmem, hname⟩]
  · have hnone : r.get? q = none := by simpa [contains] using hcontains
    rw [hnone, ← Option.not_isSome_iff_eq_none, isSome_get?_finalize]
    exact hcontains

theorem Unique.get?_finalize_eq_some_iff (h : r.Unique) {q : QName} {d : Definition} :
    r.finalize.get? q = some d ↔ r.get? q = some d := by
  rw [h.get?_finalize]

end Registry

namespace Registry

variable {r r' : Registry}

/-- What registries define alike, their tables hold alike. -/
theorem finalize_congr (h : r.Unique) (h' : r'.Unique) (hget : ∀ q, r.get? q = r'.get? q) :
    r.finalize = r'.finalize := by
  have hmem (d : Definition) : d ∈ r.definitions ↔ d ∈ r'.definitions := by
    simpa [h.get?_eq_some_iff, h'.get?_eq_some_iff] using congrArg (· = some d) (hget d.name)
  have hperm : r.definitions.Perm r'.definitions :=
    (List.perm_ext_iff_of_nodup (List.Nodup.of_map _ h) (List.Nodup.of_map _ h')).2 hmem
  have hperm' := r.definitions_finalize_perm.trans
    (hperm.trans r'.definitions_finalize_perm.symm)
  have hanti : ∀ d e, d ∈ r.finalize.definitions → e ∈ r'.finalize.definitions →
      QName.le d.name e.name = true → QName.le e.name d.name = true → d = e := by
    intro d e hd he hde hed
    exact h.eq_of_name (mem_definitions_finalize.1 hd) ((hmem e).2 (mem_definitions_finalize.1 he))
      (QName.le_antisymm hde hed)
  have heq := hperm'.eq_of_pairwise hanti r.pairwise_le_finalize r'.pairwise_le_finalize
  unfold finalize at heq ⊢
  dsimp only at heq
  rw [heq]

end Registry

end ClientTypes

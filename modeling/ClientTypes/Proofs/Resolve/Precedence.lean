import Mathlib.Data.List.Nodup
import ClientTypes.Resolve.Member

/-!
# Which entries of a struct stay

The fields of a struct contribute entries, one field after another: properties of their own, and
properties that they promote. Several entries may have the same name. Then the first own one stays,
wherever it stands, and if there is no own one the first promoted one. The entries that stay keep
their order.

## Main definitions

* `LeadsAt` — the first member of its key among those with a property
* `Resolver.Contributes`, `Resolver.Collects` — the entries of a field, and of several ones
* `Resolver.choice?` — where the entry stands that stays under a name

The main statement is `properties_chosen`.
-/

namespace ClientTypes

/-! ## The first members of each key -/

section

variable {α β κ : Type} {key : α → κ} {p : α → Bool} {x : α} {xs : List α} {i : Nat}

/-- The member of a list at a position has a property, and no one before it that has the property
has the same key. -/
def LeadsAt (key : α → κ) (p : α → Bool) (xs : List α) (i : Nat) : Prop :=
  ∃ x, xs[i]? = some x ∧ p x ∧ ∀ j < i, ∀ y, xs[j]? = some y → p y → key y ≠ key x

theorem leadsAt_zero : LeadsAt key p (x :: xs) 0 ↔ p x := by
  simp [LeadsAt]

variable [DecidableEq κ]

/-- A property of those who come after a first one, and do not come too late because of it. -/
def behind (key : α → κ) (p : α → Bool) (x : α) : α → Bool :=
  fun y => p y && !(p x && key y = key x)

theorem leadsAt_succ : LeadsAt key p (x :: xs) (i + 1) ↔ LeadsAt key (behind key p x) xs i := by
  simp only [LeadsAt, List.getElem?_cons_succ, behind, Bool.and_eq_true, Bool.not_eq_true',
    Bool.and_eq_false_iff, decide_eq_false_iff_not]
  constructor
  · rintro ⟨y, hy, hp, hbefore⟩
    refine ⟨y, hy, ⟨hp, ?_⟩, fun j hj z hz hpz => hbefore (j + 1) (by omega) z (by simpa) hpz.1⟩
    cases hx : p x with
    | false => exact .inl rfl
    | true => exact .inr fun h => hbefore 0 (by omega) x rfl hx h.symm
  · rintro ⟨y, hy, ⟨hp, hx⟩, hbefore⟩
    refine ⟨y, hy, hp, fun j hj z hz hpz hkey => ?_⟩
    cases j with
    | zero =>
      obtain rfl : x = z := by simpa using hz
      rcases hx with hx | hx
      · simp [hpz] at hx
      · exact hx hkey.symm
    | succ j => exact hbefore j (by omega) z (by simpa using hz) ⟨hpz, hkey ▸ hx⟩ hkey

theorem distinctOn_filter_cons :
    distinctOn key ((x :: xs).filter p) =
      (if p x then [x] else []) ++ distinctOn key (xs.filter (behind key p x)) := by
  rw [List.filter_cons]
  cases hp : p x with
  | true =>
    have hbehind : behind key p x = fun y => decide (key y ≠ key x) && p y := by
      funext y
      simp [behind, hp, Bool.and_comm]
    simp only [if_true, distinctOn, List.singleton_append]
    rw [filter_distinctOn key (fun k => decide (k ≠ key x)), List.filter_filter, hbehind]
  | false =>
    have hbehind : behind key p x = p := by
      funext y
      simp [behind, hp]
    simp [hbehind]

/-- The first members of each key among those with a property, in the order in which they stand. -/
theorem exists_leadsAt (key : α → κ) (p : α → Bool) (xs : List α) :
    ∃ is : List Nat, is.Pairwise (· < ·) ∧ (∀ i, i ∈ is ↔ LeadsAt key p xs i) ∧
      (distinctOn key (xs.filter p)).map some = is.map (xs[·]?) := by
  induction xs generalizing p with
  | nil => exact ⟨[], .nil, by simp [LeadsAt], rfl⟩
  | cons x xs ih =>
    obtain ⟨is, hlt, hmem, hmap⟩ := ih (behind key p x)
    refine ⟨(if p x then [0] else []) ++ is.map (· + 1), ?_, fun i => ?_, ?_⟩
    · refine List.pairwise_append.2 ⟨?_, hlt.map _ fun _ _ h => by omega, ?_⟩
      · split <;> simp
      · intro i hi j hj
        obtain ⟨k, -, rfl⟩ := List.mem_map.1 hj
        split at hi <;> simp_all
    · cases i with
      | zero => simp [leadsAt_zero]
      | succ i => simp [leadsAt_succ, ← hmem]
    · rw [distinctOn_filter_cons, List.map_append, List.map_append, hmap]
      cases p x <;> simp

end

namespace Resolver

variable {r : Resolver} {inner : TypeId → Resolving Descriptor} {f : Field} {es : List Entry}
  {i : Nat} {name : String}

/-! ## Entries -/

/-- What a field contributes in a chain, and the chain that it leaves behind: its own property, what
it promotes, or, if that is no struct and the field is exported, a property of its own after all. -/
inductive Contributes (r : Resolver) (inner : TypeId → Resolving Descriptor) (f : Field) :
    Chain → List Entry → Chain → Prop
  | hidden {c : Chain} : f.role r.tagKey = .skip → Contributes r inner f c [] c
  | own {c c' : Chain} {wire : WireField} {x : Property Descriptor} :
      f.role r.tagKey = .property wire → (r.property inner f wire).run c = (x, c') →
        Contributes r inner f c [⟨x, false⟩] c'
  | promoted {c c' : Chain} {fallback : WireField} {ps : List (Property Descriptor)} :
      f.role r.tagKey = .splice fallback → (promoted inner f).run c = (some ps, c') →
        Contributes r inner f c (ps.map (⟨·, true⟩)) c'
  | fallback {c c' c'' : Chain} {fallback : WireField} {x : Property Descriptor} :
      f.role r.tagKey = .splice fallback → (Resolver.promoted inner f).run c = (none, c') →
        f.isExported → (r.property inner f fallback).run c' = (x, c'') →
          Contributes r inner f c [⟨x, false⟩] c''
  | unexported {c c' : Chain} {fallback : WireField} :
      f.role r.tagKey = .splice fallback → (Resolver.promoted inner f).run c = (none, c') →
        f.isExported = false → Contributes r inner f c [] c'

/-- What several fields contribute, one after another. -/
inductive Collects (r : Resolver) (inner : TypeId → Resolving Descriptor) :
    List Field → Chain → List Entry → Chain → Prop
  | nil {c : Chain} : Collects r inner [] c [] c
  | cons {f : Field} {fs : List Field} {c c' c'' : Chain} {es es' : List Entry} :
      r.Contributes inner f c es c' → Collects r inner fs c' es' c'' →
        Collects r inner (f :: fs) c (es ++ es') c''

theorem contributes_fieldEntries (f : Field) (c : Chain) :
    r.Contributes inner f c ((r.fieldEntries inner f).run c).1
      ((r.fieldEntries inner f).run c).2 := by
  unfold fieldEntries
  cases hr : f.role r.tagKey with
  | skip => exact .hidden hr
  | property wire => exact .own hr rfl
  | splice fallback =>
    simp only [StateT.run_bind]
    cases hp : (promoted inner f).run c with
    | mk o c' =>
      cases o with
      | some ps => exact .promoted hr hp
      | none =>
        cases he : f.isExported with
        | true => exact .fallback hr hp he rfl
        | false => exact .unexported hr hp he

theorem collects_mapM (fields : List Field) (c : Chain) :
    r.Collects inner fields c ((fields.mapM (r.fieldEntries inner)).run c).1.flatten
      ((fields.mapM (r.fieldEntries inner)).run c).2 := by
  induction fields generalizing c with
  | nil => exact .nil
  | cons f fs ih =>
    rw [List.mapM_cons]
    exact .cons (contributes_fieldEntries f c) (ih _)

/-! ## Choices -/

/-- Where the entry stands that stays under a name: the first own one, or if there is none the first
promoted one. -/
def choice? (es : List Entry) (name : String) : Option Nat :=
  (es.findIdx? fun e => !e.promoted && e.property.name == name).or
    (es.findIdx? fun e => e.promoted && e.property.name == name)

/-- Whether an entry is an own one, or has a name that no own one has. -/
def eligible (es : List Entry) (e : Entry) : Bool :=
  !(e.promoted && ((es.filter (!·.promoted)).map (·.property.name)).contains e.property.name)

/-- There is an own entry with the name. -/
def Owned (es : List Entry) (name : String) : Prop :=
  ∃ e ∈ es, e.promoted = false ∧ e.property.name = name

theorem eligible_iff {e : Entry} :
    eligible es e ↔ (e.promoted = true → ¬ Owned es e.property.name) := by
  simp only [eligible, Bool.not_eq_true', Bool.and_eq_false_imp, List.contains_eq_mem,
    decide_eq_false_iff_not, List.mem_map, List.mem_filter, Owned, and_assoc]

theorem findIdx?_own_eq_none_iff :
    (es.findIdx? fun e => !e.promoted && e.property.name == name) = none ↔ ¬ Owned es name := by
  simp [Owned]

/-- An entry with the name that comes before the one that stays is promoted, and then that one is an
own one. -/
theorem choice?_eq_some_iff : choice? es name = some i ↔ ∃ e, es[i]? = some e ∧
    e.property.name = name ∧ (e.promoted = true → ¬ Owned es name) ∧ ∀ j < i, ∀ e',
      es[j]? = some e' → e'.property.name = name → e.promoted = false ∧ e'.promoted = true := by
  unfold choice?
  rw [Option.or_eq_some_iff, findIdx?_own_eq_none_iff]
  simp only [List.findIdx?_eq_some_iff_getElem, Bool.and_eq_true, Bool.not_eq_true', beq_iff_eq]
  constructor
  · rintro (⟨hi, ⟨hown, hname⟩, hbefore⟩ | ⟨hnone, hi, ⟨hpromoted, hname⟩, hbefore⟩)
    · refine ⟨es[i], List.getElem?_eq_getElem hi, hname, by simp [hown],
        fun j hj e' he' hname' => ?_⟩
      obtain ⟨hj', rfl⟩ := List.getElem?_eq_some_iff.1 he'
      have := hbefore j hj
      exact ⟨hown, by simpa [hname'] using this⟩
    · refine ⟨es[i], List.getElem?_eq_getElem hi, hname, fun _ => hnone,
        fun j hj e' he' hname' => ?_⟩
      obtain ⟨hj', rfl⟩ := List.getElem?_eq_some_iff.1 he'
      have hown : es[j].promoted = false := by simpa [hname'] using hbefore j hj
      exact absurd ⟨_, List.getElem_mem hj', hown, hname'⟩ hnone
  · rintro ⟨e, he, hname, hp, hbefore⟩
    obtain ⟨hi, rfl⟩ := List.getElem?_eq_some_iff.1 he
    cases hpromoted : es[i].promoted with
    | false =>
      refine .inl ⟨hi, ⟨hpromoted, hname⟩, fun j hj ⟨hown, hname'⟩ => ?_⟩
      have := hbefore j hj _ (List.getElem?_eq_getElem (by omega)) hname'
      simp [hown] at this
    | true =>
      refine .inr ⟨hp hpromoted, hi, ⟨hpromoted, hname⟩, fun j hj ⟨_, hname'⟩ => ?_⟩
      have := hbefore j hj _ (List.getElem?_eq_getElem (by omega)) hname'
      simp [hpromoted] at this

theorem leadsAt_eligible_iff :
    LeadsAt (·.property.name) (eligible es) es i ↔ ∃ name, choice? es name = some i := by
  simp only [LeadsAt, eligible_iff, choice?_eq_some_iff]
  constructor
  · rintro ⟨e, he, hp, hbefore⟩
    refine ⟨_, e, he, rfl, hp, fun j hj e' he' hname => ?_⟩
    -- An earlier entry with the name is not eligible, so it is promoted and there is an own one.
    have hdropped := mt (hbefore j hj e' he') (not_not.2 hname)
    rw [hname] at hdropped
    obtain ⟨hpromoted, howned⟩ := Classical.not_imp.1 hdropped
    exact ⟨Bool.eq_false_iff.2 fun h => hp h (not_not.1 howned), hpromoted⟩
  · rintro ⟨name, e, he, rfl, hp, hbefore⟩
    refine ⟨e, he, hp, fun j hj e' he' hp' hname => ?_⟩
    obtain ⟨hown, hpromoted⟩ := hbefore j hj e' he' hname
    exact hp' hpromoted ⟨e, List.mem_of_getElem? he, hown, hname.symm⟩

/-- A name has an entry that stays if there is an entry of that name. -/
theorem isSome_choice? : (choice? es name).isSome ↔ name ∈ es.map (·.property.name) := by
  simp only [choice?, Option.isSome_or, List.findIdx?_isSome, Bool.or_eq_true, List.any_eq_true,
    List.mem_map]
  grind

/-- The entries that stay, in the order in which they stand. -/
theorem exists_choices (es : List Entry) :
    ∃ is : List Nat, is.Pairwise (· < ·) ∧ (∀ i, i ∈ is ↔ ∃ name, choice? es name = some i) ∧
      (selectEntries es).map some = is.map fun i => es[i]?.map (·.property) := by
  obtain ⟨is, hlt, hmem, hmap⟩ := exists_leadsAt (·.property.name) (eligible es) es
  refine ⟨is, hlt, fun i => (hmem i).trans leadsAt_eligible_iff, ?_⟩
  have hselect : selectEntries es =
      (distinctOn (·.property.name) (es.filter (eligible es))).map (·.property) :=
    (map_distinctOn (fun _ => rfl) _).symm
  rw [hselect, List.map_map]
  calc (distinctOn (·.property.name) (es.filter (eligible es))).map (some ∘ (·.property))
    _ = ((distinctOn (·.property.name) (es.filter (eligible es))).map some).map
          (Option.map (·.property)) := by rw [List.map_map]; rfl
    _ = is.map fun i => es[i]?.map (·.property) := by rw [hmap, List.map_map]; rfl

/-- The names among the entries are those of the properties. -/
theorem mem_names_selectEntries (es : List Entry) :
    name ∈ (selectEntries es).map (·.name) ↔ name ∈ es.map (·.property.name) := by
  obtain ⟨is, -, hmem, hmap⟩ := exists_choices es
  constructor
  · intro hname
    obtain ⟨p, hp, rfl⟩ := List.mem_map.1 hname
    have hp := List.mem_map_of_mem (f := some) hp
    rw [hmap] at hp
    obtain ⟨i, -, hi⟩ := List.mem_map.1 hp
    obtain ⟨e, he, rfl⟩ := Option.map_eq_some_iff.1 hi
    exact List.mem_map_of_mem (List.mem_of_getElem? he)
  · intro hname
    obtain ⟨i, hi⟩ := Option.isSome_iff_exists.1 (isSome_choice?.2 hname)
    obtain ⟨e, he, rfl, -⟩ := choice?_eq_some_iff.1 hi
    have hp := List.mem_map_of_mem (f := fun i => es[i]?.map (·.property)) ((hmem i).2 ⟨_, hi⟩)
    rw [← hmap, he] at hp
    obtain ⟨p, hp, hpe⟩ := List.mem_map.1 hp
    obtain rfl : p = e.property := Option.some.inj hpe
    exact List.mem_map_of_mem hp

/-! ## The properties of a struct -/

/-- Wherever a struct is resolved, it has one property for each name among the entries that its
fields contribute there. It is the first own entry of that name if there is any, and else the first
promoted one, and the entries that stay keep their order. -/
theorem properties_chosen (r : Resolver) (inner : TypeId → Resolving Descriptor) (id : TypeId)
    (fields : List Field) (c : Chain) :
    ∃ es ps c', r.Collects inner fields c es c' ∧
      (r.body inner id (.struct fields)).run c = (.struct ps, c') ∧
      (ps.map (·.name)).Nodup ∧ (∀ name, name ∈ ps.map (·.name) ↔ name ∈ es.map (·.property.name)) ∧
      ∃ is : List Nat, is.Pairwise (· < ·) ∧ (∀ i, i ∈ is ↔ ∃ name, choice? es name = some i) ∧
        ps.map some = is.map fun i => es[i]?.map (·.property) :=
  ⟨_, _, _, collects_mapM fields c, rfl, nodup_map_distinctOn _ _,
    fun _ => mem_names_selectEntries _, exists_choices _⟩

end Resolver

end ClientTypes

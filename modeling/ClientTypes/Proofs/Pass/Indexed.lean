import ClientTypes.Proofs.Pass.Rest
import ClientTypes.Proofs.Registry.TypeIndex

/-!
# The list of types in a pass

Where every name is that of a single type, a definition can only be replaced by one that comes from
the same type. The list of types that a pass fills gaps by then has exactly the types of its
definitions.

## Main definitions

* `Registry.Indexed` — the list has the types of the definitions

The main statement is `containsType_contracts`.
-/

namespace ClientTypes

namespace Registry

variable {r : Registry} {d : Definition}

/-- The types on the list are those that the definitions come from. -/
def Indexed (r : Registry) : Prop := ∀ id, id ∈ r.typeIds ↔ id ∈ r.definitions.map (·.typeId)

/-- An offer that comes from the type of the definition of its name adds a type only if there is no
such definition. -/
theorem map_typeId_merge (h : ∀ e ∈ r.definitions, e.name = d.name → e.typeId = d.typeId) :
    (r.merge d).definitions.map (·.typeId) =
      r.definitions.map (·.typeId) ++ if r.contains d.name then [] else [d.typeId] := by
  cases hd : r.outcome d with
  | inserted => simp [merge, hd, outcome_inserted_iff.1 hd]
  | replaced =>
    have hcontains : r.contains d.name = true := by
      obtain ⟨e, he, -⟩ := outcome_replaced_iff.1 hd
      simp [contains, he]
    have htypes : (r.definitions.map fun e => if e.name = d.name then d else e).map (·.typeId) =
        r.definitions.map (·.typeId) := by
      rw [List.map_map]
      refine List.map_congr_left fun e he => ?_
      by_cases hname : e.name = d.name
      · simp [hname, h e he hname]
      · simp [hname]
    simpa [merge, hd, hcontains] using htypes
  | kept =>
    obtain ⟨e, he, -⟩ := outcome_kept_iff.1 hd
    simp [merge_of_kept hd, contains, he]

theorem Indexed.merge (h : r.Indexed)
    (hd : ∀ e ∈ r.definitions, e.name = d.name → e.typeId = d.typeId) : (r.merge d).Indexed := by
  intro id
  rw [mem_typeIds_merge, map_typeId_merge hd, h id, List.mem_append, or_comm]
  cases r.contains d.name <;> simp

end Registry

namespace Resolver

variable {r : Resolver} {c : Chain} {id : TypeId} {decl : TypeDecl} {q : QName}

/-- What is defined under the name of a type comes from that type. -/
theorem Grounded.typeId_of_name (hdistinct : r.project.Distinct) (hc : r.Grounded c)
    (hd : r.project.type? id = some decl) (hq : decl.qname? = some q) :
    ∀ e ∈ c.registry.definitions, e.name = q → e.typeId = id := by
  rintro e he rfl
  obtain ⟨_, horigin⟩ := hc.origin e he
  exact hdistinct _ _ _ horigin.names ⟨decl, hd, hq⟩

theorem steps_indexed (hdistinct : r.project.Distinct) : r.Steps Registry.Indexed where
  hide hc hh hname :=
    hc.registry.merge (hc.grounded.typeId_of_name hdistinct hh.declared hname)
  back hc ho hname _ _ :=
    hc.registry.merge (hc.grounded.typeId_of_name hdistinct ho.declared hname)
  complete {n id decl name c c' b} hsite _ hname _ hc' _ := by
    have hmerge := hc'.registry.merge (d := definition id decl name b)
      (hc'.grounded.typeId_of_name hdistinct hsite.opens.declared hname)
    simpa [Registry.Indexed] using hmerge

end Resolver

/-- In a pass over a project whose types have names of their own, the types on the list are those
that the definitions come from. -/
theorem Pass.containsType_contracts {p : Pass} (hdistinct : p.resolver.project.Distinct)
    (cs : List Contract) (id : TypeId) :
    (p.contracts cs {}).2.containsType id ↔
      ∃ d ∈ (p.contracts cs {}).2.definitions, d.typeId = id := by
  have hempty : ({} : Registry).Indexed := fun _ => by simp
  have hindexed := (rests_contracts (Resolver.steps_indexed hdistinct) hempty cs).registry
  rw [Registry.containsType, List.contains_iff_mem, hindexed id, List.mem_map]

end ClientTypes

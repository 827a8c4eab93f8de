import Mathlib.Logic.Relation
import ClientTypes.Registry.Basic

/-!
# The struct behind a name

A walk from a name follows aliases of named types and remembers the names that it has met. Each name
leads to at most one other, so a walk that comes back to a name would go round for ever, and never
gets to a struct. Giving up there cuts nothing off: a struct is found exactly where the aliases lead
to one. As a walk goes on only from names that are defined, it cannot take more turns than there are
definitions, and one.

## Main definitions

* `Registry.Links` — an alias of a named type leads from one name to another
* `Registry.DeadEnd` — a name from which nothing leads on, and which is no struct
* `Registry.Walk` — a walk with the number of its turns and its answer
* `Registry.Ends` — what aliases lead to, without the walk

The main statement is `Registry.walk_and_structBehind?_iff`.
-/

namespace ClientTypes

namespace Registry

variable {r : Registry} {met : List QName} {name next q s : QName} {n : Nat}
  {ps ps' : List (Property Descriptor)} {answer answer' : Option (List (Property Descriptor))}

/-! ## Links between names -/

/-- The name is defined as an alias of a named type. -/
def Links (r : Registry) (name next : QName) : Prop :=
  ∃ target, r.body? name = some (.aliasOf target) ∧ target.shape = .named next

/-- The name is missing, or is defined as an interface or as an alias of some other type. -/
inductive DeadEnd (r : Registry) (name : QName) : Prop
  | missing : r.get? name = none → DeadEnd r name
  | interface {methods : List (MethodShape Descriptor)} :
      r.body? name = some (.interface methods) → DeadEnd r name
  | otherAlias {target : Descriptor} : r.body? name = some (.aliasOf target) →
      (∀ next, target.shape ≠ .named next) → DeadEnd r name

theorem body?_of_get? {d : Definition} (h : r.get? name = some d) :
    r.body? name = some d.body := by
  rw [body?, h]
  rfl

theorem rightUnique_links (r : Registry) : Relator.RightUnique r.Links := by
  rintro name next next' ⟨target, hbody, hshape⟩ ⟨target', hbody', hshape'⟩
  obtain rfl : target = target' := by simpa [hbody] using hbody'
  simpa [hshape] using hshape'

theorem not_links_of_struct (h : r.body? name = some (.struct ps)) : ¬ r.Links name next := by
  rintro ⟨target, hbody, -⟩
  simp [h] at hbody

theorem DeadEnd.not_links (h : r.DeadEnd name) : ¬ r.Links name next := by
  rintro ⟨target, hbody, hshape⟩
  cases h with
  | missing hget => simp [body?, hget] at hbody
  | interface hinterface => simp [hinterface] at hbody
  | otherAlias halias hother =>
    obtain rfl : _ = target := by simpa [halias] using hbody
    exact hother next hshape

theorem DeadEnd.not_struct (h : r.DeadEnd name) : r.body? name ≠ some (.struct ps) := by
  intro hbody
  cases h with
  | missing hget => simp [body?, hget] at hbody
  | interface hinterface => simp [hinterface] at hbody
  | otherAlias halias _ => simp [halias] at hbody

/-! ## Walks -/

theorem structFrom_of_mem (hmet : name ∈ met) : r.structFrom met name = none := by
  rw [structFrom, dif_pos hmet]

theorem structFrom_of_get?_none (hmet : name ∉ met) (h : r.get? name = none) :
    r.structFrom met name = none := by
  rw [structFrom, dif_neg hmet]
  split
  · rfl
  · next d hd => simp [h] at hd

theorem structFrom_of_get? {d : Definition} (hmet : name ∉ met) (hd : r.get? name = some d) :
    r.structFrom met name = match d.body with
      | .struct ps => some ps
      | .interface _ => none
      | .aliasOf target =>
        match target.shape with
        | .named next => r.structFrom (name :: met) next
        | _ => none := by
  rw [structFrom, dif_neg hmet]
  split
  · next h => simp [hd] at h
  · next d' h =>
    obtain rfl : d' = d := Option.some.inj (h.symm.trans hd)
    rfl

/-- The properties behind a name are those of some definition. -/
theorem exists_struct_of_structFrom (h : r.structFrom met name = some ps) :
    ∃ d ∈ r.definitions, d.body = .struct ps := by
  fun_induction structFrom r met name with
  | case3 met name _ d hd ps' hb =>
    obtain rfl : ps' = ps := by simpa using h
    exact ⟨d, mem_of_get? hd, hb⟩
  | case5 _ _ _ _ _ _ _ _ _ ih => exact ih h
  | case1 | case2 | case4 | case6 => simp at h

/-- A walk from a name, once it has met others: how many turns it takes, and its answer. -/
inductive Walk (r : Registry) :
    List QName → QName → Nat → Option (List (Property Descriptor)) → Prop
  | met {met : List QName} {name : QName} : name ∈ met → Walk r met name 1 none
  | deadEnd {met : List QName} {name : QName} :
      name ∉ met → r.DeadEnd name → Walk r met name 1 none
  | struct {met : List QName} {name : QName} {ps : List (Property Descriptor)} :
      name ∉ met → r.body? name = some (.struct ps) → Walk r met name 1 (some ps)
  | link {met : List QName} {name next : QName} {n : Nat}
      {answer : Option (List (Property Descriptor))} :
      name ∉ met → r.Links name next → Walk r (name :: met) next n answer →
        Walk r met name (n + 1) answer

/-- The answer from a name is that of a walk. Each turn but the last one meets a definition that has
not been met before. -/
theorem exists_walk (r : Registry) (met : List QName) (name : QName) :
    ∃ n ≤ (r.unmet met).length + 1, r.Walk met name n (r.structFrom met name) := by
  fun_induction structFrom r met name with
  | case1 met name hmet => exact ⟨1, by omega, .met hmet⟩
  | case2 met name hmet hget => exact ⟨1, by omega, .deadEnd hmet (.missing hget)⟩
  | case3 met name hmet d hd ps hps =>
    have hbody := body?_of_get? hd
    rw [hps] at hbody
    exact ⟨1, by omega, .struct hmet hbody⟩
  | case4 met name hmet d hd methods hmethods =>
    have hbody := body?_of_get? hd
    rw [hmethods] at hbody
    exact ⟨1, by omega, .deadEnd hmet (.interface hbody)⟩
  | case5 met name hmet d hd target htarget next hnext ih =>
    have hbody := body?_of_get? hd
    rw [htarget] at hbody
    obtain ⟨n, hn, hwalk⟩ := ih
    have hlt := length_unmet_lt hmet hd
    exact ⟨n + 1, by omega, .link hmet ⟨target, hbody, hnext⟩ hwalk⟩
  | case6 met name hmet d hd target htarget hother =>
    have hbody := body?_of_get? hd
    rw [htarget] at hbody
    exact ⟨1, by omega, .deadEnd hmet (.otherAlias hbody hother)⟩

/-- What aliases lead to from a name: to a struct, or else to a dead end or into a circle. -/
def Ends (r : Registry) (name : QName) : Option (List (Property Descriptor)) → Prop
  | some ps => ∃ q, Relation.ReflTransGen r.Links name q ∧ r.body? q = some (.struct ps)
  | none => ∃ q, Relation.ReflTransGen r.Links name q ∧
      (r.DeadEnd q ∨ Relation.TransGen r.Links q q)

theorem Ends.link (h : r.Links name next) (hends : r.Ends next answer) : r.Ends name answer := by
  cases answer with
  | none =>
    obtain ⟨q, hq, hend⟩ := hends
    exact ⟨q, .head h hq, hend⟩
  | some ps =>
    obtain ⟨q, hq, hbody⟩ := hends
    exact ⟨q, .head h hq, hbody⟩

/-- A walk finds what the aliases lead to. All names that it has met lead to where it is, so a name
that it meets again is on a circle. -/
theorem Walk.ends (h : r.Walk met name n answer)
    (hmet : ∀ m ∈ met, Relation.TransGen r.Links m name) : r.Ends name answer := by
  induction h with
  | met hname => exact ⟨_, .refl, .inr (hmet _ hname)⟩
  | deadEnd _ hdead => exact ⟨_, .refl, .inl hdead⟩
  | struct _ hbody => exact ⟨_, .refl, hbody⟩
  | link _ hlink _ ih =>
    refine .link hlink (ih fun m hm => ?_)
    rcases List.mem_cons.1 hm with rfl | hm
    · exact .single hlink
    · exact (hmet m hm).tail hlink

/-! ## Only one end -/

/-- Of two names that aliases lead to, a struct is the last. -/
theorem leadsTo_struct (hq : Relation.ReflTransGen r.Links name q)
    (hbody : r.body? q = some (.struct ps)) (hs : Relation.ReflTransGen r.Links name s) :
    Relation.ReflTransGen r.Links s q := by
  rcases hs.total_of_right_unique (rightUnique_links r) hq with hsq | hqs
  · exact hsq
  · rcases hqs.cases_head with rfl | ⟨next, hlink, -⟩
    · exact .refl
    · exact absurd hlink (not_links_of_struct hbody)

/-- A name that leads to a struct does not lead back to itself. -/
theorem not_circle_of_leadsTo_struct (hq : Relation.ReflTransGen r.Links s q)
    (hbody : r.body? q = some (.struct ps)) : ¬ Relation.TransGen r.Links s s := by
  induction hq using Relation.ReflTransGen.head_induction_on with
  | refl =>
    intro hcircle
    obtain ⟨next, hlink, -⟩ := Relation.TransGen.head'_iff.1 hcircle
    exact not_links_of_struct hbody hlink
  | head hlink _ ih =>
    intro hcircle
    obtain ⟨next, hlink', hback⟩ := Relation.TransGen.head'_iff.1 hcircle
    obtain rfl := rightUnique_links r hlink hlink'
    -- The circle goes on to the next name, which leads to the struct as well.
    exact ih (.tail' hback hlink)

theorem not_ends_none_of_struct (hends : r.Ends name (some ps)) : ¬ r.Ends name none := by
  rintro ⟨s, hs, hend⟩
  obtain ⟨q, hq, hbody⟩ := hends
  -- The end that is no struct would have to lead on to the struct.
  have hsq := leadsTo_struct hq hbody hs
  rcases hend with hdead | hcircle
  · rcases hsq.cases_head with rfl | ⟨next, hlink, -⟩
    · exact hdead.not_struct hbody
    · exact hdead.not_links hlink
  · exact not_circle_of_leadsTo_struct hsq hbody hcircle

theorem Ends.unique (h : r.Ends name answer) (h' : r.Ends name answer') : answer = answer' := by
  match answer, answer' with
  | none, none => rfl
  | some _, none => exact (not_ends_none_of_struct h h').elim
  | none, some _ => exact (not_ends_none_of_struct h' h).elim
  | some ps, some ps' =>
    obtain ⟨q, hq, hbody⟩ := h
    obtain ⟨s, hs, hbody'⟩ := h'
    rcases (leadsTo_struct hq hbody hs).cases_head with rfl | ⟨next, hlink, -⟩
    · simpa [hbody] using hbody'
    · exact absurd hlink (not_links_of_struct hbody')

/-- A name has the answer that fits what the aliases lead to. -/
theorem structBehind?_eq_iff_ends : r.structBehind? name = answer ↔ r.Ends name answer := by
  obtain ⟨n, -, hwalk⟩ := r.exists_walk [] name
  have hends : r.Ends name (r.structBehind? name) := hwalk.ends (by simp)
  exact ⟨fun h => h ▸ hends, hends.unique⟩

/-- In any registry, a walk from a name comes to its answer, in at most one turn more than there are
definitions. The answer is the properties of a struct just where aliases of named types lead to that
struct; there is none just where they lead to a name that is missing, an interface or another alias,
or back to a name that they have led to before. -/
theorem walk_and_structBehind?_iff (r : Registry) (name : QName) :
    (∃ n ≤ r.size + 1, r.Walk [] name n (r.structBehind? name)) ∧
    (∀ ps, r.structBehind? name = some ps ↔
      ∃ q, Relation.ReflTransGen r.Links name q ∧ r.body? q = some (.struct ps)) ∧
    (r.structBehind? name = none ↔
      ∃ q, Relation.ReflTransGen r.Links name q ∧
        (r.DeadEnd q ∨ Relation.TransGen r.Links q q)) := by
  refine ⟨?_, fun ps => structBehind?_eq_iff_ends, structBehind?_eq_iff_ends⟩
  obtain ⟨n, hn, hwalk⟩ := r.exists_walk [] name
  have hle : (r.unmet []).length ≤ r.size := List.length_filter_le _ _
  exact ⟨n, by omega, hwalk⟩

attribute [local semireducible] structFrom in
/-- One alias of a struct, and two of each other. -/
example :
    let name (text : String) : QName := ⟨"web", text⟩
    let define (text : String) (body : Body) : Definition := ⟨name text, ⟨text⟩, body, none⟩
    let link (text target : String) := define text (.aliasOf (.named (name target)))
    let r := [link "A" "S", link "B" "C", link "C" "B", define "S" (.struct [])].foldl merge {}
    (r.structBehind? (name "A")).isSome ∧ (r.structBehind? (name "B")).isNone := by
  decide

end Registry

end ClientTypes

import ClientTypes.Proofs.Namespace.Aliases

/-!
# When aliases are numbered

Widening ends where no colliding namespace has another segment. So the candidates that two
namespaces share in the end are made of their whole paths. Numbering takes the namespaces in order
and leaves a candidate as it is unless an earlier namespace has it already. That one may share it;
or it may be a number that has made the candidate of the earlier namespace the same word.

## Main definitions

* `NamespaceAliases.wholeName` — the identifier made of a whole path
* `NamespaceAliases.Settled` — widening has ended
* `NamespaceAliases.Forestalled` — a word of a namespace has been used up for a number

The main statement is `exists_wholeName_eq_or_forestalled`.
-/

namespace ClientTypes

namespace NamespaceAliases

variable {used : List String} {base : String} {widths : Widths} {namespaces : List String}
  {ns ns' word : String} {w w' : Nat}

/-- The identifier made of all segments of a namespace. -/
def wholeName (ns : String) : String :=
  Text.sanitize ("_".intercalate (Text.segments ns))

theorem candidate_of_length_le (h : (Text.segments ns).length ≤ w) :
    candidate ns w = wholeName ns := by
  simp [candidate, wholeName, Nat.sub_eq_zero_of_le h]

/-! ## Where widening ends -/

/-- Nothing more can be widened. -/
def Settled (widths : Widths) : Prop := widenOnce widths = widths

theorem settled_widen (widths : Widths) : Settled (widen widths) := by
  fun_induction widen widths with
  | case1 widths wider hsame => exact hsame
  | case2 widths wider hwider ih => exact ih

/-- In the end a namespace that collides goes by its whole path. -/
theorem Settled.length_le (h : Settled widths) (hmem : (ns, w) ∈ widths)
    (hc : collides widths ns w = true) : (Text.segments ns).length ≤ w := by
  by_contra hlt
  have hfixed : ∀ entry ∈ widths, _ = id entry :=
    List.map_inj_left.1 (h.trans (List.map_id widths).symm)
  have hentry := hfixed (ns, w) hmem
  simp [hc, Nat.lt_of_not_le hlt] at hentry

/-- Two namespaces with the same candidate in the end have the same whole name. -/
theorem Settled.wholeName_eq (h : Settled widths) (hmem : (ns, w) ∈ widths)
    (hmem' : (ns', w') ∈ widths) (hne : ns' ≠ ns) (heq : candidate ns' w' = candidate ns w) :
    wholeName ns' = wholeName ns := by
  have hc : collides widths ns w = true :=
    List.any_eq_true.2 ⟨(ns', w'), hmem', by simp [hne, heq]⟩
  have hc' : collides widths ns' w' = true :=
    List.any_eq_true.2 ⟨(ns, w), hmem, by simp [hne.symm, heq]⟩
  rw [← candidate_of_length_le (h.length_le hmem hc), ← heq,
    candidate_of_length_le (h.length_le hmem' hc')]

/-! ## Numbers -/

/-- The word of a namespace is its candidate. If a namespace before has got that, or it was in use
from the start, there is a number behind it. -/
theorem number_spec (h : (ns, word) ∈ number used widths) : ∃ w before after,
    (ns, w) ∈ widths ∧ number used widths = before ++ (ns, word) :: after ∧
      (word = candidate ns w ∨ candidate ns w ∈ used ++ before.map (·.2) ∧
        ∃ n, 2 ≤ n ∧ word = candidate ns w ++ toString n) := by
  induction widths generalizing used with
  | nil => simp [number] at h
  | cons entry widths ih =>
    obtain ⟨first, v⟩ := entry
    rw [number] at h ⊢
    rcases List.mem_cons.1 h with heq | h
    · obtain ⟨rfl, rfl⟩ := Prod.mk.inj heq
      refine ⟨v, [], _, List.mem_cons_self, rfl, ?_⟩
      simpa using fresh_cases used (candidate ns v)
    · obtain ⟨w, before, after, hmem, hsplit, hword⟩ := ih h
      refine ⟨w, (first, fresh used (candidate first v)) :: before, after,
        List.mem_cons_of_mem _ hmem, ?_, ?_⟩
      · rw [hsplit]
        rfl
      · refine hword.imp_right (And.imp_left fun htaken => ?_)
        simpa [or_left_comm] using htaken

/-- Where all candidates differ from each other there are no numbers. -/
theorem eq_candidate_of_nodup
    (h : (used ++ widths.map fun entry => candidate entry.1 entry.2).Nodup)
    (hmem : (ns, word) ∈ number used widths) : ∃ w, word = candidate ns w := by
  induction widths generalizing used with
  | nil => simp [number] at hmem
  | cons entry widths ih =>
    obtain ⟨first, v⟩ := entry
    rw [List.map_cons, List.nodup_middle] at h
    have hfree : candidate first v ∉ used :=
      fun hused => (List.nodup_cons.1 h).1 (List.mem_append_left _ hused)
    have hfresh : fresh used (candidate first v) = candidate first v :=
      (fresh_cases used (candidate first v)).resolve_right fun hused => hfree hused.1
    rw [number, hfresh] at hmem
    rcases List.mem_cons.1 hmem with heq | hmem
    · obtain ⟨rfl, rfl⟩ := Prod.mk.inj heq
      exact ⟨v, rfl⟩
    · exact ih h hmem

/-! ## Aliases -/

/-- How many segments each namespace goes by in the end. -/
def finalWidths (namespaces : List String) : Widths := widen ((sortedSet namespaces).map (·, 1))

theorem map_fst_finalWidths (namespaces : List String) :
    (finalWidths namespaces).map (·.1) = sortedSet namespaces := by
  rw [finalWidths, map_fst_widen, List.map_map]
  exact List.map_id _

theorem mem_of_mem_finalWidths (h : (ns, w) ∈ finalWidths namespaces) : ns ∈ namespaces := by
  rw [← mem_sortedSet, ← map_fst_finalWidths]
  exact List.mem_map_of_mem (f := (·.1)) h

/-- The alias of a namespace is its candidate. If a namespace before has got that as its alias,
there is a number behind it. -/
theorem assign_spec (h : (ns, word) ∈ (assign namespaces).entries) : ∃ w before after,
    (ns, w) ∈ finalWidths namespaces ∧
      (assign namespaces).entries = before ++ (ns, word) :: after ∧
        (word = candidate ns w ∨ candidate ns w ∈ before.map (·.2) ∧
          ∃ n, 2 ≤ n ∧ word = candidate ns w ++ toString n) :=
  number_spec h

/-- If there are numbers at all, two namespaces have the same whole name. -/
theorem exists_wholeName_eq (h : (assign namespaces).get? ns = some word)
    (hnumbered : ∀ width, word ≠ candidate ns width) :
    ∃ a ∈ namespaces, ∃ b ∈ namespaces, a ≠ b ∧ wholeName a = wholeName b := by
  by_contra hnone
  have hnodup : ((finalWidths namespaces).map (·.1)).Nodup := by
    rw [map_fst_finalWidths]
    exact nodup_sortedSet namespaces
  have hinj : ∀ a ∈ finalWidths namespaces, ∀ b ∈ finalWidths namespaces,
      candidate a.1 a.2 = candidate b.1 b.2 → a = b := by
    intro a ha b hb heq
    refine List.inj_on_of_nodup_map hnodup ha hb (by_contra fun hne => hnone ?_)
    exact ⟨a.1, mem_of_mem_finalWidths ha, b.1, mem_of_mem_finalWidths hb, hne,
      (settled_widen _).wholeName_eq hb ha hne heq⟩
  have hcandidates : ((finalWidths namespaces).map fun e => candidate e.1 e.2).Nodup :=
    List.Nodup.map_on hinj (List.Nodup.of_map _ hnodup)
  rw [← List.nil_append (List.map _ _)] at hcandidates
  obtain ⟨width, hwidth⟩ := eq_candidate_of_nodup hcandidates (get?_assign.1 h)
  exact hnumbered width hwidth

/-- A namespace before has been given a candidate of its own with a number behind it, and the two
together are a word made of the last segments of this one. -/
def Forestalled (namespaces : List String) (ns : String) : Prop :=
  ∃ other ∈ namespaces, other < ns ∧ ∃ width width' n, 2 ≤ n ∧
    candidate ns width = candidate other width' ++ toString n ∧
      (assign namespaces).get? other = some (candidate ns width)

/-- If the alias of a namespace is made of no number of its last segments, another namespace has the
same whole name, or a namespace before has got a word of it by a number. In either case there are
two namespaces with the same whole name. -/
theorem exists_wholeName_eq_or_forestalled (h : (assign namespaces).get? ns = some word)
    (hnumbered : ∀ width, word ≠ candidate ns width) :
    ((∃ other ∈ namespaces, other ≠ ns ∧ wholeName other = wholeName ns) ∨
      Forestalled namespaces ns) ∧
    ∃ a ∈ namespaces, ∃ b ∈ namespaces, a ≠ b ∧ wholeName a = wholeName b := by
  refine ⟨?_, exists_wholeName_eq h hnumbered⟩
  obtain ⟨w, before, after, hw, hsplit, hword⟩ := assign_spec (get?_assign.1 h)
  obtain ⟨htaken, -⟩ := hword.resolve_left (hnumbered w)
  obtain ⟨⟨other, taken⟩, hbefore, rfl⟩ := List.mem_map.1 htaken
  have hother : (other, candidate ns w) ∈ (assign namespaces).entries := by
    rw [hsplit]
    exact List.mem_append_left _ hbefore
  have hlt : other < ns := by
    have hsorted := pairwise_lt_sortedSet namespaces
    rw [← map_fst_assign, hsplit, List.map_append, List.map_cons] at hsorted
    exact (List.pairwise_append.1 hsorted).2.2 other (List.mem_map_of_mem hbefore) ns
      List.mem_cons_self
  have hne : other ≠ ns := by
    rintro rfl
    exact String.lt_irrefl other hlt
  obtain ⟨w', -, -, hw', -, hcandidate | ⟨-, n, hn, hnumber⟩⟩ := assign_spec hother
  · exact .inl ⟨other, mem_of_mem_finalWidths hw', hne,
      (settled_widen _).wholeName_eq hw hw' hne hcandidate.symm⟩
  · exact .inr ⟨other, mem_of_mem_finalWidths hw', hlt, w, w', n, hn, hnumber, get?_assign.2 hother⟩

/-! ## One package in three spellings -/

namespace Spellings

def packages : List String := ["go.uuid", "go_uuid", "go_uuid2"]

theorem assign_packages : assign packages =
    ⟨[("go.uuid", "go_uuid"), ("go_uuid", "go_uuid2"), ("go_uuid2", "go_uuid22")]⟩ := by
  have hsorted : sortedSet packages = packages := List.mergeSort_of_pairwise (by decide)
  rw [assign, hsorted, widen]
  decide +kernel

/-- Of one segment there is only one word, and the word for none. -/
theorem ne_candidate (h : (Text.segments ns).length = 1) (hwhole : word ≠ wholeName ns)
    (hempty : word ≠ "_empty") (width : Nat) : word ≠ candidate ns width := by
  cases width with
  | zero => simpa [candidate, Text.sanitize] using hempty
  | succ width =>
    rw [candidate_of_length_le (by omega)]
    exact hwhole

/-- The second spelling comes to the same word as the first one. -/
theorem exists_wholeName_eq_uuid :
    ((assign packages).get? "go_uuid" = some "go_uuid2" ∧
      ∀ width, "go_uuid2" ≠ candidate "go_uuid" width) ∧
    ((∃ other ∈ packages, other ≠ "go_uuid" ∧ wholeName other = wholeName "go_uuid") ∨
      Forestalled packages "go_uuid") ∧
    ∃ a ∈ packages, ∃ b ∈ packages, a ≠ b ∧ wholeName a = wholeName b := by
  have hget : (assign packages).get? "go_uuid" = some "go_uuid2" := by
    rw [assign_packages]
    decide
  have hnumbered : ∀ width, "go_uuid2" ≠ candidate "go_uuid" width :=
    ne_candidate (by decide) (by decide) (by decide)
  exact ⟨⟨hget, hnumbered⟩, exists_wholeName_eq_or_forestalled hget hnumbered⟩

/-- The number of the second spelling makes it the third one, which has a number then although no
other spelling comes to the same word. -/
theorem numbered_alone :
    (assign packages).get? "go_uuid2" = some "go_uuid22" ∧
    (∀ width, "go_uuid22" ≠ candidate "go_uuid2" width) ∧
    ¬ ∃ other ∈ packages, other ≠ "go_uuid2" ∧ wholeName other = wholeName "go_uuid2" := by
  refine ⟨?_, ne_candidate (by decide) (by decide) (by decide), by decide⟩
  rw [assign_packages]
  decide

end Spellings

end NamespaceAliases

end ClientTypes

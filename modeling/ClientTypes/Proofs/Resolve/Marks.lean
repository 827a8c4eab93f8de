import ClientTypes.Proofs.Law
import ClientTypes.Proofs.Resolve.Visits

/-!
# Every visit is made

The expansion of a type resolves all ids that it visits. So if resolving an id leaves something
behind that lasts, then the expansion of a type leaves it behind for every id that it visits.

## Main definitions

* `Law.Marks` — a computation that keeps a law and leaves a mark on each of some ids

The main statement is `marks_body`.
-/

namespace ClientTypes

namespace Law

/-- Keeps a law, and something holds of each of the ids at the end. -/
def Marks {α : Type} (L : Law Chain) (pre : Chain → Prop) (mark : TypeId → Chain → Prop)
    (act : Resolving α) (ids : List TypeId) : Prop :=
  L.Keeps pre act fun _ c => ∀ i ∈ ids, mark i c

namespace Marks

variable {α β : Type} {L : Law Chain} {pre : Chain → Prop} {mark : TypeId → Chain → Prop}
  {act : Resolving α} {ids ids' : List TypeId}

theorem subset (h : L.Marks pre mark act ids) (hsub : ids' ⊆ ids) : L.Marks pre mark act ids' :=
  h.weaken fun _ _ _ hids i hi => hids i (hsub hi)

theorem pure (a : α) : L.Marks pre mark (Pure.pure a) [] :=
  Law.Keeps.pure fun _ _ _ i hi => by simp at hi

theorem map (f : α → β) (h : L.Marks pre mark act ids) : L.Marks pre mark (f <$> act) ids :=
  Law.Keeps.map h fun _ _ _ hids => hids

theorem read {f : Chain → Resolving β} (h : ∀ c, L.Marks pre mark (f c) ids) :
    L.Marks pre mark (get >>= f) ids :=
  Law.Keeps.read fun c => (h c).mono (fun _ hc => hc.1) fun _ _ _ hids => hids

section

variable (hpre : L.Stable pre) (hmark : ∀ i, L.Stable (mark i))

include hpre hmark

/-- The marks of one step last while the next one adds its own. -/
theorem bind {f : α → Resolving β} (h : L.Marks pre mark act ids)
    (hf : ∀ a, L.Marks pre mark (f a) ids') : L.Marks pre mark (act >>= f) (ids ++ ids') := by
  have hids : L.Stable fun c => ∀ i ∈ ids, mark i c :=
    fun _ _ ht hle h i hi => hmark i ht hle (h i hi)
  refine Law.Keeps.bind hpre h fun a => ((hf a).under hids).weaken ?_
  rintro b c - ⟨hids', hids⟩ i hi
  rcases List.mem_append.1 hi with hi | hi
  · exact hids i hi
  · exact hids' i hi

theorem mapM {γ : Type} {f : γ → Resolving β} {visits : γ → List TypeId} (xs : List γ)
    (h : ∀ x ∈ xs, L.Marks pre mark (f x) (visits x)) :
    L.Marks pre mark (xs.mapM f) (xs.flatMap visits) := by
  induction xs with
  | nil => exact pure []
  | cons x xs ih =>
    have hx : L.Marks pre mark (f x) (visits x) := h x List.mem_cons_self
    have hxs : L.Marks pre mark (xs.mapM f) (xs.flatMap visits) :=
      ih fun y hy => h y (List.mem_cons_of_mem x hy)
    rw [List.mapM_cons]
    refine (bind hpre hmark hx fun b => bind hpre hmark hxs fun bs => pure (b :: bs)).subset ?_
    simp

end

end Marks

end Law

namespace Resolver

variable {r : Resolver} {L : Law Chain} {pre : Chain → Prop} {mark : TypeId → Chain → Prop}
  {inner : TypeId → Resolving Descriptor}
  (hpre : L.Stable pre) (hmark : ∀ i, L.Stable (mark i))

include hpre hmark

/-! ## Variables and properties -/

theorem marks_resolveItem (v : Variable)
    (h : ∀ i ∈ r.itemVisits v, L.Marks pre mark (inner i) [i]) :
    L.Marks pre mark (r.resolveItem inner v) (r.itemVisits v) := by
  unfold resolveItem
  split
  · next key value hk hv =>
    have hvisits : r.itemVisits v = if r.isNamedMap v.type then [v.type] else [key, value] := by
      unfold itemVisits
      rw [hk, hv]
    rw [hvisits] at h ⊢
    cases hm : r.isNamedMap v.type with
    | true =>
      simp only [hm, if_true] at h ⊢
      exact .bind hpre hmark (h v.type (by simp)) fun _ => .pure _
    | false =>
      simp only [hm, Bool.false_eq_true, if_false] at h ⊢
      exact .bind hpre hmark (h key (by simp)) fun _ =>
        .bind hpre hmark (h value (by simp)) fun _ => .pure _
  · next hkv =>
    have hvisits : r.itemVisits v = [v.type] := by
      unfold itemVisits
      split
      · exact absurd ‹_› (hkv _ _ ‹_›)
      · rfl
    rw [hvisits] at h ⊢
    exact .bind hpre hmark (h v.type (by simp)) fun _ => .pure _

theorem marks_resolveVariable (v : Variable)
    (h : ∀ i ∈ r.variableVisits v, L.Marks pre mark (inner i) [i]) :
    L.Marks pre mark (r.resolveVariable inner v) (r.variableVisits v) := by
  unfold resolveVariable
  unfold variableVisits at h ⊢
  split
  · next hs =>
    simp only [hs, Bool.true_and] at h ⊢
    split
    · exact .pure _
    · next hb =>
      simp only [hb, Bool.false_eq_true, if_false] at h
      have hitem : L.Marks pre mark (r.resolveItem inner v.element) (r.itemVisits v) :=
        marks_resolveItem hpre hmark v.element h
      exact (Law.Marks.bind hpre hmark hitem fun _ => .pure _).subset (by simp)
  · next hs =>
    simp only [hs, Bool.false_and, Bool.false_eq_true, if_false] at h ⊢
    exact marks_resolveItem hpre hmark v h

theorem marks_property (f : Field) (wire : WireField)
    (h : ∀ i ∈ r.variableVisits f.var, L.Marks pre mark (inner i) [i]) :
    L.Marks pre mark (r.property inner f wire) (r.variableVisits f.var) := by
  have hvar := marks_resolveVariable hpre hmark f.var h
  exact (Law.Marks.bind hpre hmark hvar fun _ => .read fun _ => .pure _).subset (by simp)

theorem marks_promoted (f : Field) (h : ∀ i ∈ spliced f, L.Marks pre mark (inner i) [i]) :
    L.Marks pre mark (promoted inner f) (spliced f) := by
  unfold promoted
  unfold spliced at h ⊢
  split
  · exact .pure none
  · next hf =>
    simp only [hf, Bool.false_eq_true, if_false] at h
    exact .bind hpre hmark (h _ (by simp)) fun _ => .read fun _ => .pure _

theorem marks_fieldEntries (f : Field)
    (h : ∀ i ∈ r.fieldVisits f, L.Marks pre mark (inner i) [i]) :
    L.Marks pre mark (r.fieldEntries inner f) (r.fieldVisits f) := by
  cases hr : f.role r.tagKey with
  | skip =>
    simp only [fieldEntries, fieldVisits, hr]
    exact .pure []
  | property wire =>
    simp only [fieldEntries, fieldVisits, hr] at h ⊢
    have hprop := marks_property hpre hmark f wire h
    exact (Law.Marks.bind hpre hmark hprop fun _ => .pure _).subset (by simp)
  | splice fallback =>
    simp only [fieldEntries, fieldVisits, hr] at h ⊢
    have hpromoted : L.Marks pre mark (promoted inner f) (spliced f) :=
      marks_promoted hpre hmark f fun i hi => h i (List.mem_append_left _ hi)
    have hown (he : f.isExported = true) :
        L.Marks pre mark
          (do return [⟨← r.property inner f fallback, false⟩] : Resolving (List Entry))
          (r.variableVisits f.var) := by
      have hprop := marks_property hpre hmark f fallback fun i hi =>
        h i (List.mem_append_right _ (by simpa [he] using hi))
      exact (Law.Marks.bind hpre hmark hprop fun _ => .pure _).subset (by simp)
    cases hf : f.var.isSequence || f.var.isMap with
    | true =>
      -- A container promotes nothing, so that the field has a property of its own.
      have hnone : promoted inner f = pure none := by
        unfold promoted
        rw [hf]
        rfl
      simp only [hnone, pure_bind, spliced, hf, if_true, List.nil_append]
      split
      · next he => exact hown he
      · exact .pure []
    | false =>
      -- Its type has been visited already by the time the field falls back to its own property.
      have hsub : (spliced f ++ if f.isExported then r.variableVisits f.var else []) ⊆
          spliced f ++ [] := by
        rw [variableVisits_of_not_container hf]
        cases f.isExported <;> simp [spliced, hf]
      refine (Law.Marks.bind hpre hmark hpromoted fun o => ?_).subset hsub
      split
      · exact .pure _
      · split
        · next he => exact (hown he).subset (by simp)
        · exact .pure []

theorem marks_properties (fields : List Field)
    (h : ∀ f ∈ fields, ∀ i ∈ r.fieldVisits f, L.Marks pre mark (inner i) [i]) :
    L.Marks pre mark (r.properties inner fields) (fields.flatMap r.fieldVisits) := by
  have hfields := Law.Marks.mapM hpre hmark fields fun f hf =>
    marks_fieldEntries hpre hmark f (h f hf)
  exact (Law.Marks.bind hpre hmark hfields fun _ => .pure _).subset (by simp)

/-! ## Methods -/

theorem marks_params (slot : Slot) (vars : List Variable)
    (h : ∀ v ∈ vars, ∀ i ∈ r.variableVisits v, L.Marks pre mark (inner i) [i]) :
    L.Marks pre mark (r.params inner slot vars) (vars.flatMap r.variableVisits) := by
  have hvars := Law.Marks.mapM hpre hmark vars fun v hv =>
    marks_resolveVariable hpre hmark v (h v hv)
  exact (Law.Marks.bind hpre hmark hvars fun _ => .pure _).subset (by simp)

theorem marks_callShape (s : Signature)
    (h : ∀ i ∈ r.callVisits s, L.Marks pre mark (inner i) [i]) :
    L.Marks pre mark (r.callShape inner s) (r.callVisits s) := by
  have hvar : ∀ v ∈ s.params ++ s.results, ∀ i ∈ r.variableVisits v,
      L.Marks pre mark (inner i) [i] :=
    fun v hv i hi => h i (List.mem_flatMap.2 ⟨v, hv, hi⟩)
  have hparams := marks_params hpre hmark .request s.params
    fun v hv => hvar v (List.mem_append_left _ hv)
  have hresults := marks_params hpre hmark .response s.results
    fun v hv => hvar v (List.mem_append_right _ hv)
  exact (Law.Marks.bind hpre hmark hparams fun _ => .bind hpre hmark hresults fun _ =>
    .pure _).subset (by simp [callVisits])

theorem marks_embeddedMethods (embed : TypeId) (h : L.Marks pre mark (inner embed) [embed]) :
    L.Marks pre mark (embeddedMethods inner embed) [embed] := by
  change L.Marks pre mark (embeddedMethods inner embed) ([embed] ++ [])
  refine .bind hpre hmark h fun _ => .read fun _ => ?_
  split
  · exact .pure _
  · dsimp only
    split <;> exact .pure _
  · exact .pure _

theorem marks_methodSet (embeds : List TypeId) (methods : List InterfaceMethod)
    (h : ∀ i ∈ methods.flatMap (r.callVisits ·.signature) ++ embeds,
      L.Marks pre mark (inner i) [i]) :
    L.Marks pre mark (r.methodSet inner embeds methods)
      (methods.flatMap (r.callVisits ·.signature) ++ embeds) := by
  have hmethods : L.Marks pre mark
      (methods.mapM fun m => do return (⟨m.name, ← r.callShape inner m.signature⟩ : MethodShape _))
      (methods.flatMap (r.callVisits ·.signature)) := by
    refine .mapM hpre hmark methods fun m hm => ?_
    have hcall := marks_callShape hpre hmark m.signature fun i hi =>
      h i (List.mem_append_left _ (List.mem_flatMap.2 ⟨m, hm, hi⟩))
    exact (Law.Marks.bind hpre hmark hcall fun _ => .pure _).subset (by simp)
  have hembeds : L.Marks pre mark (embeds.mapM (embeddedMethods inner)) (embeds.flatMap ([·])) :=
    .mapM hpre hmark embeds fun i hi =>
      marks_embeddedMethods hpre hmark i (h i (List.mem_append_right _ hi))
  exact (Law.Marks.bind hpre hmark hmethods fun _ => .bind hpre hmark hembeds fun _ =>
    .pure _).subset (by simp)

/-! ## Bodies -/

omit hpre hmark in
theorem marks_aliasBase (id : TypeId) (links : AliasLinks)
    (h : ∀ i ∈ r.usableLink? id links, L.Marks pre mark (inner i) [i]) :
    L.Marks pre mark (r.aliasBase inner id links) (r.usableLink? id links).toList := by
  cases hl : r.usableLink? id links with
  | some link =>
    rw [aliasBase, hl]
    exact h link hl
  | none =>
    rw [aliasBase, hl]
    split
    · next hlink => simp at hlink
    all_goals exact .pure _

theorem marks_arrayShape (a : ArrayType)
    (h : ∀ i ∈ r.arrayVisits a, L.Marks pre mark (inner i) [i]) :
    L.Marks pre mark (r.arrayShape inner a) (r.arrayVisits a) := by
  unfold arrayShape
  unfold arrayVisits at h ⊢
  split
  · exact .pure _
  · next hb =>
    simp only [hb, Bool.false_eq_true, if_false] at h
    exact .bind hpre hmark (h a.elem (by simp)) fun _ => .pure _

/-- The expansion of a type marks all that it visits. -/
theorem marks_body (id : TypeId) (k : Kind)
    (h : ∀ i ∈ r.visits id k, L.Marks pre mark (inner i) [i]) :
    L.Marks pre mark (r.body inner id k) (r.visits id k) := by
  cases k with
  | scalar | channel | any => exact .pure _
  | struct fields =>
    exact .map _ (marks_properties hpre hmark fields fun f hf i hi =>
      h i (List.mem_flatMap.2 ⟨f, hf, hi⟩))
  | interface embeds methods => exact .map _ (marks_methodSet hpre hmark embeds methods h)
  | aliasOf links =>
    exact .map _ (marks_aliasBase id links fun i hi => h i (by simpa [visits] using hi))
  | array a => exact .map _ (marks_arrayShape hpre hmark a h)
  | map m =>
    have hkey : L.Marks pre mark (inner m.key) [m.key] := h m.key (by simp [visits])
    have hvalue : L.Marks pre mark (inner m.value) [m.value] := h m.value (by simp [visits])
    exact .map _ (.bind hpre hmark hkey fun _ => .bind hpre hmark hvalue fun _ => .pure _)
  | function s =>
    have hcall := marks_callShape hpre hmark s h
    exact (Law.Marks.bind hpre hmark hcall fun _ => .pure _).subset (by simp [visits])

end Resolver

end ClientTypes

import ClientTypes.Proofs.Resolve.Congruence
import ClientTypes.Proofs.Resolve.Exhaust

/-!
# Resolving once more

Outside of the expansions of named types nothing is remembered, so that an unnamed type is expanded
again whenever it is met. If it is met again in a later chain, then each of its parts gives the same
answer as before and registers nothing, provided that what it reads of the registry is still the
same. So it is with the definitions of settled types that later chains have left alone.

## Main definitions

* `Chain.Still` — the same chain but for its imports
* `Chain.Recalls` — a computation that gives a known result and registers nothing
* `Resolver.Later` — a later chain, in which the definitions of some settled types are the same
* `Law.Repeats` — in every chain later than where it ends, a computation recalls its result
* `Law.Endures` — in every such chain, what lies behind the answer is the same

The main statement is `repeats_body`.
-/

namespace ClientTypes

namespace Chain

variable {α β : Type}

/-- The same chain but for its imports. -/
structure Still (c c' : Chain) : Prop extends Chain.Extends c c' where
  same : c'.registry = c.registry

theorem Still.refl (c : Chain) : c.Still c := ⟨.refl c, rfl⟩

theorem Still.trans {c c' c'' : Chain} (h : c.Still c') (h' : c'.Still c'') : c.Still c'' :=
  ⟨h.toExtends.trans h'.toExtends, h'.same.trans h.same⟩

theorem still_note (name : QName) (c : Chain) : c.Still (c.note name) :=
  ⟨extends_note name c, registry_note name c⟩

/-- From the chain the computation gives a known result, and it registers nothing. -/
def Recalls (act : Resolving α) (a : α) (c : Chain) : Prop :=
  (act.run c).1 = a ∧ c.Still (act.run c).2

theorem Recalls.bind {act : Resolving α} {f : α → Resolving β} {a : α} {b : β} {c : Chain}
    (h : Recalls act a c) (hf : Recalls (f a) b (act.run c).2) : Recalls (act >>= f) b c := by
  have hrun : (act >>= f).run c = (f (act.run c).1).run (act.run c).2 := rfl
  obtain ⟨ha, hstill⟩ := h
  obtain ⟨hb, hstill'⟩ := hf
  rw [Recalls, hrun, ha]
  exact ⟨hb, hstill.trans hstill'⟩

end Chain

namespace Resolver

variable {r : Resolver} {Q : TypeId → Prop} {c c' c'' : Chain}

/-- A later chain of the same direction and nesting, in which those types of `Q` that are settled
have the same definitions. -/
structure Later (r : Resolver) (Q : TypeId → Prop) (c c' : Chain) : Prop where
  direction : c'.direction = c.direction
  processing : c'.processing = c.processing
  registry : c.registry.Extends c'.registry
  same : ∀ u q, Q u → r.project.Names u q → r.Settled c.direction c.registry u →
    c'.registry.get? q = c.registry.get? q

theorem Later.refl (c : Chain) : r.Later Q c c := ⟨rfl, rfl, .refl _, fun _ _ _ _ _ => rfl⟩

theorem Later.trans (h : r.Later Q c c') (h' : r.Later Q c' c'') : r.Later Q c c'' where
  direction := h'.direction.trans h.direction
  processing := h'.processing.trans h.processing
  registry := h.registry.trans h'.registry
  same u q hu hq hs := by
    have hs' : r.Settled c'.direction c'.registry u := by
      rw [h.direction]
      exact hs.of_extends h.registry
    rw [h'.same u q hu hq hs', h.same u q hu hq hs]

theorem Later.of_still (h : r.Later Q c c') (h' : c'.Still c'') : r.Later Q c c'' where
  direction := h'.direction.trans h.direction
  processing := h'.processing.trans h.processing
  registry := h'.same ▸ h.registry
  same := h'.same ▸ h.same

end Resolver

namespace Law

variable {r : Resolver} {L : Law Chain} {Q : TypeId → Prop} {pre : Chain → Prop} {α β : Type}
  {act : Resolving α}

/-- In every chain later than the one where it ends, the computation recalls its result. -/
def Repeats (L : Law Chain) (r : Resolver) (Q : TypeId → Prop) (pre : Chain → Prop)
    (act : Resolving α) : Prop :=
  L.Keeps pre act fun a c => ∀ c', r.Later Q c c' → Chain.Recalls act a c'

/-- In every chain later than the one where it ends, what lies behind the answer is the same. -/
def Endures (L : Law Chain) (r : Resolver) (Q : TypeId → Prop) (pre : Chain → Prop)
    (act : Resolving Descriptor) : Prop :=
  L.Keeps pre act fun d c => ∀ c', r.Later Q c c' →
    Aspect.whole.Alike c.registry c'.registry d d

namespace Repeats

theorem pure (a : α) : L.Repeats r Q pre (Pure.pure a) :=
  Law.Keeps.pure fun _ _ _ c' _ => ⟨rfl, .refl c'⟩

variable (hle : ∀ {c c'}, L.inv c' → L.le c c' → r.Later Q c c') (hpre : L.Stable pre)

include hle

theorem stable {P : Chain → Prop} : L.Stable fun c => ∀ c', r.Later Q c c' → P c' :=
  fun _ _ ht hst h c' hc' => h c' ((hle ht hst).trans hc')

include hpre

/-- A later chain of the second step is one of the first step, and the first step keeps it still. -/
theorem bind {f : α → Resolving β} (h : L.Repeats r Q pre act)
    (hf : ∀ a, L.Repeats r Q pre (f a)) : L.Repeats r Q pre (act >>= f) := by
  refine Law.Keeps.bind hpre h fun a => ?_
  refine Law.Keeps.weaken (Law.Keeps.under (hf a) (stable hle)) ?_
  rintro b c - ⟨hb, ha⟩ c' hc'
  exact (ha c' hc').bind (hb _ (hc'.of_still (ha c' hc').2))

theorem mapM {γ : Type} {f : γ → Resolving β} (xs : List γ)
    (h : ∀ x ∈ xs, L.Repeats r Q pre (f x)) : L.Repeats r Q pre (xs.mapM f) := by
  induction xs with
  | nil => exact pure []
  | cons x xs ih =>
    have hx : L.Repeats r Q pre (f x) := h x List.mem_cons_self
    have hxs : L.Repeats r Q pre (xs.mapM f) := ih fun y hy => h y (List.mem_cons_of_mem x hy)
    rw [List.mapM_cons]
    exact bind hle hpre hx fun b => bind hle hpre hxs fun bs => pure (b :: bs)

omit hle hpre in
theorem map (f : α → β) (h : L.Repeats r Q pre act) : L.Repeats r Q pre (f <$> act) := by
  refine Law.Keeps.map h fun a c _ ha c' hc' => ?_
  obtain ⟨hrun, hstill⟩ := ha c' hc'
  exact ⟨congrArg f hrun, hstill⟩

omit hle hpre in
/-- A step, and then a look at the chain that finds the same in later ones. -/
theorem bind_read {f : α → Chain → β} (h : L.Repeats r Q pre act)
    (hf : L.Keeps pre act fun a c => ∀ c', r.Later Q c c' → f a c' = f a c) :
    L.Repeats r Q pre (act >>= fun a => get >>= fun c => Pure.pure (f a c)) := by
  intro c hc hp
  obtain ⟨hinv, hext, ha, hsame⟩ := Law.Keeps.and h hf c hc hp
  refine ⟨hinv, hext, fun c' hc' => ?_⟩
  obtain ⟨hrun, hstill⟩ := ha c' hc'
  refine ⟨?_, hstill⟩
  change f (act.run c').1 (act.run c').2 = f (act.run c).1 (act.run c).2
  rw [hrun]
  exact hsame _ (hc'.of_still hstill)

end Repeats

end Law

namespace Resolver

variable {r : Resolver} {L : Law Chain} {Q : TypeId → Prop} {pre : Chain → Prop}
  {inner : TypeId → Resolving Descriptor}
  (hle : ∀ {c c'}, L.inv c' → L.le c c' → r.Later Q c c') (hpre : L.Stable pre)

include hle hpre

/-! ## Variables -/

theorem repeats_resolveItem (v : Variable)
    (h : ∀ i ∈ r.itemVisits v, L.Repeats r Q pre (inner i)) :
    L.Repeats r Q pre (r.resolveItem inner v) := by
  unfold resolveItem
  unfold itemVisits at h
  split
  · next key value hk hv =>
    simp only [hk, hv] at h
    split
    · next hm => exact .bind hle hpre (h _ (by simp [hm])) fun _ => .pure _
    · next hm =>
      simp only [hm, Bool.false_eq_true, if_false] at h
      exact .bind hle hpre (h key (by simp)) fun _ =>
        .bind hle hpre (h value (by simp)) fun _ => .pure _
  · next hkv =>
    have hv : v.type ∈ r.itemVisits v := by
      unfold itemVisits
      split
      · exact absurd ‹_› (hkv _ _ ‹_›)
      · simp
    exact .bind hle hpre (h _ hv) fun _ => .pure _

theorem repeats_resolveVariable (v : Variable)
    (h : ∀ i ∈ r.variableVisits v, L.Repeats r Q pre (inner i)) :
    L.Repeats r Q pre (r.resolveVariable inner v) := by
  unfold resolveVariable
  unfold variableVisits at h
  split
  · next hs =>
    simp only [hs, Bool.true_and] at h
    split
    · exact .pure _
    · next hb =>
      simp only [hb, Bool.false_eq_true, if_false] at h
      exact .bind hle hpre (repeats_resolveItem hle hpre v.element h) fun _ => .pure _
  · next hs =>
    simp only [hs, Bool.false_and, Bool.false_eq_true, if_false] at h
    exact repeats_resolveItem hle hpre v h

omit hle hpre in
/-- The answer for a variable that can travel as text is the one for its type; the other ones, for
containers, go by no name. -/
theorem resolveVariable_cases (inner : TypeId → Resolving Descriptor) (v : Variable) :
    (v.type ∈ r.quoted v ∧ r.resolveVariable inner v =
      inner v.type >>= fun d => pure (d.withPointers v.pointers)) ∨
    ∀ c q, ((r.resolveVariable inner v).run c).1.shape ≠ .named q := by
  unfold resolveVariable
  split
  · right
    split <;> exact fun c q h => by cases h
  · next hs =>
    unfold resolveItem
    split
    · next key value hk hv =>
      split
      · next hm => exact .inl ⟨by simp [quoted, hs, hm], rfl⟩
      · exact .inr fun c q h => by cases h
    · next hkv =>
      exact .inl ⟨by simp [quoted, hs, Variable.isMap_eq_false hkv], rfl⟩

/-- Whether a variable travels as text is the same in later chains. -/
theorem keeps_stringEncoded (v : Variable)
    (h : ∀ i ∈ r.variableVisits v, L.Repeats r Q pre (inner i))
    (hread : ∀ i ∈ r.quoted v, L.Endures r Q pre (inner i)) :
    L.Keeps pre (r.resolveVariable inner v) fun d c => ∀ c', r.Later Q c c' →
      stringEncoded c'.registry d = stringEncoded c.registry d := by
  rcases resolveVariable_cases (r := r) inner v with ⟨hq, heq⟩ | hnone
  · rw [heq]
    refine .bind hpre (hread v.type hq) fun d => .pure fun c _ hc c' hc' => ?_
    refine stringEncoded_congr fun name hname => ?_
    exact (((hc.2 c' hc').behind rfl).2 name hname).symm
  · intro c hc hp
    obtain ⟨hinv, hext, -⟩ := repeats_resolveVariable hle hpre v h c hc hp
    refine ⟨hinv, hext, fun c' _ => stringEncoded_congr fun name hname => ?_⟩
    exact absurd hname (hnone c name)

/-! ## Properties -/

theorem repeats_property (f : Field) (wire : WireField)
    (h : ∀ i ∈ r.variableVisits f.var, L.Repeats r Q pre (inner i))
    (hread : ∀ i ∈ r.ownReads .whole f wire, L.Endures r Q pre (inner i)) :
    L.Repeats r Q pre (r.property inner f wire) := by
  have hvar := repeats_resolveVariable hle hpre f.var h
  have hsame : L.Keeps pre (r.resolveVariable inner f.var) fun d c => ∀ c', r.Later Q c c' →
      (if wire.asString then stringEncoded c'.registry d else d) =
        if wire.asString then stringEncoded c.registry d else d := by
    cases hs : wire.asString with
    | true =>
      refine (keeps_stringEncoded hle hpre f.var h fun i hi => hread i ?_).weaken
        fun d c _ hc c' hc' => ?_
      · simpa [ownReads, hs] using hi
      · simpa using hc c' hc'
    | false => exact Law.Keeps.weaken hvar fun _ _ _ _ _ _ => rfl
  unfold property
  refine .bind_read hvar (hsame.weaken fun d c _ hc c' hc' => ?_)
  rw [hc c' hc']

omit hle hpre in
theorem repeats_promoted (f : Field) (h : ∀ i ∈ spliced f, L.Repeats r Q pre (inner i))
    (hread : ∀ i ∈ spliced f, L.Endures r Q pre (inner i)) :
    L.Repeats r Q pre (promoted inner f) := by
  cases hf : f.var.isSequence || f.var.isMap with
  | true =>
    unfold promoted
    rw [hf]
    exact .pure none
  | false =>
    have hmem : f.var.type ∈ spliced f := by simp [spliced, hf]
    rw [promoted_eq inner f hf]
    refine .bind_read (h _ hmem) (Law.Keeps.weaken (hread _ hmem) fun d c _ hc c' hc' => ?_)
    have hsame := (hc c' hc').promoted
    simp only [Aspect.property_whole, List.map_id_fun, Option.map_id_fun, id_eq] at hsame
    rw [hsame]

theorem repeats_fieldEntries (f : Field)
    (h : ∀ i ∈ r.fieldVisits f, L.Repeats r Q pre (inner i))
    (hread : ∀ i ∈ r.fieldReads .whole f, L.Endures r Q pre (inner i)) :
    L.Repeats r Q pre (r.fieldEntries inner f) := by
  unfold fieldEntries
  unfold fieldVisits at h
  unfold fieldReads at hread
  split
  · exact .pure []
  · next wire hr =>
    simp only [hr] at h hread
    exact .bind hle hpre (repeats_property hle hpre f wire h hread) fun _ => .pure _
  · next fallback hr =>
    simp only [hr] at h hread
    refine .bind hle hpre (repeats_promoted f
      (fun i hi => h i (List.mem_append_left _ hi))
      fun i hi => hread i (List.mem_append_left _ hi)) fun o => ?_
    split
    · exact .pure _
    · split
      · next he =>
        refine .bind hle hpre (repeats_property hle hpre f fallback (fun i hi => h i ?_)
          fun i hi => hread i ?_) fun _ => .pure _
        · exact List.mem_append_right _ (by simpa [he] using hi)
        · exact List.mem_append_right _ (by simpa [he] using hi)
      · exact .pure []

theorem repeats_properties (fields : List Field)
    (h : ∀ i ∈ fields.flatMap r.fieldVisits, L.Repeats r Q pre (inner i))
    (hread : ∀ i ∈ fields.flatMap (r.fieldReads .whole), L.Endures r Q pre (inner i)) :
    L.Repeats r Q pre (r.properties inner fields) := by
  unfold properties
  refine .bind hle hpre (.mapM hle hpre fields fun f hf => ?_) fun _ => .pure _
  exact repeats_fieldEntries hle hpre f (fun i hi => h i (List.mem_flatMap.2 ⟨f, hf, hi⟩))
    fun i hi => hread i (List.mem_flatMap.2 ⟨f, hf, hi⟩)

/-! ## Methods -/

theorem repeats_params (slot : Slot) (vars : List Variable)
    (h : ∀ v ∈ vars, ∀ i ∈ r.variableVisits v, L.Repeats r Q pre (inner i)) :
    L.Repeats r Q pre (r.params inner slot vars) := by
  unfold params
  exact .bind hle hpre (.mapM hle hpre vars fun v hv =>
    repeats_resolveVariable hle hpre v (h v hv)) fun _ => .pure _

theorem repeats_callShape (s : Signature)
    (h : ∀ i ∈ r.callVisits s, L.Repeats r Q pre (inner i)) :
    L.Repeats r Q pre (r.callShape inner s) := by
  have hvar : ∀ v ∈ s.params ++ s.results, ∀ i ∈ r.variableVisits v, L.Repeats r Q pre (inner i) :=
    fun v hv i hi => h i (List.mem_flatMap.2 ⟨v, hv, hi⟩)
  unfold callShape
  refine .bind hle hpre (repeats_params hle hpre .request s.params
    fun v hv => hvar v (List.mem_append_left _ hv)) fun _ => ?_
  exact .bind hle hpre (repeats_params hle hpre .response s.results
    fun v hv => hvar v (List.mem_append_right _ hv)) fun _ => .pure _

omit hle hpre in
theorem repeats_embeddedMethods (embed : TypeId) (h : L.Repeats r Q pre (inner embed))
    (hread : L.Endures r Q pre (inner embed)) :
    L.Repeats r Q pre (embeddedMethods inner embed) := by
  rw [embeddedMethods_eq]
  refine .bind_read h (Law.Keeps.weaken hread fun d c _ hc c' hc' => ?_)
  exact (Registry.methodsBy_congr ((hc c' hc').behind rfl).2).symm

theorem repeats_methodSet (embeds : List TypeId) (methods : List InterfaceMethod)
    (h : ∀ i ∈ methods.flatMap (r.callVisits ·.signature) ++ embeds, L.Repeats r Q pre (inner i))
    (hread : ∀ i ∈ embeds, L.Endures r Q pre (inner i)) :
    L.Repeats r Q pre (r.methodSet inner embeds methods) := by
  unfold methodSet
  refine .bind hle hpre (.mapM hle hpre methods fun m hm => ?_) fun _ => ?_
  · refine .bind hle hpre (repeats_callShape hle hpre m.signature fun i hi => h i ?_)
      fun _ => .pure _
    exact List.mem_append_left _ (List.mem_flatMap.2 ⟨m, hm, hi⟩)
  · exact .bind hle hpre (.mapM hle hpre embeds fun i hi => repeats_embeddedMethods i
      (h i (List.mem_append_right _ hi)) (hread i hi)) fun _ => .pure _

/-! ## Bodies -/

omit hle hpre in
theorem repeats_aliasBase (id : TypeId) (links : AliasLinks)
    (h : ∀ i ∈ r.usableLink? id links, L.Repeats r Q pre (inner i)) :
    L.Repeats r Q pre (r.aliasBase inner id links) := by
  unfold aliasBase
  split
  · next hl => exact h _ hl
  all_goals exact .pure _

theorem repeats_arrayShape (a : ArrayType)
    (h : ∀ i ∈ r.arrayVisits a, L.Repeats r Q pre (inner i)) :
    L.Repeats r Q pre (r.arrayShape inner a) := by
  unfold arrayShape
  unfold arrayVisits at h
  split
  · exact .pure _
  · next hb =>
    simp only [hb, Bool.false_eq_true, if_false] at h
    exact .bind hle hpre (h a.elem (by simp)) fun _ => .pure _

/-- If the visits of a type are resolved to the same answers in later chains, and what is read
behind the answers is the same, then the body of the type is the same. -/
theorem repeats_body (id : TypeId) (k : Kind)
    (h : ∀ i ∈ r.visits id k, L.Repeats r Q pre (inner i))
    (hread : ∀ i ∈ r.reads .whole k, L.Endures r Q pre (inner i)) :
    L.Repeats r Q pre (r.body inner id k) := by
  cases k with
  | scalar | channel | any => exact .pure _
  | struct fields => exact .map _ (repeats_properties hle hpre fields h hread)
  | interface embeds methods => exact .map _ (repeats_methodSet hle hpre embeds methods h hread)
  | aliasOf links =>
    exact .map _ (repeats_aliasBase id links fun i hi => h i (by simpa [visits] using hi))
  | array a => exact .map _ (repeats_arrayShape hle hpre a h)
  | map m =>
    exact .map _ (.bind hle hpre (h m.key (by simp [visits])) fun _ =>
      .bind hle hpre (h m.value (by simp [visits])) fun _ => .pure _)
  | function s => exact .bind hle hpre (repeats_callShape hle hpre s h) fun _ => .pure _

end Resolver

end ClientTypes

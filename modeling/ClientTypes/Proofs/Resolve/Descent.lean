import ClientTypes.Proofs.Law
import ClientTypes.Proofs.Registry.Behind
import ClientTypes.Proofs.Registry.Growth
import ClientTypes.Proofs.Resolve.Aspect

/-!
# From the parts of a type to its body

Whatever law the resolution of the visited ids keeps, the resolution of the whole body keeps it
too, and whatever is known of every layer of the answers is known of every layer of the body. What
promotion and embedding copy comes from the registry, so the same has to be known of the members
that can be copied from behind an answer. It is, if the law says it of all definitions in there.

## Main definitions

* `Law.Weighs` — a judgement of shapes that survives what a law allows
* `Law.Judges` — such a judgement that holds throughout the registry
* `Law.Answers` — a computation that keeps a law and answers with a descriptor judged good
* `Registry.Provides` — a judgement of the members that can be copied from behind an answer
* `Resolver.Blank` — types whose body may be opaque in itself

The main statements are `keeps_body_of_provides` and `keeps_body`.
-/

namespace ClientTypes

namespace Law

/-- A judgement of shapes, relative to the chain, that survives growth and has nothing against
shapes of known format without a name. -/
structure Weighs (L : Law Chain) (good : Chain → Shape Descriptor → Prop) : Prop where
  stable : ∀ s, L.Stable (good · s)
  solid : ∀ c, Solid (good c)

/-- Such a judgement that holds throughout the registry. -/
structure Judges (L : Law Chain) (good : Chain → Shape Descriptor → Prop) : Prop
    extends L.Weighs good where
  bodies : ∀ c, L.inv c → ∀ d ∈ c.registry.definitions, d.body.All (good c)

/-- Keeps the law, and every layer of the answer is good. -/
def Answers (L : Law Chain) (good : Chain → Shape Descriptor → Prop) (pre : Chain → Prop)
    (act : Resolving Descriptor) : Prop :=
  L.Keeps pre act fun d c => d.All (good c)

variable {L : Law Chain} {good : Chain → Shape Descriptor → Prop}

theorem Weighs.stable_all (hj : L.Weighs good) (d : Descriptor) :
    L.Stable fun c => d.All (good c) :=
  fun _ _ ht hle h => h.imp fun s => hj.stable s ht hle

theorem Weighs.stable_types {α : Type} (hj : L.Weighs good) (type : α → Descriptor) (xs : List α) :
    L.Stable fun c => ∀ x ∈ xs, (type x).All (good c) :=
  fun _ _ ht hle h x hx => hj.stable_all (type x) ht hle (h x hx)

/-! ## The judgement that is always good -/

theorem judges_true (L : Law Chain) : L.Judges fun _ _ => True where
  stable _ := stable_const True
  solid _ _ _ _ := trivial
  bodies _ _ _ _ _ _ := Descriptor.all_of_forall (fun _ => trivial) _

theorem Keeps.answers {pre : Chain → Prop} {act : Resolving Descriptor}
    {ok : Descriptor → Chain → Prop} (h : L.Keeps pre act ok) :
    L.Answers (fun _ _ => True) pre act :=
  h.weaken fun _ _ _ _ => Descriptor.all_of_forall (fun _ => trivial) _

end Law

namespace Registry

/-- A judgement of all bodies holds of the properties behind a name. -/
theorem all_of_structFrom {p : Shape Descriptor → Prop} {r : Registry}
    (h : ∀ d ∈ r.definitions, d.body.All p) {met : List QName} {name : QName}
    {ps : List (Property Descriptor)} (hps : r.structFrom met name = some ps) :
    ∀ x ∈ ps, x.type.All p := by
  obtain ⟨d, hd, hb⟩ := exists_struct_of_structFrom hps
  have hbody := h d hd
  rw [hb] at hbody
  exact fun x hx => hbody _ (List.mem_map_of_mem hx)

/-- A judgement of the members that can be copied from behind an answer. -/
structure Provides (reg : Registry) (p : Shape Descriptor → Prop) (d : Descriptor) : Prop where
  properties : ∀ ps, reg.promotedBy d = some ps → ∀ x ∈ ps, x.type.All p
  methods : ∀ m ∈ reg.methodsBy d, ∀ t ∈ m.call.parts, t.All p

/-- The members come from the answer itself, or from behind its name. -/
theorem provides_of_named {reg : Registry} {p : Shape Descriptor → Prop} {d : Descriptor}
    (hd : d.All p)
    (hps : ∀ q ps, d.shape = .named q → reg.structFrom [] q = some ps → ∀ x ∈ ps, x.type.All p)
    (hms : ∀ q e, d.shape = .named q → reg.get? q = some e → e.body.All p) :
    reg.Provides p d := by
  have hparts := (Descriptor.all_iff.1 hd).2
  constructor
  · intro ps h x hx
    unfold promotedBy at h
    split at h
    · next ps' hshape =>
      obtain rfl : ps' = ps := Option.some.inj h
      refine hparts x.type ?_
      rw [Descriptor.parts, hshape]
      exact List.mem_map_of_mem hx
    · next q hshape => exact hps q ps hshape h x hx
    · simp at h
  · intro m h t ht
    unfold methodsBy at h
    split at h
    · next ms hshape =>
      refine hparts t ?_
      rw [Descriptor.parts, hshape]
      exact List.mem_flatMap.2 ⟨m, h, ht⟩
    · next q hshape =>
      split at h
      · next ms hbody =>
        obtain ⟨e, he, hb⟩ := Option.map_eq_some_iff.1 hbody
        have hall := hms q e hshape he
        rw [hb] at hall
        exact hall t (List.mem_flatMap.2 ⟨m, h, ht⟩)
      · simp at h
    · simp at h

/-- What holds throughout the registry and of an answer holds of what is copied from behind it. -/
theorem provides_of_bodies {reg : Registry} {p : Shape Descriptor → Prop} {d : Descriptor}
    (h : ∀ e ∈ reg.definitions, e.body.All p) (hd : d.All p) : reg.Provides p d :=
  provides_of_named hd (fun _ _ _ hps => all_of_structFrom h hps)
    fun _ e _ he => h e (mem_of_get? he)

end Registry

theorem Law.Judges.provides {L : Law Chain} {good : Chain → Shape Descriptor → Prop}
    {pre : Chain → Prop} {act : Resolving Descriptor} (hj : L.Judges good)
    (h : L.Answers good pre act) :
    L.Keeps pre act fun d c => c.registry.Provides (good c) d :=
  h.weaken fun _ c hc hd => Registry.provides_of_bodies (hj.bodies c hc) hd

namespace Resolver

variable {r : Resolver} {L : Law Chain} {good : Chain → Shape Descriptor → Prop}
  {pre : Chain → Prop} {inner : TypeId → Resolving Descriptor}

/-! ## Variables -/

theorem answers_resolveItem (hj : L.Weighs good) (hpre : L.Stable pre) (v : Variable)
    (h : ∀ i ∈ r.itemVisits v, L.Answers good pre (inner i)) :
    L.Answers good pre (r.resolveItem inner v) := by
  unfold resolveItem
  unfold itemVisits at h
  split
  · next key value hk hv =>
    simp only [hk, hv] at h
    split
    · next hm =>
      refine .bind hpre (h _ (by simp [hm])) fun d => .pure fun c _ hc => ?_
      exact Descriptor.all_withPointers.2 hc.2
    · next hm =>
      simp only [hm, Bool.false_eq_true, if_false] at h
      refine .bind hpre (h key (by simp)) fun k => ?_
      refine .bind (hpre.and (hj.stable_all k)) ((h value (by simp)).under (hj.stable_all k))
        fun d => .pure fun c _ ⟨_, hd, hk⟩ => ?_
      exact Descriptor.all_withPointers.2
        (Descriptor.all_map (hj.solid c) hk (Descriptor.all_withPointers.2 hd))
  · next hkv =>
    have hv : v.type ∈ r.itemVisits v := by
      unfold itemVisits
      split
      · exact absurd ‹_› (hkv _ _ ‹_›)
      · simp
    refine .bind hpre (h _ hv) fun d => .pure fun c _ hc => ?_
    exact Descriptor.all_withPointers.2 hc.2

theorem answers_resolveVariable (hj : L.Weighs good) (hpre : L.Stable pre) (v : Variable)
    (h : ∀ i ∈ r.variableVisits v, L.Answers good pre (inner i)) :
    L.Answers good pre (r.resolveVariable inner v) := by
  unfold resolveVariable
  unfold variableVisits at h
  split
  · next hs =>
    simp only [hs, Bool.true_and] at h
    split
    · exact .pure fun c _ _ =>
        Descriptor.all_withPointers.2 (Descriptor.all_builtin (hj.solid c) _)
    · next hb =>
      simp only [hb, Bool.false_eq_true, if_false] at h
      refine .bind hpre (answers_resolveItem hj hpre v.element h) fun d => .pure fun c _ hc => ?_
      exact Descriptor.all_withPointers.2 (Descriptor.all_array (hj.solid c) hc.2)
  · next hs =>
    simp only [hs, Bool.false_and, Bool.false_eq_true, if_false] at h
    exact answers_resolveItem hj hpre v h

/-! ## Properties -/

theorem all_stringEncoded {p : Shape Descriptor → Prop} (hp : Solid p) {registry : Registry}
    {d : Descriptor} (hd : d.All p) : (stringEncoded registry d).All p := by
  have hcases (quotable : Bool) :
      (if quotable then { d with shape := .builtin .string } else d : Descriptor).All p := by
    cases quotable with
    | true => exact Descriptor.all_of_parts_eq_nil (hp _ rfl rfl) rfl
    | false => exact hd
  exact hcases _

theorem keeps_property (hj : L.Weighs good) (hpre : L.Stable pre) (f : Field) (wire : WireField)
    (h : ∀ i ∈ r.variableVisits f.var, L.Answers good pre (inner i)) :
    L.Keeps pre (r.property inner f wire) fun x c => x.type.All (good c) := by
  unfold property
  refine .bind hpre (answers_resolveVariable hj hpre f.var h) fun d => .read fun c₀ => ?_
  refine .pure fun c _ ⟨⟨_, hd⟩, hc⟩ => ?_
  dsimp only
  split
  · exact all_stringEncoded (hj.solid c) hd
  · exact hd

theorem keeps_promoted (hpre : L.Stable pre) (f : Field)
    (h : ∀ i ∈ spliced f, L.Keeps pre (inner i) fun d c => c.registry.Provides (good c) d) :
    L.Keeps pre (promoted inner f)
      fun o c => ∀ ps, o = some ps → ∀ x ∈ ps, x.type.All (good c) := by
  cases hf : f.var.isSequence || f.var.isMap with
  | true =>
    unfold promoted
    rw [hf]
    exact .pure fun _ _ _ ps hps => by simp at hps
  | false =>
    rw [promoted_eq inner f hf]
    refine .bind hpre (h _ (by simp [spliced, hf])) fun d => .read fun c₀ => .pure ?_
    rintro c - ⟨⟨-, hd⟩, rfl⟩ ps hps x hx
    obtain ⟨qs, hqs, rfl⟩ := Option.map_eq_some_iff.1 hps
    obtain ⟨y, hy, rfl⟩ := List.mem_map.1 hx
    exact hd.properties qs hqs y hy

theorem keeps_fieldEntries (hj : L.Weighs good) (hpre : L.Stable pre) (f : Field)
    (h : ∀ i ∈ r.fieldVisits f, L.Answers good pre (inner i))
    (hcopy : ∀ i ∈ r.fieldSplices f,
      L.Keeps pre (inner i) fun d c => c.registry.Provides (good c) d) :
    L.Keeps pre (r.fieldEntries inner f) fun es c => ∀ e ∈ es, e.property.type.All (good c) := by
  unfold fieldEntries
  unfold fieldVisits at h
  unfold fieldSplices at hcopy
  split
  · exact .pure fun _ _ _ e he => by simp at he
  · next wire hr =>
    simp only [hr] at h
    refine .bind hpre (keeps_property hj hpre f wire h) fun x => .pure ?_
    rintro c - ⟨-, hx⟩ e he
    obtain rfl : e = ⟨x, false⟩ := by simpa using he
    exact hx
  · next fallback hr =>
    simp only [hr] at h hcopy
    refine .bind hpre (keeps_promoted hpre f hcopy) fun o => ?_
    split
    · next ps =>
      refine .pure fun c _ ⟨_, hps⟩ e he => ?_
      obtain ⟨x, hx, rfl⟩ := List.mem_map.1 he
      exact hps ps rfl x hx
    · split
      · next he =>
        refine .bind (hpre.and fun _ _ _ _ _ => by simp) (keeps_property hj hpre f fallback ?_
          |>.mono (fun _ hc => hc.1) fun _ _ _ hx => hx) fun x => .pure ?_
        · exact fun i hi => h i (List.mem_append_right _ (by simpa [he] using hi))
        · rintro c - ⟨-, hx⟩ e he
          obtain rfl : e = ⟨x, false⟩ := by simpa using he
          exact hx
      · exact .pure fun _ _ _ e he => by simp at he

theorem exists_mem_of_mem_selectEntries {es : List Entry} {x : Property Descriptor}
    (h : x ∈ selectEntries es) : ∃ e ∈ es, e.property = x := by
  obtain ⟨e, he, rfl⟩ := List.mem_map.1 (mem_of_mem_distinctOn h)
  exact ⟨e, (List.mem_filter.1 he).1, rfl⟩

theorem keeps_properties (hj : L.Weighs good) (hpre : L.Stable pre) (fields : List Field)
    (h : ∀ f ∈ fields, ∀ i ∈ r.fieldVisits f, L.Answers good pre (inner i))
    (hcopy : ∀ f ∈ fields, ∀ i ∈ r.fieldSplices f,
      L.Keeps pre (inner i) fun d c => c.registry.Provides (good c) d) :
    L.Keeps pre (r.properties inner fields) fun ps c => ∀ x ∈ ps, x.type.All (good c) := by
  unfold properties
  refine .bind hpre (.mapM_forall hpre (hj.stable_types (·.property.type)) fields
    fun f hf => keeps_fieldEntries hj hpre f (h f hf) (hcopy f hf)) fun ess => .pure ?_
  intro c _ ⟨_, hess⟩ x hx
  obtain ⟨e, he, rfl⟩ := exists_mem_of_mem_selectEntries hx
  obtain ⟨es, hes, he⟩ := List.mem_flatten.1 he
  exact hess es hes e he

/-! ## Methods -/

theorem keeps_params (hj : L.Weighs good) (hpre : L.Stable pre) (slot : Slot)
    (vars : List Variable)
    (h : ∀ v ∈ vars, ∀ i ∈ r.variableVisits v, L.Answers good pre (inner i)) :
    L.Keeps pre (r.params inner slot vars) fun ps c => ∀ x ∈ ps, x.type.All (good c) := by
  unfold params
  refine .bind hpre
    (.mapM_forall hpre hj.stable_all vars fun v hv => answers_resolveVariable hj hpre v (h v hv))
    fun ts => .pure fun c _ ⟨_, hts⟩ x hx => ?_
  exact hts _ (type_mem_of_mem_nameParams hx)

theorem keeps_callShape (hj : L.Weighs good) (hpre : L.Stable pre) (s : Signature)
    (h : ∀ i ∈ r.callVisits s, L.Answers good pre (inner i)) :
    L.Keeps pre (r.callShape inner s) fun call c => ∀ t ∈ call.parts, t.All (good c) := by
  unfold callShape
  have hvar : ∀ v ∈ s.params ++ s.results, ∀ i ∈ r.variableVisits v, L.Answers good pre (inner i) :=
    fun v hv i hi => h i (List.mem_flatMap.2 ⟨v, hv, hi⟩)
  refine .bind hpre (keeps_params hj hpre .request s.params
    fun v hv => hvar v (List.mem_append_left _ hv)) fun ps => ?_
  have hst : L.Stable fun c => ∀ x ∈ ps, x.type.All (good c) := hj.stable_types (·.type) ps
  refine .bind (hpre.and hst) ((keeps_params hj hpre .response s.results
    fun v hv => hvar v (List.mem_append_right _ hv)).under hst) fun rs => .pure ?_
  rintro c - ⟨-, hrs, hps⟩ t ht
  obtain ⟨x, hx, rfl⟩ := List.mem_map.1 ht
  rcases List.mem_append.1 hx with hx | hx
  · exact hps x hx
  · exact hrs x hx

theorem keeps_embeddedMethods (hpre : L.Stable pre) (embed : TypeId)
    (h : L.Keeps pre (inner embed) fun d c => c.registry.Provides (good c) d) :
    L.Keeps pre (embeddedMethods inner embed)
      fun ms c => ∀ m ∈ ms, ∀ t ∈ m.call.parts, t.All (good c) := by
  rw [embeddedMethods_eq]
  refine .bind hpre h fun d => .read fun c₀ => .pure ?_
  rintro c - ⟨⟨-, hd⟩, rfl⟩
  exact hd.methods

theorem mem_of_mem_selectMethods {ds es : List (MethodShape Descriptor)}
    {m : MethodShape Descriptor} (h : m ∈ selectMethods ds es) : m ∈ ds ∨ m ∈ es := by
  unfold selectMethods at h
  rw [List.mem_mergeSort] at h
  simpa using mem_of_mem_distinctOn h

theorem keeps_methodSet (hj : L.Weighs good) (hpre : L.Stable pre) (embeds : List TypeId)
    (methods : List InterfaceMethod)
    (h : ∀ m ∈ methods, ∀ i ∈ r.callVisits m.signature, L.Answers good pre (inner i))
    (hcopy : ∀ i ∈ embeds, L.Keeps pre (inner i) fun d c => c.registry.Provides (good c) d) :
    L.Keeps pre (r.methodSet inner embeds methods)
      fun ms c => ∀ m ∈ ms, ∀ t ∈ m.call.parts, t.All (good c) := by
  unfold methodSet
  have hmethod (m : MethodShape Descriptor) :
      L.Stable fun c => ∀ t ∈ m.call.parts, t.All (good c) :=
    hj.stable_types id m.call.parts
  have hmethods (ms : List (MethodShape Descriptor)) :
      L.Stable fun c => ∀ m ∈ ms, ∀ t ∈ m.call.parts, t.All (good c) :=
    fun _ _ ht hle hms m hm => hmethod m ht hle (hms m hm)
  refine .bind hpre (.mapM_forall hpre hmethod methods fun m hm => ?_) fun ds => ?_
  · exact .bind hpre (keeps_callShape hj hpre m.signature (h m hm)) fun call =>
      .pure fun c _ hc => hc.2
  · refine .bind (hpre.and (hmethods ds)) (Law.Keeps.under (.mapM_forall hpre hmethods embeds
      fun i hi => keeps_embeddedMethods hpre i (hcopy i hi)) (hmethods ds)) fun ess => .pure ?_
    rintro c - ⟨-, hes, hds⟩ m hm
    rcases mem_of_mem_selectMethods hm with hm | hm
    · exact hds m hm
    · obtain ⟨es, hes', hm⟩ := List.mem_flatten.1 hm
      exact hes es hes' m hm

/-! ## Bodies -/

/-- Types whose body may be opaque in itself: their format is not known, or they are aliases of
nothing that is declared. -/
def Blank (r : Resolver) (id : TypeId) : Kind → Prop
  | .scalar s => s.builtin? = none
  | .aliasOf links => r.usableLink? id links = none
  | .channel _ | .any => True
  | _ => False

theorem answers_aliasBase (id : TypeId) (links : AliasLinks)
    (hblank : r.usableLink? id links = none → ∀ c, Plain (good c))
    (h : ∀ i ∈ r.usableLink? id links, L.Answers good pre (inner i)) :
    L.Answers good pre (r.aliasBase inner id links) := by
  cases hl : r.usableLink? id links with
  | some link =>
    rw [aliasBase_of_link inner hl]
    exact h link hl
  | none =>
    obtain ⟨d, hd, hbase⟩ := aliasBase_of_no_link inner hl
    rw [hbase]
    exact .pure fun c _ _ => hd.all (hblank hl c)

theorem answers_arrayShape (hj : L.Weighs good) (hpre : L.Stable pre) (a : ArrayType)
    (h : ∀ i ∈ r.arrayVisits a, L.Answers good pre (inner i)) :
    L.Answers good pre (r.arrayShape inner a) := by
  unfold arrayShape
  unfold arrayVisits at h
  split
  · exact .pure fun c _ _ => Descriptor.all_builtin (hj.solid c) _
  · next hb =>
    refine .bind hpre (h _ (by simp [hb])) fun d => .pure fun c _ hc => ?_
    exact Descriptor.all_array (hj.solid c) (Descriptor.all_withPointers.2 hc.2)

theorem answers_mapShape (hj : L.Weighs good) (hpre : L.Stable pre) (m : MapType)
    (hk : L.Answers good pre (inner m.key)) (hv : L.Answers good pre (inner m.value)) :
    L.Answers good pre (mapShape inner m) := by
  unfold mapShape
  refine .bind hpre hk fun k => ?_
  refine .bind (hpre.and (hj.stable_all k)) (hv.under (hj.stable_all k)) fun d => .pure ?_
  rintro c - ⟨-, hd, hk⟩
  exact Descriptor.all_map (hj.solid c) hk (Descriptor.all_withPointers.2 hd)

/-- A body keeps the law that the ids which it visits keep, and is good in every layer if their
answers are, and what can be copied from behind them. -/
theorem keeps_body_of_provides (hj : L.Weighs good) (hpre : L.Stable pre) (id : TypeId) (k : Kind)
    (hblank : r.Blank id k → ∀ c, Plain (good c))
    (h : ∀ i ∈ r.visits id k, L.Answers good pre (inner i))
    (hcopy : ∀ i ∈ r.takes k, L.Keeps pre (inner i) fun d c => c.registry.Provides (good c) d) :
    L.Keeps pre (r.body inner id k) fun b c => b.All (good c) := by
  cases k with
  | scalar s =>
    refine .pure fun c _ _ => Body.all_aliasOf.2 ?_
    cases hs : s.builtin? with
    | none => exact s.elementary_descriptor.all (hblank hs c)
    | some b =>
      rw [Scalar.descriptor, hs]
      exact Descriptor.all_builtin (hj.solid c) b
  | struct fields =>
    refine .map (keeps_properties hj hpre fields
      (fun f hf i hi => h i (List.mem_flatMap.2 ⟨f, hf, hi⟩))
      fun f hf i hi => hcopy i (List.mem_flatMap.2 ⟨f, hf, hi⟩)) fun ps c _ hps t ht => ?_
    obtain ⟨x, hx, rfl⟩ := List.mem_map.1 ht
    exact hps x hx
  | interface embeds methods =>
    refine .map (keeps_methodSet hj hpre embeds methods
      (fun m hm i hi => h i (List.mem_append_left _ (List.mem_flatMap.2 ⟨m, hm, hi⟩)))
      hcopy) fun ms c _ hms t ht => ?_
    obtain ⟨m, hm, ht⟩ := List.mem_flatMap.1 ht
    exact hms m hm t ht
  | aliasOf links =>
    exact .map (answers_aliasBase id links hblank fun i hi => h i (by simpa [visits] using hi))
      fun d c _ hd => Body.all_aliasOf.2 hd
  | array a =>
    exact .map (answers_arrayShape hj hpre a h) fun d c _ hd => Body.all_aliasOf.2 hd
  | map m =>
    exact .map (answers_mapShape hj hpre m (h _ (by simp [visits])) (h _ (by simp [visits])))
      fun d c _ hd => Body.all_aliasOf.2 hd
  | function s =>
    refine .bind hpre (keeps_callShape hj hpre s h) fun call => .pure fun c _ hc => ?_
    exact Body.all_aliasOf.2 (.intro (hj.solid c _ rfl rfl) hc.2)
  | channel | any =>
    exact .pure fun c _ _ => Body.all_aliasOf.2 (Descriptor.all_bareOpaque (hblank trivial c))

/-- Where all definitions are good, so is the body if the answers are. -/
theorem keeps_body (hj : L.Judges good) (hpre : L.Stable pre) (id : TypeId) (k : Kind)
    (hblank : r.Blank id k → ∀ c, Plain (good c))
    (h : ∀ i ∈ r.visits id k, L.Answers good pre (inner i)) :
    L.Keeps pre (r.body inner id k) fun b c => b.All (good c) :=
  keeps_body_of_provides hj.toWeighs hpre id k hblank h fun i hi =>
    hj.provides (h i (takes_subset_visits id k hi))

end Resolver

end ClientTypes

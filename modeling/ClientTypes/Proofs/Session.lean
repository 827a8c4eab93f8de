import ClientTypes.Proofs.Pass.Rest
import ClientTypes.Proofs.Resolve.Exhaust
import ClientTypes.Resolve.Session

/-!
# From requests to sessions

Between two requests of a session nothing is being expanded. What all steps of resolution keep, the
session keeps; and what a request leads to is settled from then on.

## Main definitions

* `Resolver.roots` — the ids that a request is about
* `Resolver.Ready` — a registry that a request can start from
* `Resolver.Served` — what holds of the answers to a request ever after

The main statement is `keeps_session`.
-/

namespace ClientTypes

namespace Resolver

variable {r : Resolver} {I : Registry → Prop} {reg : Registry} {id : TypeId} {dir : Direction}

/-- The ids that a query resolves. -/
def queryRoots (r : Resolver) : Query → List TypeId
  | .type id _ => [id]
  | .variable v => r.variableVisits v

/-- The ids that a request resolves. -/
def roots (r : Resolver) (request : Request) : List TypeId :=
  request.queries.flatMap r.queryRoots

/-- Some of the requests leads to a type in a direction. -/
def ComesTo (r : Resolver) (requests : List Request) (dir : Direction) (id : TypeId) : Prop :=
  ∃ request ∈ requests, request.direction = dir ∧
    ∃ root ∈ r.roots request, r.LeadsIn dir root id

theorem session_append (s t : List Request) (reg : Registry) :
    (r.session (s ++ t)).run reg =
      let before := (r.session s).run reg
      let after := (r.session t).run before.2
      (before.1 ++ after.1, after.2) := by
  unfold session
  rw [List.mapM_append]
  rfl

/-! ## Queries -/

/-- Outside of any expansion there is room for all of them. -/
theorem underway_of_start {c : Chain} (h : c.processing = []) :
    r.Underway r.depthLimit id c :=
  ⟨by simp [h], by simp [h, depthLimit]⟩

theorem stable_start_lawWith {K : Chain → Prop} :
    (r.lawWith I K).Stable fun c => c.processing = [] :=
  fun _ _ _ hle hp => hle.processing.trans hp

theorem marks_start (hI : r.Steps I) (id : TypeId) :
    (r.lawWith I r.Thorough).Marks (fun c => c.processing = []) r.ExhaustedIn
      (r.resolveType r.depthLimit id) [id] := by
  refine (keeps_exhausted hI r.depthLimit id).mono (fun c hp => underway_of_start hp) ?_
  intro _ c _ hin i hi
  obtain rfl := List.mem_singleton.1 hi
  exact hin

section

variable {L : Law Chain} {pre : Chain → Prop} (hpre : L.Stable pre)

include hpre

theorem answers_answer {good : Chain → Shape Descriptor → Prop} (hj : L.Weighs good)
    (query : Query) (h : ∀ root ∈ r.queryRoots query,
      L.Answers good pre (r.resolveType r.depthLimit root)) :
    L.Answers good pre (r.answer query) := by
  cases query with
  | type id pointers =>
    exact Law.Keeps.bind hpre (h id (by simp [queryRoots])) fun d => .pure fun c _ hc =>
      Descriptor.all_withPointers.2 hc.2
  | «variable» v => exact answers_resolveVariable hj hpre v h

theorem marks_answer {mark : TypeId → Chain → Prop} (hmark : ∀ i, L.Stable (mark i))
    (query : Query) (h : ∀ root ∈ r.queryRoots query,
      L.Marks pre mark (r.resolveType r.depthLimit root) [root]) :
    L.Marks pre mark (r.answer query) (r.queryRoots query) := by
  cases query with
  | type id pointers =>
    exact .bind hpre hmark (h id (by simp [queryRoots])) fun d => .pure _
  | «variable» v => exact marks_resolveVariable hpre hmark v h

end

/-! ## Requests -/

/-- A registry between two requests: it is at rest, and what has been expanded is exhausted. -/
structure Ready (r : Resolver) (I : Registry → Prop) (reg : Registry) : Prop where
  rests : r.Rests I reg
  thorough : ∀ id dir, (id, dir) ∈ reg.expanded → r.Exhausted dir [] reg id

theorem Ready.empty (h : I {}) : r.Ready I {} :=
  ⟨.empty r h, by simp⟩

theorem pending_start (ns : String) (dir d : Direction) (reg : Registry) :
    pending { ns, direction := dir, registry := reg } d = [] := by
  unfold pending
  split <;> rfl

/-- The answers refer to names that have definitions, and what the roots lead to is settled. -/
structure Served (r : Resolver) (request : Request) (types : List Descriptor) (reg : Registry) :
    Prop where
  refers : ∀ d ∈ types, d.All (r.Refers [] reg)
  exhausted : ∀ root ∈ r.roots request, r.Exhausted request.direction [] reg root

theorem stable_served {J : Registry → Prop} (request : Request) (types : List Descriptor) :
    (Registry.law J).Stable (r.Served request types) := by
  intro reg reg' _ hle h
  constructor
  · intro d hd
    exact (h.refers d hd).imp fun _ hs => hs.of_extends hle
  · intro root hroot
    exact (h.exhausted root hroot).of_extends hle

theorem ready_serve (hI : r.Steps I) (h : r.Ready I reg) (request : Request) :
    r.Ready I (r.serve request reg).2.registry ∧
      reg.Extends (r.serve request reg).2.registry ∧
      r.Served request (r.serve request reg).1 (r.serve request reg).2.registry := by
  have hinv := h.rests.inv request.ns request.direction
  have hthorough : r.Thorough
      { ns := request.ns, direction := request.direction, registry := reg } := by
    intro i d hi
    rw [pending_start]
    exact h.thorough i d hi
  obtain ⟨hinv', hle, hrefers⟩ := Law.Keeps.mapM_forall stable_start
    (judges_refersIn_lawOf (I := I)).stable_all request.queries
    (fun query _ => answers_answer stable_start judges_refersIn_lawOf.toWeighs query fun root _ =>
      (keeps_start hI root).weaken fun _ _ _ hd => hd.refers) _ hinv rfl
  obtain ⟨⟨-, hthorough'⟩, -, hexhausted⟩ := Law.Marks.mapM stable_start_lawWith
    (stable_exhaustedIn fun h => h) request.queries
    (fun query _ => marks_answer stable_start_lawWith (stable_exhaustedIn fun h => h) query
      fun root _ => marks_start hI root) _ ⟨hinv, hthorough⟩ rfl
  have hp := hle.processing
  have hdir := hle.direction
  refine ⟨⟨hinv'.rests hp, fun i d hi => ?_⟩, hle.registry, fun d hd => ?_, fun root hroot => ?_⟩
  · have hi := hthorough' i d hi
    rwa [pending_eq hdir hp, pending_start] at hi
  · have hd := hrefers d hd
    unfold RefersIn at hd
    rwa [hp] at hd
  · have hroot := hexhausted root hroot
    unfold ExhaustedIn at hroot
    rwa [hp, hdir] at hroot

/-! ## Sessions -/

/-- A session keeps what the steps of resolution keep, and what holds of the answers to a request
holds at its end. -/
theorem keeps_session (hI : r.Steps I) (requests : List Request) :
    (Registry.law (r.Ready I)).Keeps (fun _ => True) (r.session requests)
      fun answers reg => List.Forall₂ (r.Served · · reg) requests answers := by
  refine .mapM (Law.stable_const True) stable_served requests fun request _ => ?_
  intro reg hreg _
  exact ready_serve hI hreg request

/-- What some request of a session has led to is settled at its end. -/
theorem settled_session (hI : r.Steps I) (h : r.Ready I reg) {requests : List Request}
    (hid : r.ComesTo requests dir id) : r.Settled dir ((r.session requests).run reg).2 id := by
  obtain ⟨request, hrequest, rfl, root, hroot, hlead⟩ := hid
  obtain ⟨-, -, hserved⟩ := keeps_session hI requests reg h trivial
  obtain ⟨answers, -, hserved⟩ := exists_of_mem_left hserved hrequest
  have hsettled := hserved.exhausted root hroot id (leadsPast_nil.2 hlead)
  simpa using hsettled

end Resolver

end ClientTypes

import ClientTypes.Proofs.Resolve.Surface
import ClientTypes.Proofs.Session

/-!
# Asking again

A query that is asked again right away gets the same answer and registers nothing, whatever has been
resolved before it. So does a request in a later chain, as long as the definitions that its answers
borrow from are the same there.

## Main definitions

* `Resolver.BorrowsFor` — what the answers to a request may borrow from
* `Resolver.Prepared` — a registry that a request can start from

The main statements are `repeats_request` and `answer_twice`.
-/

namespace ClientTypes

namespace Resolver

variable {r : Resolver} {I : Registry → Prop} {reg : Registry} {dir : Direction} {u : TypeId}
  {q : QName} {c : Chain}

/-! ## Requests -/

/-- What the answers to a request may borrow. -/
def BorrowsFor (r : Resolver) (request : Request) (u : TypeId) : Prop :=
  ∃ root ∈ r.roots request, r.Borrows request.direction root u

theorem Later.mono {Q Q' : TypeId → Prop} {c' : Chain} (hQ : ∀ u, Q' u → Q u)
    (h : r.Later Q c c') : r.Later Q' c c' :=
  ⟨h.direction, h.processing, h.registry, fun u q hu => h.same u q (hQ u hu)⟩

/-- Before a request there is nothing being expanded. -/
def Idle (dir : Direction) (c : Chain) : Prop := c.direction = dir ∧ c.processing = []

theorem stable_idle : r.lastingLaw.Stable (Idle dir) :=
  fun _ _ _ hle h => ⟨hle.1.direction.trans h.1, hle.1.processing.trans h.2⟩

theorem repeats_root (hdistinct : r.project.Distinct) {Q : TypeId → Prop} {root : TypeId}
    (hQ : ∀ u, r.Borrows dir root u → Q u) :
    r.lastingLaw.Repeats r Q (Idle dir) (r.resolveType r.depthLimit root) := by
  refine (repeats_resolveType hdistinct dir root r.depthLimit root).mono (fun c h => ?_)
    fun d c _ h c' hc' => h c' (hc'.mono hQ)
  exact ⟨h.1, underway_of_start h.2, by simp [Surfaced, h.2], .refl⟩

theorem repeats_answer (hdistinct : r.project.Distinct) {Q : TypeId → Prop} (query : Query)
    (hQ : ∀ root ∈ r.queryRoots query, ∀ u, r.Borrows dir root u → Q u) :
    r.lastingLaw.Repeats r Q (Idle dir) (r.answer query) := by
  have hroot (root : TypeId) (hroot : root ∈ r.queryRoots query) :=
    repeats_root hdistinct (hQ root hroot)
  cases query with
  | type id pointers =>
    exact .bind (fun _ => later_of_le) stable_idle (hroot id (by simp [queryRoots])) fun _ =>
      .pure _
  | «variable» v => exact repeats_resolveVariable (fun _ => later_of_le) stable_idle v hroot

theorem repeats_request (hdistinct : r.project.Distinct) (request : Request) :
    r.lastingLaw.Repeats r (r.BorrowsFor request) (Idle request.direction)
      (request.queries.mapM r.answer) := by
  refine .mapM (fun _ => later_of_le) stable_idle _ fun query hquery => ?_
  refine repeats_answer hdistinct query fun root hroot u hu => ?_
  exact ⟨root, List.mem_flatMap.2 ⟨query, hquery, hroot⟩, hu⟩

/-! ## Between requests -/

/-- A registry between two requests: what its aliases go by is known, and settled. -/
structure Prepared (r : Resolver) (reg : Registry) : Prop where
  rests : r.Rests r.Leaning reg
  anchored : ∀ ns dir, r.Anchored { ns, direction := dir, registry := reg }

theorem Prepared.empty (r : Resolver) : r.Prepared {} :=
  ⟨.empty r r.leaning_empty, fun _ _ _ _ _ _ hexp => by simp at hexp⟩

theorem Prepared.inv (h : r.Prepared reg) (ns : String) (dir : Direction) :
    r.lastingLaw.inv { ns, direction := dir, registry := reg } :=
  ⟨h.rests.inv ns dir, h.anchored ns dir⟩

theorem prepared_of_inv (h : r.lastingLaw.inv c) (hp : c.processing = []) :
    r.Prepared c.registry := by
  refine ⟨h.1.rests hp, fun ns dir id d q last hexp hq hlast => ?_⟩
  have hpending : pending c d = [] := by
    unfold pending
    split <;> simp [hp]
  rw [pending_start]
  simpa [hpending] using h.2 id d q last hexp hq hlast

theorem prepared_session (hdistinct : r.project.Distinct) (requests : List Request)
    (h : r.Prepared reg) : r.Prepared ((r.session requests).run reg).2 ∧
      reg.Extends ((r.session requests).run reg).2 := by
  have hkeeps : (Registry.law r.Prepared).Keeps (fun _ => True) (r.session requests)
      fun types _ => List.Forall₂ (fun _ _ => True) requests types := by
    refine .mapM (Law.stable_const True) (fun _ _ => Law.stable_const True) requests ?_
    rintro request - reg hreg -
    obtain ⟨hinv, hle, -⟩ := repeats_request hdistinct request _
      (hreg.inv request.ns request.direction) ⟨rfl, rfl⟩
    exact ⟨prepared_of_inv hinv hle.1.processing, hle.1.registry, trivial⟩
  obtain ⟨hprepared, hext, -⟩ := hkeeps reg h trivial
  exact ⟨hprepared, hext⟩

/-- After any requests, in any directions, a query that is asked twice in one direction gets the
same answer, and the second time nothing is registered: the definitions, the types that they first
came from and the types that have been expanded are the same as before. -/
theorem answer_twice (r : Resolver) (hdistinct : r.project.Distinct) (requests : List Request)
    (query : Query) (dir : Direction) (ns ns' : String) :
    let registry := ((r.session requests).run {}).2
    let first := (r.answer query).run { ns, direction := dir, registry }
    let second := (r.answer query).run { ns := ns', direction := dir, registry := first.2.registry }
    second.1 = first.1 ∧ second.2.registry = first.2.registry := by
  intro registry first second
  obtain ⟨hprepared, -⟩ := prepared_session hdistinct requests (.empty r)
  have hrepeats : r.lastingLaw.Repeats r (fun _ => True) (Idle dir) (r.answer query) :=
    repeats_answer hdistinct query fun _ _ _ _ => trivial
  obtain ⟨-, hle, hrecalls⟩ := hrepeats _ (hprepared.inv ns dir) ⟨rfl, rfl⟩
  obtain ⟨hsame, hstill⟩ := hrecalls { ns := ns', direction := dir, registry := first.2.registry }
    ⟨hle.1.direction.symm, hle.1.processing.symm, .refl _, fun _ _ _ _ _ => rfl⟩
  exact ⟨hsame, hstill.same⟩

end Resolver

/-! ## A draft of a page -/

namespace Draft

/-- A page has a title and may have a next one. A draft has no name of its own and promotes what a
page has. -/
def resolver : Resolver where
  project :=
    { path := "press"
      types :=
        [(⟨"Page"⟩, {
            package := some "press", name := some "Page"
            kind := .struct [
              { var := { name := "Title", type := ⟨"string"⟩ } },
              { var := { name := "Next", type := ⟨"Page"⟩, pointers := 1 } }] }),
         (⟨"draft"⟩, {
            kind := .struct [
              { var := { name := "Page", type := ⟨"Page"⟩ }, embedded := true }] })] }
  substitutions := {}
  tagKey := "json"

/-- A page is written first. Then drafts are read, and read again from another namespace. -/
theorem answer_draft_again :
    let page : Request := ⟨"press", .outbound, [.type ⟨"Page"⟩ 0]⟩
    let drafts : Query := .variable { name := "drafts", type := ⟨"draft"⟩, slice := true }
    let registry := ((resolver.session [page]).run {}).2
    let first := (resolver.answer drafts).run { ns := "press", direction := .inbound, registry }
    let second := (resolver.answer drafts).run
      { ns := "desk", direction := .inbound, registry := first.2.registry }
    second.1 = first.1 ∧ second.2.registry = first.2.registry := by
  have hdistinct : resolver.project.Distinct := Project.distinct_of_forall (by decide)
  exact Resolver.answer_twice resolver hdistinct _ _ .inbound "press" "desk"

end Draft

end ClientTypes

import ClientTypes.Proofs.Idempotence

/-!
# Asking again later

If other requests come between two equal ones, an answer to the second may differ from that to the
first only where it borrows from a definition that one of the others has replaced. That takes a
request of the other direction which comes to the type of that definition for the first time, and
then a body in that direction that knows more, or an opaque one.

## Main definitions

* `Resolver.Uniform` — types whose bodies are equally complete wherever they are resolved
* `Resolver.Undisturbed` — what the answers borrow from is not replaced in the meantime

The main statements are `get?_session` and `session_answers_eq`.
-/

namespace ClientTypes

namespace Resolver

variable {r : Resolver} {I : Registry → Prop} {reg reg' : Registry} {dir : Direction}
  {id u : TypeId} {q : QName} {a : Aspect} {k : Nat} {s t : List Request} {request : Request}

/-! ## Requests that leave a definition alone -/

section

variable (hdistinct : r.project.Distinct) (hq : r.project.Names u q) (hI : r.Steps I)
  (h : r.Ready I reg)

include hdistinct hq hI h

theorem get?_serve (request : Request) (hspares : ∀ root ∈ r.roots request,
    r.Spares I request.direction root u (reg.get? q) reg) :
    (r.serve request reg).2.registry.get? q = reg.get? q := by
  let pre (c : Chain) : Prop := c.processing = [] ∧ reg.Extends c.registry
  have hpre : (r.lawWith I (Holding request.direction q (reg.get? q))).Stable pre :=
    fun _ _ _ hle hp => ⟨hle.processing.trans hp.1, hp.2.trans hle.registry⟩
  have hmark (_ : TypeId) := Law.stable_const
    (L := r.lawWith I (Holding request.direction q (reg.get? q))) True
  have hquery (query : Query) (hquery : query ∈ request.queries) :
      (r.lawWith I (Holding request.direction q (reg.get? q))).Marks pre (fun _ _ => True)
        (r.answer query) (r.queryRoots query) := by
    refine marks_answer hpre hmark query fun root hroot => ?_
    have hroot : root ∈ r.roots request := List.mem_flatMap.2 ⟨query, hquery, hroot⟩
    exact (keeps_get? hdistinct hq hI r.depthLimit root).mono
      (fun c hp => ⟨underway_of_start hp.1, (hspares root hroot).of_extends hp.2⟩)
      fun _ _ _ _ _ _ => trivial
  obtain ⟨⟨-, -, hget⟩, -⟩ := Law.Marks.mapM hpre hmark request.queries hquery
    { ns := request.ns, direction := request.direction, registry := reg }
    ⟨h.rests.inv _ _, rfl, rfl⟩ ⟨rfl, .refl reg⟩
  exact hget

/-- A session leaves a definition alone with which none of its requests has any business. -/
theorem get?_session (requests : List Request)
    (hspares : ∀ request ∈ requests, ∀ root ∈ r.roots request,
      r.Spares I request.direction root u (reg.get? q) reg) :
    ((r.session requests).run reg).2.get? q = reg.get? q := by
  let inv (reg' : Registry) : Prop :=
    r.Ready I reg' ∧ reg.Extends reg' ∧ reg'.get? q = reg.get? q
  have hkeeps : (Registry.law inv).Keeps (fun _ => True) (r.session requests)
      fun types _ => List.Forall₂ (fun _ _ => True) requests types := by
    refine .mapM (Law.stable_const True) (fun _ _ => Law.stable_const True) requests
      fun request hrequest => ?_
    rintro reg' ⟨hready, hext, hget⟩ -
    obtain ⟨hready', hext', -⟩ := ready_serve hI hready request
    have hsame := get?_serve hdistinct hq hI hready request fun root hroot =>
      hget ▸ (hspares request hrequest root hroot).of_extends hext
    exact ⟨⟨hready', hext.trans hext', hsame.trans hget⟩, hext', trivial⟩
  obtain ⟨⟨-, -, hget⟩, -⟩ := hkeeps reg ⟨h, .refl reg, rfl⟩ trivial
  exact hget

end

/-! ## Uniform types -/

/-- The bodies of a type are equally complete wherever it is resolved: it is steady, or it is a
struct and steady in outline. -/
def Uniform (r : Resolver) (u : TypeId) : Prop :=
  r.Steady .whole u ∨ r.Steady .outline u ∧
    ∃ decl fields, r.project.type? u = some decl ∧ decl.kind = .struct fields

theorem Uniform.exists_layer (hdistinct : r.project.Distinct) (h : r.Uniform u) :
    ∃ k, r.Even u ∧ ∀ b₁ b₂, r.Born (r.layer k) u b₁ → r.Born (r.layer k) u b₂ →
      b₁.isOpaque = b₂.isOpaque ∧ b₁.completeness = b₂.completeness := by
  rcases h with ⟨k, hs⟩ | ⟨⟨k, hs⟩, decl, fields, hd, hk⟩
  · refine ⟨k, hs.even, fun b₁ b₂ h₁ h₂ => ?_⟩
    have heq := (agrees hdistinct .whole k).born hs h₁ h₂
    rw [Aspect.body_whole, Aspect.body_whole] at heq
    rw [heq]
    exact ⟨rfl, rfl⟩
  · refine ⟨k, hs.even, fun b₁ b₂ h₁ h₂ => ?_⟩
    have heq := (agrees hdistinct .outline k).born hs h₁ h₂
    obtain ⟨ps, rfl⟩ := h₁.exists_struct hd hk
    obtain ⟨qs, rfl, hmap⟩ := Aspect.exists_eq_struct heq
    have hlength : ps.length = qs.length := by simpa using congrArg List.length hmap
    exact ⟨rfl, hlength⟩

/-- What the type is defined as stays, whatever comes to it in whatever direction. -/
theorem spares_of_born (hq : r.project.Names u q) (heven : r.Even u)
    (hborn : ∀ b₁ b₂, r.Born (r.layer k) u b₁ → r.Born (r.layer k) u b₂ →
      b₁.isOpaque = b₂.isOpaque ∧ b₁.completeness = b₂.completeness)
    (h : r.Ready (r.layer (k + 1)) reg) (hs : r.Settled dir reg u) (dir' : Direction)
    (id : TypeId) : r.Spares (r.layer (k + 1)) dir' id u (reg.get? q) reg := by
  intro _
  have ⟨decl, hd, hname⟩ := hq
  cases hsub : r.substitute? decl with
  | some substitute =>
    refine .inl (settled_of_substituted fun decl' hd' => ?_)
    rw [Option.some.inj (hd'.symm.trans hd), hsub]
    simp
  | none =>
    right
    cases hcase : dir.isOverriddenBy decl.capabilities || decl.kind.isFormless with
    | true =>
      obtain ⟨e, he, hop⟩ := hs.hidden ⟨hd, hsub, hcase⟩ hname
      exact ⟨e, he, fun _ _ => hop, fun _ _ _ _ _ => .inl hop⟩
    | false =>
      have ho : r.Opens dir u decl := ⟨hd, hsub, hcase⟩
      have hexp : (u, dir) ∈ reg.expanded := hs.expanded ho hname
      obtain ⟨e, he⟩ := Option.isSome_iff_exists.1 (h.rests.closed.defined hexp hq)
      have hold : r.Born (r.layer k) u e.body :=
        h.rests.registry.2 u q e hq heven ⟨dir, hexp⟩ he
      refine ⟨e, he, fun _ hh => (ho.not_hides (heven.hides hh dir)).elim, ?_⟩
      intro n decl' c hsite _
      obtain ⟨hop, hcompleteness⟩ :=
        hborn _ _ hold ⟨n, decl', c, hsite.mono fun _ h => h.1, rfl⟩
      cases hopaque : e.body.isOpaque with
      | true => exact .inl hopaque
      | false => exact .inr ⟨hop.symm.trans hopaque, Nat.le_of_eq hcompleteness.symm⟩

/-! ## Requests in between -/

/-- The requests `t`, after the requests `s` and one more, replace nothing that the answers to the
latter borrow from. If they come to such a type in the other direction, then so has one of `s`, or
the type is uniform. -/
def Undisturbed (r : Resolver) (s t : List Request) (request : Request) : Prop :=
  ∀ u dir, r.BorrowsFor request u → dir ≠ request.direction → r.ComesTo t dir u →
    r.ComesTo s dir u ∨ r.Uniform u

theorem get?_of_undisturbed (hdistinct : r.project.Distinct) (h : r.Undisturbed s t request)
    (hu : r.BorrowsFor request u) (hq : r.project.Names u q)
    (hs : r.Settled request.direction ((r.session (s ++ [request])).run {}).2 u) :
    ((r.session t).run ((r.session (s ++ [request])).run {}).2).2.get? q =
      ((r.session (s ++ [request])).run {}).2.get? q := by
  have hready (k : Nat) : r.Ready (r.layer k) ((r.session (s ++ [request])).run {}).2 :=
    (keeps_session (steps_layer hdistinct k) (s ++ [request]) {} (.empty (r.layer_empty k))
      trivial).1
  by_cases huniform : r.Uniform u
  · obtain ⟨k, heven, hborn⟩ := huniform.exists_layer hdistinct
    exact get?_session hdistinct hq (steps_layer hdistinct (k + 1)) (hready (k + 1)) t
      fun next _ root _ => spares_of_born hq heven hborn (hready (k + 1)) hs next.direction root
  · refine get?_session hdistinct hq (steps_layer hdistinct 0) (hready 0) t
      fun next hnext root hroot hlead => .inl ?_
    by_cases hdir : next.direction = request.direction
    · exact hdir ▸ hs
    · have hcomes : r.ComesTo s next.direction u :=
        (h u _ hu hdir ⟨next, hnext, rfl, root, hroot, hlead⟩).resolve_right huniform
      refine settled_session (steps_layer hdistinct 0) (.empty trivial) ?_
      obtain ⟨first, hfirst, hcomes⟩ := hcomes
      exact ⟨first, List.mem_append_left _ hfirst, hcomes⟩

/-- A request in a later registry gets the same answers, if what they borrow from is the same. -/
theorem serve_again (hdistinct : r.project.Distinct) (h : r.Prepared reg)
    (hext : (r.serve request reg).2.registry.Extends reg')
    (hsame : ∀ u q, r.BorrowsFor request u → r.project.Names u q →
      r.Settled request.direction (r.serve request reg).2.registry u →
        reg'.get? q = (r.serve request reg).2.registry.get? q) :
    (r.serve request reg').1 = (r.serve request reg).1 := by
  obtain ⟨-, hle, hrecalls⟩ := repeats_request hdistinct request _
    (h.inv request.ns request.direction) ⟨rfl, rfl⟩
  have hdir : (r.serve request reg).2.direction = request.direction := hle.1.direction
  have hlater : r.Later (r.BorrowsFor request) (r.serve request reg).2
      { ns := request.ns, direction := request.direction, registry := reg' } :=
    ⟨hdir.symm, hle.1.processing.symm, hext, fun u q hu hq hs => hsame u q hu hq (hdir ▸ hs)⟩
  exact (hrecalls _ hlater).1

/-! ## Sessions -/

theorem session_cons (request : Request) (t : List Request) (reg : Registry) :
    (r.session (request :: t)).run reg =
      let served := r.serve request reg
      let after := (r.session t).run served.2.registry
      (served.1 :: after.1, after.2) := by
  unfold session
  rw [List.mapM_cons]
  rfl

theorem length_session (requests : List Request) (reg : Registry) :
    ((r.session requests).run reg).1.length = requests.length := by
  induction requests generalizing reg with
  | nil => rfl
  | cons request t ih =>
    rw [session_cons]
    exact congrArg (· + 1) (ih _)

/-- A request that is made twice in a session gets the same answers both times, if the requests in
between replace nothing that the answers borrow from. -/
theorem session_answers_eq (r : Resolver) (hdistinct : r.project.Distinct)
    (s t rest : List Request) (request : Request) (h : r.Undisturbed s t request) :
    let answers := ((r.session (s ++ request :: (t ++ request :: rest))).run {}).1
    ∃ types, answers[s.length]? = some types ∧
      answers[s.length + 1 + t.length]? = some types := by
  intro answers
  let before := (r.session s).run {}
  let first := r.serve request before.2
  let between := (r.session t).run first.2.registry
  let second := r.serve request between.2
  have hfirst : ((r.session (s ++ [request])).run {}).2 = first.2.registry := by
    rw [session_append]
    rfl
  have hprepared : r.Prepared before.2 := (prepared_session hdistinct s (.empty r)).1
  have hbetween : first.2.registry.Extends between.2 := by
    have hprepared' := (prepared_session hdistinct (s ++ [request]) (.empty r)).1
    rw [hfirst] at hprepared'
    exact (prepared_session hdistinct t hprepared').2
  have hsecond : second.1 = first.1 := by
    refine serve_again hdistinct hprepared hbetween fun u q hu hq hs => ?_
    have hget := get?_of_undisturbed hdistinct h hu hq
    rw [hfirst] at hget
    exact hget hs
  have hanswers : answers = before.1 ++ first.1 :: (between.1 ++ second.1 ::
      ((r.session rest).run second.2.registry).1) := by
    simp only [answers, session_append, session_cons]
    rfl
  have hbefore : before.1.length = s.length := length_session s {}
  have hlength : between.1.length = t.length := length_session t _
  refine ⟨first.1, ?_, ?_⟩
  · rw [hanswers, ← hbefore]
    simp
  · rw [hanswers, ← hbefore, ← hlength, ← hsecond, Nat.add_assoc, Nat.add_comm 1]
    simp

end Resolver

/-! ## Coins -/

namespace Coins

-- The runs below are evaluated, down to the tags of fields, their promoted properties and the
-- spellings of their types.
attribute [local semireducible] Tag.lookupChars Registry.structFrom SubstitutionTable.guessChars

/-- Coins have no name of their own and promote what money has. -/
def resolver (capabilities : Capabilities) : Resolver where
  project :=
    { path := "mint"
      types :=
        [(⟨"Money"⟩, {
            package := some "mint", name := some "Money"
            kind := .struct [{ var := { name := "Cents", type := ⟨"int64"⟩ } }]
            capabilities }),
         (⟨"coins"⟩, {
            kind := .struct [
              { var := { name := "Money", type := ⟨"Money"⟩ }, embedded := true }] })] }
  substitutions := {}
  tagKey := "json"

def request (id : String) (direction : Direction) : Request where
  ns := "mint"
  direction
  queries := [.type ⟨id⟩ 0]

theorem distinct (capabilities : Capabilities) : (resolver capabilities).project.Distinct :=
  Project.distinct_of_forall (by simp [resolver, TypeDecl.qname?])

/-- Visits go down in rank. -/
def rank (id : TypeId) : Nat :=
  if id.text = "coins" then 2 else if id.text = "Money" then 1 else 0

theorem rank_lt : ∀ t ∈ (resolver {}).project.types,
    ∀ i ∈ (resolver {}).visits t.1 t.2.kind, rank i < rank t.1 := by
  decide

/-- Coins are read, money is written, and coins are read again, where money has no format of its
own. -/
theorem exists_answers_eq :
    let answers := (((resolver {}).session [request "coins" .inbound, request "Money" .outbound,
      request "coins" .inbound]).run {}).1
    ∃ types, answers[0]? = some types ∧ answers[2]? = some types := by
  refine Resolver.session_answers_eq (resolver {}) (distinct {}) [] [request "Money" .outbound] []
    (request "coins" .inbound) fun u _ _ _ _ => .inr (.inl ?_)
  exact Resolver.steady_of_rank rank_lt (by decide) .whole u

/-- Coins that show a property. -/
def coins (name : String) (type : Descriptor) : Descriptor where
  shape := .object [{ name, field := name, type }]

/-- Where money has a format of its own for writing, its definition is replaced by an opaque one.
The coins that are read again show the money, and no longer the cents. -/
theorem exists_answers_ne :
    (resolver { marshalJson := true }).project.Distinct ∧
      let answers := (((resolver { marshalJson := true }).session [request "coins" .inbound,
        request "Money" .outbound, request "coins" .inbound]).run {}).1
      ∃ first last, answers[0]? = some first ∧ answers[2]? = some last ∧ first ≠ last := by
  refine ⟨distinct _, [coins "Cents" (.builtin .integer)],
    [coins "Money" (.named ⟨"mint", "Money"⟩)], rfl, rfl, ?_⟩
  simp [coins]

end Coins

end ClientTypes

import ClientTypes.Pass
import ClientTypes.Proofs.Law
import ClientTypes.Proofs.Exchange.Names

/-!
# Names of parameters

The parameters and results of an operation, the fields of its exchange and the parameters and
results of function types and interface methods are all named from variables. An operation and its
exchange use the same names. A function or method type uses them too, except that it keeps a blank
as the name of a variable that is named so.

## Main definitions

* `NamesAlike` — how the names of an operation, an exchange and a call agree

The main statement is `Pass.names_agree_iff`.
-/

namespace ClientTypes

variable {σ α β : Type}

/-- One result for each member of a list. -/
theorem length_run_mapM (f : α → StateM σ β) (as : List α) (s : σ) :
    ((as.mapM f).run s).1.length = as.length := by
  induction as generalizing s with
  | nil => rfl
  | cons a as ih =>
    rw [List.mapM_cons]
    exact congrArg (· + 1) (ih ((f a).run s).2)

namespace Slot

variable {slot : Slot} {i : Nat} {v : Variable}

theorem positionalName_ne_blank (slot : Slot) (i : Nat) : slot.positionalName i ≠ "_" := by
  intro h
  have hsmall := slot.startsSmall_positionalName i
  rw [h] at hsmall
  exact absurd hsmall (by decide)

/-- The name in a function or method type is the one that the variable goes by elsewhere, unless the
variable is named with a blank. -/
theorem declaredName_eq_nameOf_iff : slot.declaredName i v = slot.nameOf i v ↔ v.name ≠ "_" := by
  by_cases hblank : v.name = "_"
  · simpa [declaredName, nameOf, Variable.isUnnamed, hblank] using
      (slot.positionalName_ne_blank i).symm
  · simp [declaredName, nameOf, Variable.isUnnamed, hblank]

end Slot

/-! ## Lists of names -/

section Lists

variable {vars : List Variable} {types : List Descriptor}

theorem Resolver.map_name_nameParams (name : Nat → Variable → String)
    (h : types.length = vars.length) :
    (nameParams name vars types).map (·.name) = vars.mapIdx name := by
  refine List.ext_getElem? fun i => ?_
  rw [nameParams, List.getElem?_map, List.getElem?_mapIdx, List.getElem?_mapIdx, Option.map_map]
  conv_rhs => rw [← List.map_fst_zip (Nat.le_of_eq h.symm), List.getElem?_map, Option.map_map]
  rfl

theorem Exchange.map_paramName_zip (slot : Slot) (h : types.length = vars.length) :
    (slotFields slot (vars.zip types)).map (·.paramName) = slot.names vars := by
  rw [map_paramName_slotFields, List.map_fst_zip (Nat.le_of_eq h.symm)]

/-- Of variables, the names of the parameters of an operation, of the fields of an exchange and of
the parameters of a call: each variable has one of each, the first two are the same, and the last
one is that one too if and only if the variable is not named with a blank. -/
structure NamesAlike (vars : List Variable) (params : List (Param Descriptor))
    (fields : List ExchangeField) (call : List (Param Descriptor)) : Prop where
  length_fields : fields.length = vars.length
  length_call : call.length = vars.length
  params_eq : params.map (·.name) = fields.map (·.paramName)
  call_eq_iff : ∀ i : Nat, (call.map (·.name))[i]? = (fields.map (·.paramName))[i]? ↔
    vars[i]?.map Variable.name ≠ some "_"

theorem namesAlike (slot : Slot) {types' : List Descriptor} (h : types.length = vars.length)
    (h' : types'.length = vars.length) :
    NamesAlike vars (Resolver.nameParams slot.nameOf vars types)
      (Exchange.slotFields slot (vars.zip types))
      (Resolver.nameParams slot.declaredName vars types') := by
  refine ⟨?_, ?_, ?_, fun i => ?_⟩
  · simp [Exchange.slotFields, h]
  · simp [Resolver.nameParams, h']
  · rw [Resolver.map_name_nameParams _ h, Exchange.map_paramName_zip slot h, Slot.names]
  · rw [Resolver.map_name_nameParams _ h', Exchange.map_paramName_zip slot h, Slot.getElem?_names,
      List.getElem?_mapIdx]
    cases vars[i]? with
    | none => simp
    | some v => simp [Slot.declaredName_eq_nameOf_iff]

end Lists

/-! ## Operations and calls -/

namespace Pass

/-- Whatever has been resolved before, an operation and its exchange name arguments and results
alike, and so does the resolver the parameters and results of a function type or an interface method
with the same variables, except for those that are named with a blank: their names differ. -/
theorem names_agree_iff (p : Pass) (ns : String) (op : Operation) (state : PassState) (r : Resolver)
    (inner : TypeId → Resolving Descriptor) (chain : Chain) :
    let s : Signature :=
      ⟨op.payloadArgs p.config.contextTypes, op.payloadResults p.config.errorTypes⟩
    let o := ((p.operation ns op).run state).1
    let c := ((r.callShape inner s).run chain).1
    NamesAlike s.params o.params o.exchange.request c.params ∧
    NamesAlike s.results o.results o.exchange.response c.results ∧
    (∀ id, ((r.body inner id (.function s)).run chain).1 = .aliasOf { shape := .function c }) ∧
    ∀ name, ((r.methodSet inner [] [⟨name, s⟩]).run chain).1 = [⟨name, c⟩] := by
  intro s o c
  refine ⟨?_, ?_, fun id => rfl, fun name => ?_⟩
  · exact namesAlike .request (length_run_mapM ..) (length_run_mapM ..)
  · exact namesAlike .response (length_run_mapM ..) (length_run_mapM ..)
  · change Resolver.selectMethods [⟨name, c⟩] [] = _
    simp [Resolver.selectMethods, distinctOn]

end Pass

/-! ## A handler -/

namespace Handlers

def handle : Operation where
  name := "Handle"
  args := [{ name := "_", type := ⟨"string"⟩ }, { name := "status", type := ⟨"int64"⟩ }]

def pass : Pass := .make { path := "web" } {}

def start : Chain where
  ns := "web"
  direction := .outbound
  registry := {}

/-- An argument that is named with a blank goes by its position, in an operation and in its
exchange. In a method with the same variables it keeps the blank. -/
theorem exists_names_differ :
    let o := ((pass.operation "web" handle).run ⟨{}, []⟩).1
    let c := ((pass.resolver.callShape (pass.resolver.resolve · 0) { params := handle.args }).run
      start).1
    o.params.map (·.name) = ["arg0", "status"] ∧
      o.exchange.request.map (·.paramName) = ["arg0", "status"] ∧
      c.params.map (·.name) = ["_", "status"] := by
  decide

end Handlers

end ClientTypes

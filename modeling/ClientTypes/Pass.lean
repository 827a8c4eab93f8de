import ClientTypes.Collector
import ClientTypes.Exchange
import ClientTypes.Registry.Table
import ClientTypes.Resolve.Basic

/-!
# Passes

A pass resolves contracts one after another against one registry and closes with a table of
definitions. Every argument, result and error is a root of its own. What a contract needs but no
root has registered is resolved afterwards.

## Main definitions

* `Pass.contract` — one contract of a pass
* `generate` — a whole pass over some contracts
-/

namespace ClientTypes

/-- An operation with everything resolved. -/
structure ResolvedOperation where
  name : String
  params : List (Param Descriptor)
  results : List (Param Descriptor)
  /-- The declared errors, and the default error where it is not among them. -/
  errors : List Descriptor
  exchange : Exchange
  doc : Option String
deriving Inhabited

/-- A contract with everything resolved. -/
structure ResolvedContract where
  name : String
  ns : String
  /-- The ids of the named types that the contract needs. -/
  reachable : List TypeId
  operations : List ResolvedOperation
  /-- The foreign namespaces that the operations refer to, in ascending order. -/
  imports : List String
deriving Inhabited

/-- The result of a pass. -/
structure Generation where
  contracts : List ResolvedContract
  table : Table
deriving Inhabited

/-- What a pass works with. -/
structure Pass where
  project : Project
  config : Config
  resolver : Resolver
  collector : Collector
deriving Inhabited

/-- What a contract leaves behind: the registry, and the namespaces imported so far. -/
structure PassState where
  registry : Registry
  imports : List String := []
deriving Inhabited

namespace Pass

def make (project : Project) (config : Config) : Pass where
  project
  config
  resolver := .make project config
  collector := .make project config

/-- Resolves a root in a chain of its own. -/
def root {α : Type} (ns : String) (direction : Direction) (act : Resolving α) :
    StateM PassState α := do
  let state ← get
  let (a, chain) := act.run { ns, direction, registry := state.registry }
  set (PassState.mk chain.registry (state.imports ++ chain.imports))
  return a

def variableTypes (p : Pass) (ns : String) (direction : Direction) (vars : List Variable) :
    StateM PassState (List Descriptor) :=
  vars.mapM fun v => root ns direction (p.resolver.resolveRoot v)

/-- The errors of an operation: the declared ones, then the default one unless it is declared. -/
def errorIds (op : Operation) : List TypeId :=
  op.errors ++ op.defaultError.toList.filter (· ∉ op.errors)

def operation (p : Pass) (ns : String) (op : Operation) : StateM PassState ResolvedOperation := do
  let args := op.payloadArgs p.config.contextTypes
  let results := op.payloadResults p.config.errorTypes
  let argTypes ← p.variableTypes ns .outbound args
  let resultTypes ← p.variableTypes ns .inbound results
  let errors ← (errorIds op).mapM fun id => root ns .inbound (p.resolver.resolve id 0)
  return {
    name := op.name
    params := Resolver.nameParams Slot.request.nameOf args argTypes
    results := Resolver.nameParams Slot.response.nameOf results resultTypes
    errors
    exchange := .build (args.zip argTypes) (results.zip resultTypes)
    doc := op.doc }

/-- Registers a needed type that no root has registered, unless it is substituted. -/
def fill (p : Pass) (registry : Registry) (id : TypeId) : Registry :=
  if registry.containsType id then registry
  else match p.project.type? id with
    | none => registry
    | some decl =>
      match decl.package with
      | none => registry
      | some ns =>
        if p.collector.isSubstituted decl then registry
        else ((p.resolver.resolve id 0).run { ns, direction := .inbound, registry }).2.registry

/-- Resolves a contract against the registry of the pass. -/
def contract (p : Pass) (c : Contract) (registry : Registry) : ResolvedContract × Registry :=
  let reachable := p.collector.collectContract c
  let (operations, state) := (c.operations.mapM (p.operation c.package)).run { registry }
  let resolved : ResolvedContract := {
    name := c.name
    ns := c.package
    reachable
    operations
    imports := sortedSet state.imports }
  (resolved, reachable.foldl p.fill state.registry)

/-- Resolves several contracts one after another. -/
def contracts (p : Pass) : List Contract → Registry → List ResolvedContract × Registry
  | [], registry => ([], registry)
  | c :: cs, registry =>
    let (first, registry) := p.contract c registry
    let (rest, registry) := p.contracts cs registry
    (first :: rest, registry)

end Pass

/-- A pass over some contracts of a project. -/
def generate (project : Project) (config : Config) (contracts : List Contract) : Generation :=
  let (resolved, registry) := (Pass.make project config).contracts contracts {}
  { contracts := resolved, table := registry.finalize }

/-- Whether the conversions of every exchange fit. -/
def Generation.isConsistent (g : Generation) : Bool :=
  g.contracts.all fun c => c.operations.all (·.exchange.isConsistent)

end ClientTypes

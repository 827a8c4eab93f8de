import ClientTypes.Resolve.Basic

/-!
# Sessions

A session is a sequence of requests to one resolver on one registry. Each request has a chain of its
own, with a namespace and a direction, in which its queries are answered one after another.

## Main definitions

* `Query`, `Request` — what can be asked, and what is asked in one chain
* `Resolver.serve` — the answers to a request, and the chain that it leaves behind
* `Resolver.session` — the answers to several requests, as a computation on the registry
-/

namespace ClientTypes

/-- What can be resolved: a type id behind some pointers, or a variable. -/
inductive Query where
  | type (id : TypeId) (pointers : Nat)
  | variable (v : Variable)
deriving Inhabited

/-- Queries that are answered in one chain. -/
structure Request where
  ns : String
  direction : Direction
  queries : List Query
deriving Inhabited

namespace Resolver

/-- Answers a query. -/
def answer (r : Resolver) : Query → Resolving Descriptor
  | .type id pointers => r.resolve id pointers
  | .variable v => r.resolveRoot v

/-- Answers a request in a chain of its own. -/
def serve (r : Resolver) (request : Request) (registry : Registry) : List Descriptor × Chain :=
  (request.queries.mapM r.answer).run
    { ns := request.ns, direction := request.direction, registry }

/-- Answers requests one after another. -/
def session (r : Resolver) (requests : List Request) : StateM Registry (List (List Descriptor)) :=
  requests.mapM fun request => do
    let (types, chain) := r.serve request (← get)
    set chain.registry
    return types

end Resolver

end ClientTypes

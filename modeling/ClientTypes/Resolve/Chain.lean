import ClientTypes.Registry.Basic

/-!
# Chains

One root is resolved in one chain. It remembers the namespace that is generated into, which types
are being expanded, and the foreign namespaces that the root's own descriptor refers to; the
registry outlives it.

## Main definitions

* `Chain` — the state of a chain, and `Resolving` — a computation in one
* `Chain.refer`, `Chain.referOpaque` — references, noted as imports where they are foreign
* `Chain.foreignNamespaces` — the imports so far
* `Chain.expanding` — the expansion of a type, marked while it lasts
-/

namespace ClientTypes

/-- The state of one chain. -/
structure Chain where
  /-- The namespace that is generated into. -/
  ns : String
  direction : Direction
  registry : Registry
  /-- The types that are being expanded, the innermost first. -/
  processing : List TypeId := []
  /-- The foreign namespaces referred to, each once. -/
  imports : List String := []
  /-- The definitions offered to the registry, the latest first. -/
  offered : List Definition := []
deriving Inhabited

/-- A computation in a chain. -/
abbrev Resolving := StateM Chain

namespace Chain

/-- Notes the namespace of a name that is referred to, unless it is the chain's own. -/
def note (name : QName) (c : Chain) : Chain :=
  if name.ns = c.ns ∨ name.ns ∈ c.imports then c
  else { c with imports := c.imports ++ [name.ns] }

/-- Offers a definition to the registry. -/
def offer (d : Definition) (c : Chain) : Chain :=
  { c with registry := c.registry.merge d, offered := d :: c.offered }

/-- The foreign namespaces referred to, in ascending order. -/
def foreignNamespaces (c : Chain) : List String := sortedSet c.imports

/-- A reference to a definition. -/
def refer (name : QName) : Resolving Descriptor := do
  modify (note name)
  return .named name

/-- An opaque value that goes by the name of a definition. -/
def referOpaque (name : QName) : Resolving Descriptor := do
  modify (note name)
  return .opaqueAs name

/-- Runs a computation with a type marked as being expanded. -/
def expanding {α : Type} (id : TypeId) (act : Resolving α) : Resolving α := do
  modify fun c => { c with processing := id :: c.processing }
  let a ← act
  modify fun c => { c with processing := c.processing.erase id }
  return a

/-- Runs a computation as if generating into another namespace. What it refers to belongs to the
definitions there and is no import of the root. -/
def within {α : Type} (ns : String) (act : Resolving α) : Resolving α := do
  let outer ← get
  set { outer with ns, imports := [] }
  let a ← act
  modify fun c => { c with ns := outer.ns, imports := outer.imports }
  return a

end Chain

end ClientTypes

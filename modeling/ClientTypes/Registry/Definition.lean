import ClientTypes.Descriptor.Encode
import ClientTypes.Descriptor.Render
import ClientTypes.Graph.Basic

/-!
# Definitions of named types

A named type is defined once, under its qualified name: as a struct with properties, as an
interface with methods, or as an alias of a descriptor.

## Main definitions

* `Body`, `Definition` — what a name stands for
* `Definition.completeness` — how much of the body is known
* `Definition.foreignNamespaces` — the namespaces that the body refers to
-/

namespace ClientTypes

/-- What a named type is defined as. -/
inductive Body where
  | struct (properties : List (Property Descriptor))
  | aliasOf (target : Descriptor)
  | interface (methods : List (MethodShape Descriptor))
deriving Inhabited

namespace Body

/-- The descriptors that a body is made of. -/
def types : Body → List Descriptor
  | .struct ps => ps.map (·.type)
  | .aliasOf target => [target]
  | .interface ms => ms.flatMap (·.call.parts)

/-- The qualified names that occur in a body. -/
def references (b : Body) : List QName := b.types.flatMap (·.references)

/-- The number of properties or methods; for an alias, whether its target has a known format. -/
def completeness : Body → Nat
  | .struct ps => ps.length
  | .aliasOf target => if target.shape.isOpaque then 0 else 1
  | .interface ms => ms.length

/-- An alias of the bare opaque type: the wire format is not derived from the type. -/
def isOpaque : Body → Bool
  | .aliasOf target => target.shape.isBareOpaque
  | _ => false

def members : Body → List (String × Json)
  | .struct ps => [("kind", .str "struct"), ("properties", .list Property.encode ps)]
  | .aliasOf target => [("kind", .str "alias"), ("target", target.encode)]
  | .interface ms => [("kind", .str "interface"), ("methods", .list MethodShape.encode ms)]

end Body

/-- A named type as it is known so far, and the declaration that it comes from. -/
structure Definition where
  name : QName
  typeId : TypeId
  body : Body
  doc : Option String := none
deriving Inhabited

namespace Definition

def completeness (d : Definition) : Nat := d.body.completeness

def isOpaque (d : Definition) : Bool := d.body.isOpaque

/-- The namespaces that the body refers to, other than the definition's own, in ascending order. -/
def foreignNamespaces (d : Definition) : List String :=
  sortedSet ((d.body.references.map (·.ns)).filter (· ≠ d.name.ns))

@[simp] theorem mem_foreignNamespaces {d : Definition} {ns : String} :
    ns ∈ d.foreignNamespaces ↔ ns ≠ d.name.ns ∧ ∃ q ∈ d.body.references, q.ns = ns := by
  simp only [foreignNamespaces, mem_sortedSet, List.mem_filter, List.mem_map, ne_eq, decide_not,
    Bool.not_eq_eq_eq_not, Bool.not_true, decide_eq_false_iff_not]
  exact and_comm

/-- A line for each part. -/
def lines (f : String → String) (parts : List String) : String :=
  String.join (parts.map f)

/-- The declaration of the type in a scope, with its documentation above it. -/
def render (scope : Scope) (d : Definition) : String :=
  let doc := match d.doc with
    | some doc => "/** " ++ Text.trimmed doc ++ " */\n"
    | none => ""
  let block (parts : List String) : String :=
    "export interface " ++ d.name.name ++ " \x7b\n" ++ lines (fun p => "  " ++ p ++ ";\n") parts
      ++ "\x7d\n"
  doc ++ match d.body with
    | .struct ps => block (ps.map (·.render scope))
    | .interface ms => block (ms.map (·.render scope))
    | .aliasOf target => "export type " ++ d.name.name ++ " = " ++ target.render scope ++ ";\n"

def encode (d : Definition) : Json :=
  .record <|
    [("name", d.name.encode), ("type_id", .str d.typeId.text), ("body", .record d.body.members)]
      ++ docMember d.doc

end Definition

end ClientTypes

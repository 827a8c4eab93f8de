import ClientTypes.Resolve.Member

/-!
# Resolution

`Resolver.resolve` turns a type id behind some pointers into a descriptor. The first rule that
applies decides: a type that is not declared is guessed from its id; a substituted one is replaced;
one that controls its own wire format in the chain's direction is opaque; otherwise its kind
decides. A named type is expanded once per direction, registered, and referred to by name. A type
that is met while it is being expanded is referred to by name, or opaque if it has none.

Expansions nest at most as deep as there are types, because a type that is being expanded is not
expanded again. `resolveType` takes the depth that is left, and `resolve` starts with one that
never runs out.

## Main definitions

* `Resolver.meet` — the answer for a type, given what its expansion would be
* `Resolver.expand` — the expansion of a declared type
* `Resolver.resolveType` — resolution with a limit on nested expansions
* `Resolver.resolve`, `Resolver.resolveRoot` — resolution of an id and of a variable
-/

namespace ClientTypes

/-- Whether values of the kind have no known wire format whatever their type is called. -/
def Kind.isFormless : Kind → Bool
  | .scalar s => s.builtin?.isNone
  | .channel _ | .any => true
  | _ => false

/-- The body of a struct or interface before it is known. -/
def Kind.stub? : Kind → Option Body
  | .struct _ => some (.struct [])
  | .interface _ _ => some (.interface [])
  | _ => none

namespace Resolver

/-- The substitute of a declared type. -/
def substitute? (r : Resolver) (decl : TypeDecl) : Option Substitute :=
  decl.qname?.bind fun q => r.substitutions.get? q.dotted

/-- The definition of a declared type with the given body. -/
def definition (id : TypeId) (decl : TypeDecl) (name : QName) (body : Body) : Definition :=
  { name, typeId := id, body, doc := decl.doc }

/-- The answer for a type of unknown format: opaque, and registered as such under its name. -/
def hide (id : TypeId) (decl : TypeDecl) : Resolving Descriptor := do
  match decl.qname? with
  | none => return .bareOpaque
  | some name =>
    modify (Chain.offer (definition id decl name (.aliasOf .bareOpaque)))
    Chain.referOpaque name

/-- The answer for a named type that is being expanded already: its name. A struct or an interface
is registered without members, so that the name has a definition. -/
def referBack (id : TypeId) (decl : TypeDecl) (name : QName) : Resolving Descriptor := do
  if let some stub := decl.kind.stub? then
    modify (Chain.offer (definition id decl name stub))
  Chain.refer name

/-- The answer for a type id. Only a type that has to be expanded here and now is handed to
`expansion`. -/
def meet (r : Resolver) (expansion : TypeId → TypeDecl → Resolving Descriptor) (id : TypeId) :
    Resolving Descriptor := do
  match r.project.type? id with
  | none => return r.substitutions.guess id.text
  | some decl =>
    let chain ← get
    match r.substitute? decl with
    | some s => return s.descriptor
    | none =>
      if chain.direction.isOverriddenBy decl.capabilities || decl.kind.isFormless then
        hide id decl
      else match decl.qname? with
        | some name =>
          if id ∈ chain.processing then referBack id decl name
          else if chain.registry.isExpanded id chain.direction then Chain.refer name
          else expansion id decl
        | none => if id ∈ chain.processing then return .bareOpaque else expansion id decl

/-- Expands a declared type. A named one is expanded in its own namespace, registered and referred
to; one without a name takes its body in place. -/
def expand (r : Resolver) (inner : TypeId → Resolving Descriptor) (id : TypeId) (decl : TypeDecl) :
    Resolving Descriptor := do
  match decl.qname? with
  | none =>
    let body ← Chain.expanding id (r.body inner id decl.kind)
    return body.inlined
  | some name =>
    let body ← Chain.expanding id (Chain.within name.ns (r.body inner id decl.kind))
    modify (Chain.offer (definition id decl name body))
    modify fun c => { c with registry := c.registry.markExpanded id c.direction }
    Chain.refer name

/-- Resolves a type id with at most `depth` expansions inside one another; a type that would need
one more is opaque. -/
def resolveType (r : Resolver) : (depth : Nat) → TypeId → Resolving Descriptor
  | 0 => r.meet fun _ _ => return .bareOpaque
  | depth + 1 => r.meet (r.expand (r.resolveType depth))

/-- As many expansions as can ever nest. -/
def depthLimit (r : Resolver) : Nat := r.project.types.length

/-- Resolves a type id behind a number of pointers. -/
def resolve (r : Resolver) (id : TypeId) (pointers : Nat) : Resolving Descriptor := do
  return (← r.resolveType r.depthLimit id).withPointers pointers

/-- Resolves an argument, a result or a field with its modifiers. -/
def resolveRoot (r : Resolver) (v : Variable) : Resolving Descriptor :=
  r.resolveVariable (r.resolveType r.depthLimit) v

end Resolver

end ClientTypes

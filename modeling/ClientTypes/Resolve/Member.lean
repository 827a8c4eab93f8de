import ClientTypes.Config.Basic
import ClientTypes.FieldRole
import ClientTypes.Resolve.Chain
import ClientTypes.Resolve.Guess
import ClientTypes.Slot

/-!
# Variables, fields and methods

How the parts of a type are resolved once it is known how to resolve a type id. All of it is
parametrised by that: `inner` resolves an id that is met inside the type at hand.

## Main definitions

* `Resolver` — what resolution needs to know
* `Resolver.resolveVariable` — a type with its call-site modifiers
* `Resolver.properties` — the wire properties of a struct, promoted ones included
* `Resolver.methodSet` — the methods of an interface, embedded ones included
* `Resolver.body` — the body of a type by its kind
-/

namespace ClientTypes

/-- What resolution needs to know. -/
structure Resolver where
  project : Project
  substitutions : SubstitutionTable
  tagKey : String
deriving Inhabited

namespace Resolver

def make (project : Project) (config : Config) : Resolver where
  project
  substitutions := config.substitutionTable
  tagKey := config.tagKey

/-! ## Variables -/

/-- An unnamed byte: declared as such, or not declared and spelled so. -/
def isByte (r : Resolver) (id : TypeId) : Bool :=
  match r.project.type? id with
  | some decl => !decl.isNamed && decl.kind = .scalar .uint8
  | none => Scalar.ofBuiltinName? id.text = some .uint8

def isNamedMap (r : Resolver) (id : TypeId) : Bool :=
  match r.project.type? id with
  | some ⟨package, name, .map type, capabilities, doc⟩ =>
    TypeDecl.isNamed ⟨package, name, .map type, capabilities, doc⟩
  | _ => false

/-- Resolves a variable that is no sequence: a map unless the map type has a name, or its type. -/
def resolveItem (r : Resolver) (inner : TypeId → Resolving Descriptor) (v : Variable) :
    Resolving Descriptor := do
  match v.mapKey, v.mapValue with
  | some key, some value =>
    if r.isNamedMap v.type then
      return (← inner v.type).withPointers v.pointers
    else
      let keyType ← inner key
      let valueType ← inner value
      return (Descriptor.map keyType (valueType.withPointers v.elemPointers)).withPointers
        v.pointers
  | _, _ => return (← inner v.type).withPointers v.pointers

/-- Resolves a variable with its modifiers. A sequence of unknown length of bytes is bytes. -/
def resolveVariable (r : Resolver) (inner : TypeId → Resolving Descriptor) (v : Variable) :
    Resolving Descriptor := do
  if v.isSequence then
    if v.arrayLen.isNone && v.elemPointers == 0 && !v.isMap && r.isByte v.type then
      return (Descriptor.builtin .bytes).withPointers v.pointers
    else
      return (Descriptor.array (← r.resolveItem inner v.element)).withPointers v.pointers
  else r.resolveItem inner v

/-! ## Properties -/

/-- Integers, numbers and booleans can travel as text. -/
def isQuotable (d : Descriptor) : Bool :=
  match d.shape with
  | .builtin .integer | .builtin .number | .builtin .boolean => true
  | _ => false

/-- The type of a property with the option `string`: text for what can travel as text, also behind
the name of a definition. -/
def stringEncoded (registry : Registry) (d : Descriptor) : Descriptor :=
  let quotable := match d.shape with
    | .named name =>
      match registry.body? name with
      | some (.aliasOf target) => isQuotable target
      | _ => false
    | _ => isQuotable d
  if quotable then { d with shape := .builtin .string } else d

/-- The property of a field of its own. -/
def property (r : Resolver) (inner : TypeId → Resolving Descriptor) (f : Field)
    (wire : WireField) : Resolving (Property Descriptor) := do
  let type ← r.resolveVariable inner f.var
  let registry := (← get).registry
  return {
    name := wire.name
    field := f.var.name
    type := if wire.asString then stringEncoded registry type else type
    optional := wire.omitEmpty
    doc := f.doc }

/-- The properties that a field promotes from the struct it embeds. Behind a pointer they may all
be left out. There are none where the field is a container or its type is no struct. -/
def promoted (inner : TypeId → Resolving Descriptor) (f : Field) :
    Resolving (Option (List (Property Descriptor))) := do
  if f.var.isSequence || f.var.isMap then return none
  let resolved ← inner f.var.type
  let registry := (← get).registry
  let properties := match resolved.shape with
    | .object ps => some ps
    | .named name => registry.structBehind? name
    | _ => none
  return properties.map fun ps =>
    ps.map fun p => { p with optional := p.optional || 0 < f.var.pointers }

/-- A property that a struct may have, and whether it is promoted. -/
structure Entry where
  property : Property Descriptor
  promoted : Bool
deriving Inhabited

/-- What a field contributes to its struct. -/
def fieldEntries (r : Resolver) (inner : TypeId → Resolving Descriptor) (f : Field) :
    Resolving (List Entry) := do
  match f.role r.tagKey with
  | .skip => return []
  | .property wire => return [⟨← r.property inner f wire, false⟩]
  | .splice fallback =>
    match ← promoted inner f with
    | some ps => return ps.map (⟨·, true⟩)
    | none => if f.isExported then return [⟨← r.property inner f fallback, false⟩] else return []

/-- The properties of a struct among its entries: one per name, the first own one if there is any
and else the first promoted one, in the order in which they occur. -/
def selectEntries (entries : List Entry) : List (Property Descriptor) :=
  let own := (entries.filter (!·.promoted)).map (·.property.name)
  let eligible := entries.filter fun e => !(e.promoted && own.contains e.property.name)
  distinctOn (·.name) (eligible.map (·.property))

/-- The properties of a struct with the given fields. -/
def properties (r : Resolver) (inner : TypeId → Resolving Descriptor) (fields : List Field) :
    Resolving (List (Property Descriptor)) := do
  let entries ← fields.mapM (r.fieldEntries inner)
  return selectEntries entries.flatten

/-! ## Methods -/

/-- Parameters with their names. -/
def nameParams (name : Nat → Variable → String) (vars : List Variable) (types : List Descriptor) :
    List (Param Descriptor) :=
  (vars.zip types).mapIdx fun i (v, type) => ⟨name i v, type⟩

theorem type_mem_of_mem_nameParams {name : Nat → Variable → String} {vars : List Variable}
    {types : List Descriptor} {x : Param Descriptor} (h : x ∈ nameParams name vars types) :
    x.type ∈ types := by
  obtain ⟨i, hi, rfl⟩ := List.mem_mapIdx.1 h
  exact (List.of_mem_zip (List.getElem_mem hi)).2

def params (r : Resolver) (inner : TypeId → Resolving Descriptor) (slot : Slot)
    (vars : List Variable) : Resolving (List (Param Descriptor)) := do
  let types ← vars.mapM (r.resolveVariable inner)
  return nameParams slot.declaredName vars types

def callShape (r : Resolver) (inner : TypeId → Resolving Descriptor) (s : Signature) :
    Resolving (CallShape Descriptor) := do
  let params ← r.params inner .request s.params
  let results ← r.params inner .response s.results
  return { params, results }

/-- The methods of an embedded interface, which is inlined or a definition. -/
def embeddedMethods (inner : TypeId → Resolving Descriptor) (embed : TypeId) :
    Resolving (List (MethodShape Descriptor)) := do
  let resolved ← inner embed
  let registry := (← get).registry
  match resolved.shape with
  | .interface ms => return ms
  | .named name =>
    match registry.body? name with
    | some (.interface ms) => return ms
    | _ => return []
  | _ => return []

/-- One method per name in ascending order: the last declared one, else the first embedded one. -/
def selectMethods (declared embedded : List (MethodShape Descriptor)) :
    List (MethodShape Descriptor) :=
  (distinctOn (·.name) (declared.reverse ++ embedded)).mergeSort fun a b => decide (a.name ≤ b.name)

/-- The methods of an interface: its own and those of the interfaces that it embeds. -/
def methodSet (r : Resolver) (inner : TypeId → Resolving Descriptor) (embeds : List TypeId)
    (methods : List InterfaceMethod) : Resolving (List (MethodShape Descriptor)) := do
  let declared ← methods.mapM fun m => return ⟨m.name, ← r.callShape inner m.signature⟩
  let embedded ← embeds.mapM (embeddedMethods inner)
  return selectMethods declared embedded.flatten

/-! ## Aliases and containers -/

end Resolver

/-- The best descriptor of a type of which only the kind is known. -/
def KindTag.descriptor : KindTag → Descriptor
  | .scalar s => s.descriptor
  | .array | .slice => .array .bareOpaque
  | .map => .map (.builtin .string) .bareOpaque
  | .struct | .interface | .channel | .function | .any => .bareOpaque

namespace Resolver

/-- The link of an alias that says what it stands for: the first of its target and its underlying
type that is declared and is not the alias itself. -/
def usableLink? (r : Resolver) (id : TypeId) (links : AliasLinks) : Option TypeId :=
  (links.target.toList ++ links.underlying.toList).find? fun link =>
    link != id && (r.project.type? link).isSome

/-- What an alias stands for: its usable link, else its recorded kind, else its recorded spelling,
else the spelling of its link. An alias of itself stands for nothing known. -/
def aliasBase (r : Resolver) (inner : TypeId → Resolving Descriptor) (id : TypeId)
    (links : AliasLinks) : Resolving Descriptor :=
  match r.usableLink? id links, links.underlyingKind, links.rawKind,
      links.target.or links.underlying with
  | some link, _, _, _ => inner link
  | none, some kind, _, _ => return kind.descriptor
  | none, none, some raw, _ => return r.substitutions.guess raw
  | none, none, none, some link =>
    return if link = id then .bareOpaque else r.substitutions.guess link.text
  | none, none, none, none => return .bareOpaque

def arrayShape (r : Resolver) (inner : TypeId → Resolving Descriptor) (a : ArrayType) :
    Resolving Descriptor := do
  if a.len.isNone && a.elemPointers == 0 && r.isByte a.elem then return .builtin .bytes
  else return .array ((← inner a.elem).withPointers a.elemPointers)

def mapShape (inner : TypeId → Resolving Descriptor) (m : MapType) : Resolving Descriptor := do
  let key ← inner m.key
  let value ← inner m.value
  return .map key (value.withPointers m.valuePointers)

/-- The body of a type by its kind. -/
def body (r : Resolver) (inner : TypeId → Resolving Descriptor) (id : TypeId) :
    Kind → Resolving Body
  | .scalar s => return .aliasOf s.descriptor
  | .struct fields => .struct <$> r.properties inner fields
  | .interface embeds methods => .interface <$> r.methodSet inner embeds methods
  | .aliasOf links => .aliasOf <$> r.aliasBase inner id links
  | .array a => .aliasOf <$> r.arrayShape inner a
  | .map m => .aliasOf <$> mapShape inner m
  | .function s => do return .aliasOf { shape := .function (← r.callShape inner s) }
  | .channel _ | .any => return .aliasOf .bareOpaque

end Resolver

/-- The descriptor of a type without a name: its body in place. An interface without methods takes
any value. -/
def Body.inlined : Body → Descriptor
  | .struct ps => { shape := .object ps }
  | .interface [] => .bareOpaque
  | .interface ms => { shape := .interface ms }
  | .aliasOf target => target

end ClientTypes

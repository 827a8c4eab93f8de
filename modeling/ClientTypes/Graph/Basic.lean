import ClientTypes.Graph.Scalar
import ClientTypes.Graph.Capability
import ClientTypes.QName
import ClientTypes.Text.Char

/-!
# The type graph of a project

A project declares types by id and the contracts whose operations use them. Types refer to one
another by id alone, so the graph may have cycles and may mention ids that are not declared.

## Main definitions

* `Variable` — a use of a type with its call-site modifiers
* `Kind`, `TypeDecl` — a declared type
* `Project` — contracts and types
* `Kind.links` — the edges of the graph
-/

namespace ClientTypes

/-- The key of a type in its project. -/
structure TypeId where
  text : String
deriving DecidableEq, Repr, Inhabited, Hashable

/-- A parameter, a result or a field: a type with the containers and pointers around it.
`pointers` is the depth outside a container, `elemPointers` the depth inside it. -/
structure Variable where
  name : String := ""
  type : TypeId
  pointers : Nat := 0
  slice : Bool := false
  arrayLen : Option Nat := none
  ellipsis : Bool := false
  elemPointers : Nat := 0
  mapKey : Option TypeId := none
  mapValue : Option TypeId := none
deriving DecidableEq, Repr, Inhabited

namespace Variable

def isSequence (v : Variable) : Bool := v.slice || v.ellipsis || v.arrayLen.isSome

def isMap (v : Variable) : Bool := v.mapKey.isSome && v.mapValue.isSome

/-- Neither a container nor behind a pointer. -/
def isPlain (v : Variable) : Bool := v.pointers == 0 && !v.isSequence && !v.isMap

/-- An element of a sequence: its depth is the inner one, and it is no sequence itself. -/
def element (v : Variable) : Variable where
  name := v.name
  type := v.type
  pointers := v.elemPointers
  mapKey := v.mapKey
  mapValue := v.mapValue

@[simp] theorem isSequence_element (v : Variable) : v.element.isSequence = false := rfl

/-- Every type id that the variable mentions. -/
def ids (v : Variable) : List TypeId := v.type :: (v.mapKey.toList ++ v.mapValue.toList)

/-- Whether the variable stands without a name of its own. -/
def isUnnamed (v : Variable) : Bool := v.name == "" || v.name == "_"

end Variable

/-- Parameters and results. -/
structure Signature where
  params : List Variable := []
  results : List Variable := []
deriving DecidableEq, Repr, Inhabited

def Signature.ids (s : Signature) : List TypeId := (s.params ++ s.results).flatMap (·.ids)

/-- A field of a struct, with the raw text of its tags. -/
structure Field where
  var : Variable
  tags : String := ""
  embedded : Bool := false
  doc : Option String := none
deriving DecidableEq, Repr, Inhabited

/-- A field is exported when its name begins with a capital. -/
def Field.isExported (f : Field) : Bool := f.var.name.toList.head?.any Text.isUppercase

/-- A method of an interface. -/
structure InterfaceMethod where
  name : String
  signature : Signature
deriving DecidableEq, Repr, Inhabited

/-- What is known of the type behind an alias when only its kind was recorded. -/
inductive KindTag where
  | scalar (s : Scalar)
  | struct
  | interface
  | array
  | slice
  | map
  | channel
  | function
  | any
deriving DecidableEq, Repr, Inhabited

/-- What an alias stands for, as far as it was recorded. -/
structure AliasLinks where
  target : Option TypeId := none
  underlying : Option TypeId := none
  underlyingKind : Option KindTag := none
  rawKind : Option String := none
deriving DecidableEq, Repr, Inhabited

/-- An array of known length, or a slice. -/
structure ArrayType where
  elem : TypeId
  len : Option Nat := none
  elemPointers : Nat := 0
deriving DecidableEq, Repr, Inhabited

structure MapType where
  key : TypeId
  value : TypeId
  valuePointers : Nat := 0
deriving DecidableEq, Repr, Inhabited

/-- The structure of a declared type. -/
inductive Kind where
  | scalar (s : Scalar)
  | struct (fields : List Field)
  | interface (embeds : List TypeId) (methods : List InterfaceMethod)
  | aliasOf (links : AliasLinks)
  | array (type : ArrayType)
  | map (type : MapType)
  | channel (elem : TypeId)
  | function (signature : Signature)
  | any
deriving DecidableEq, Repr, Inhabited

/-- The ids that values of a type of this kind are made of. -/
def Kind.links : Kind → List TypeId
  | .scalar _ | .channel _ | .any => []
  | .array a => [a.elem]
  | .map m => [m.key, m.value]
  | .aliasOf l => l.target.toList ++ l.underlying.toList
  | .struct fields => fields.flatMap (·.var.ids)
  | .interface embeds methods => embeds ++ methods.flatMap (·.signature.ids)
  | .function s => s.ids

/-- A declared type. -/
structure TypeDecl where
  package : Option String := none
  name : Option String := none
  kind : Kind
  capabilities : Capabilities := {}
  doc : Option String := none
deriving DecidableEq, Repr, Inhabited

namespace TypeDecl

/-- The qualified name of a type that has both a package and a name. -/
def qname? (t : TypeDecl) : Option QName :=
  match t.package, t.name with
  | some ns, some name => if ns = "" ∨ name = "" then none else some ⟨ns, name⟩
  | _, _ => none

def isNamed (t : TypeDecl) : Bool := t.qname?.isSome

end TypeDecl

/-- An operation of a contract. -/
structure Operation where
  name : String
  args : List Variable := []
  results : List Variable := []
  errors : List TypeId := []
  defaultError : Option TypeId := none
  /-- Annotations that the program carries along. -/
  notes : List (String × String) := []
  doc : Option String := none
deriving DecidableEq, Repr, Inhabited

namespace Operation

/-- The arguments without a leading plain one of a context type. -/
def payloadArgs (contextTypes : List TypeId) (op : Operation) : List Variable :=
  match op.args with
  | first :: rest => if first.isPlain && first.type ∈ contextTypes then rest else first :: rest
  | [] => []

/-- The results without a trailing plain one of an error type. -/
def payloadResults (errorTypes : List TypeId) (op : Operation) : List Variable :=
  match op.results.getLast? with
  | some last =>
    if last.isPlain && last.type ∈ errorTypes then op.results.dropLast else op.results
  | none => []

end Operation

/-- A service: its operations and the package that it is generated into. -/
structure Contract where
  name : String
  package : String
  operations : List Operation := []
  doc : Option String := none
deriving DecidableEq, Repr, Inhabited

/-- A project: its contracts and its types by id. -/
structure Project where
  path : String
  version : Option String := none
  contracts : List Contract := []
  types : List (TypeId × TypeDecl) := []
deriving DecidableEq, Repr, Inhabited

namespace Project

/-- The declaration of a type. -/
def type? (p : Project) (id : TypeId) : Option TypeDecl := p.types.lookup id

/-- The first contract with the given name. -/
def contract? (p : Project) (name : String) : Option Contract :=
  p.contracts.find? (·.name == name)

end Project

end ClientTypes

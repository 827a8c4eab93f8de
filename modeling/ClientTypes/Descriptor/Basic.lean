import ClientTypes.QName

/-!
# Descriptors

The resolved form of a type at one place of use. A descriptor is a shape and whether the value may
be absent. Shapes are layers over whatever stands for their parts, so one definition serves the
descriptor itself, its text and its JSON form. Named types are never inlined; they appear by name.

## Main definitions

* `Shape` — one layer: a basic type, a container, a reference, or an inlined structure
* `Descriptor` — a shape of descriptors, and nullability
-/

namespace ClientTypes

/-- Types that every target has. Bytes travel as text. -/
inductive Builtin where
  | boolean
  | integer
  | number
  | string
  | bytes
deriving DecidableEq, Repr, Inhabited

/-- Replacements of well-known types. -/
inductive Native where
  | date
  | duration
  | uuid
  | decimal
  | bigInt
deriving DecidableEq, Repr, Inhabited

/-- A member of an object on the wire. `field` is the name that the struct declares. -/
structure Property (δ : Type) where
  name : String
  field : String
  type : δ
  optional : Bool := false
  doc : Option String := none
deriving DecidableEq, Repr, Inhabited

/-- A named parameter or result. -/
structure Param (δ : Type) where
  name : String
  type : δ
deriving DecidableEq, Repr, Inhabited

/-- Parameters and results of a function. -/
structure CallShape (δ : Type) where
  params : List (Param δ) := []
  results : List (Param δ) := []
deriving DecidableEq, Repr, Inhabited

/-- A method of a resolved interface. -/
structure MethodShape (δ : Type) where
  name : String
  call : CallShape δ
deriving DecidableEq, Repr, Inhabited

/-- One layer of a descriptor over the form `δ` of its parts. -/
inductive Shape (δ : Type) where
  | builtin (type : Builtin)
  | native (type : Native)
  /-- A value whose wire format is not known; it may go by the name it is registered under. -/
  | opaqueType (name : Option QName)
  | array (element : δ)
  | map (key value : δ)
  /-- A reference to a registered definition. -/
  | named (name : QName)
  /-- A struct without a name. -/
  | object (properties : List (Property δ))
  /-- An interface without a name. -/
  | interface (methods : List (MethodShape δ))
  | function (call : CallShape δ)
deriving DecidableEq, Repr, Inhabited

/-- A resolved type at one place of use. -/
structure Descriptor where
  shape : Shape Descriptor
  /-- The value may be absent. -/
  nullable : Bool := false
deriving Inhabited

namespace Shape

variable {δ : Type}

/-- An opaque shape that goes by no name. -/
def isBareOpaque : Shape δ → Bool
  | .opaqueType none => true
  | _ => false

def isOpaque : Shape δ → Bool
  | .opaqueType _ => true
  | _ => false

/-- The name that the shape itself refers to. -/
def reference? : Shape δ → Option QName
  | .named name => some name
  | .opaqueType name => name
  | _ => none

end Shape

namespace Descriptor

def builtin (type : Builtin) : Descriptor := { shape := .builtin type }

def native (type : Native) : Descriptor := { shape := .native type }

/-- A value of unknown format; opaque values may always be absent. -/
def bareOpaque : Descriptor := { shape := .opaqueType none, nullable := true }

/-- An opaque value that goes by a registered name. -/
def opaqueAs (name : QName) : Descriptor := { shape := .opaqueType (some name), nullable := true }

def named (name : QName) : Descriptor := { shape := .named name }

def array (element : Descriptor) : Descriptor := { shape := .array element }

def map (key value : Descriptor) : Descriptor := { shape := .map key value }

/-- The descriptor behind `depth` pointers: it may be absent as soon as there is one. -/
def withPointers (d : Descriptor) (depth : Nat) : Descriptor :=
  { d with nullable := d.nullable || decide (0 < depth) }

@[simp] theorem withPointers_zero (d : Descriptor) : d.withPointers 0 = d := by
  cases d
  simp [withPointers]

@[simp] theorem shape_withPointers (d : Descriptor) (depth : Nat) :
    (d.withPointers depth).shape = d.shape := rfl

end Descriptor

end ClientTypes

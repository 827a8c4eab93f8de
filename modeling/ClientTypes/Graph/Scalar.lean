/-!
# Scalars

The basic types that a type graph bottoms out in.
-/

namespace ClientTypes

/-- A basic type. -/
inductive Scalar where
  | bool
  | int
  | int8
  | int16
  | int32
  | int64
  | uint
  | uint8
  | uint16
  | uint32
  | uint64
  | uintptr
  | float32
  | float64
  | complex64
  | complex128
  | string
deriving DecidableEq, Repr, Inhabited

namespace Scalar

/-- Every scalar. -/
def all : List Scalar :=
  [bool, int, int8, int16, int32, int64, uint, uint8, uint16, uint32, uint64, uintptr,
   float32, float64, complex64, complex128, string]

/-- The spelling of a scalar. -/
def spelling : Scalar → String
  | bool => "bool"
  | int => "int"
  | int8 => "int8"
  | int16 => "int16"
  | int32 => "int32"
  | int64 => "int64"
  | uint => "uint"
  | uint8 => "uint8"
  | uint16 => "uint16"
  | uint32 => "uint32"
  | uint64 => "uint64"
  | uintptr => "uintptr"
  | float32 => "float32"
  | float64 => "float64"
  | complex64 => "complex64"
  | complex128 => "complex128"
  | string => "string"

/-- The scalar with the given spelling. -/
def ofSpelling? (s : String) : Option Scalar := all.find? (·.spelling == s)

/-- The scalar that a predeclared name denotes; two of them have a second name. -/
def ofBuiltinName? (s : String) : Option Scalar :=
  if s = "byte" then some uint8 else if s = "rune" then some int32 else ofSpelling? s

def isInteger : Scalar → Bool
  | int | int8 | int16 | int32 | int64 | uint | uint8 | uint16 | uint32 | uint64 | uintptr => true
  | _ => false

def isFloat : Scalar → Bool
  | float32 | float64 => true
  | _ => false

def isComplex : Scalar → Bool
  | complex64 | complex128 => true
  | _ => false

@[simp] theorem ofSpelling?_spelling (s : Scalar) : ofSpelling? s.spelling = some s := by
  cases s <;> rfl

end Scalar

end ClientTypes

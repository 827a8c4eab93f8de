import ClientTypes.Graph.Basic

/-!
# Names of arguments and results

An argument or a result without a name goes by its position.
-/

namespace ClientTypes

/-- The side of an operation that a variable stands on. -/
inductive Slot where
  /-- Arguments. -/
  | request
  /-- Results. -/
  | response
deriving DecidableEq, Repr, Inhabited

namespace Slot

/-- The name of the argument or result at an index that has none. -/
def positionalName : Slot → Nat → String
  | .request, i => "arg" ++ toString i
  | .response, 0 => "result"
  | .response, i => "result" ++ toString i

/-- The name of an argument or result: its own, unless it is unnamed. -/
def nameOf (slot : Slot) (index : Nat) (v : Variable) : String :=
  if v.isUnnamed then slot.positionalName index else v.name

/-- The name of a parameter or result of a function or method type: its own, unless that is
empty. -/
def declaredName (slot : Slot) (index : Nat) (v : Variable) : String :=
  if v.name = "" then slot.positionalName index else v.name

end Slot

end ClientTypes

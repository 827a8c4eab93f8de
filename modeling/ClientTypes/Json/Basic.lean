/-!
# JSON values

A document as it was written: members keep their order and their repetitions, numbers keep their
spelling. Text is absent where an escape names half of a surrogate pair, which no text can hold;
such a value is well formed but cannot be read.
-/

namespace ClientTypes

/-- A JSON value. -/
inductive Json where
  | null
  | bool (value : Bool)
  | number (literal : String)
  | string (text : Option String)
  | array (items : List Json)
  | object (members : List (Option String × Json))
deriving Inhabited, Repr

namespace Json

def str (s : String) : Json := .string (some s)

def nat (n : Nat) : Json := .number (toString n)

/-- An optional value; `null` when there is none. -/
def opt {α : Type} (f : α → Json) : Option α → Json
  | none => .null
  | some a => f a

def list {α : Type} (f : α → Json) (xs : List α) : Json := .array (xs.map f)

def strings (xs : List String) : Json := list str xs

/-- An object with the given members in order. -/
def record (members : List (String × Json)) : Json :=
  .object (members.map fun (key, value) => (some key, value))

/-- The members of an object whose keys are all text. -/
def members? : Json → Option (List (String × Json))
  | .object ms => ms.mapM fun (key, value) => key.map (·, value)
  | _ => none

end Json

end ClientTypes

import ClientTypes.Descriptor.Encode
import ClientTypes.Slot
import ClientTypes.Text.Identifier

/-!
# Exchanges

Arguments and results travel as the fields of a request and a response. On the wire a chain of
pointers is one optional level and a container is never behind a pointer, so every field comes with
the two conversions between its depth at the call site and its depth on the wire.

## Main definitions

* `Conversion.between` — how a value of one pointer depth becomes one of another
* `ExchangeField.make` — the field of one argument or result
* `Exchange.build` — the fields of an operation
-/

namespace ClientTypes

/-- A change of pointer depth. -/
inductive Conversion where
  | direct
  /-- Takes the address so many times. -/
  | addressOf (depth : Nat)
  /-- Follows the pointer so many times. -/
  | deref (depth : Nat)
deriving DecidableEq, Repr, Inhabited

namespace Conversion

/-- The change from one depth to another. -/
def between (source target : Nat) : Conversion :=
  if source = target then .direct
  else if source < target then .addressOf (target - source)
  else .deref (source - target)

/-- The change back. -/
def inverse : Conversion → Conversion
  | .direct => .direct
  | .addressOf n => .deref n
  | .deref n => .addressOf n

/-- Following a pointer that may be nil needs a check. -/
def needsNilCheck : Conversion → Bool
  | .deref _ => true
  | _ => false

@[simp] theorem inverse_inverse (c : Conversion) : c.inverse.inverse = c := by
  cases c <;> rfl

@[simp] theorem inverse_between (source target : Nat) :
    (between source target).inverse = between target source := by
  unfold between
  split
  · simp_all [inverse]
  · split
    · rw [if_neg (by omega), if_neg (by omega)]; rfl
    · rw [if_neg (by omega), if_pos (by omega)]; rfl

def encode : Conversion → Json
  | .direct => .record [("op", .str "direct")]
  | .addressOf n => .record [("op", .str "address_of"), ("depth", .nat n)]
  | .deref n => .record [("op", .str "deref"), ("depth", .nat n)]

end Conversion

/-- One field of a request or a response. -/
structure ExchangeField where
  /-- The name at the call site. -/
  paramName : String
  /-- The exported name of the field. -/
  fieldName : String
  /-- The public name on the wire. -/
  wireName : String
  paramPointers : Nat
  wirePointers : Nat
  toWire : Conversion
  fromWire : Conversion
  type : Descriptor
deriving Inhabited

/-- The depth at which a variable travels. -/
def Variable.wirePointers (v : Variable) : Nat :=
  if v.isSequence || v.isMap then 0 else min v.pointers 1

namespace ExchangeField

/-- The field of the variable at an index. -/
def make (slot : Slot) (index : Nat) (v : Variable) (type : Descriptor) : ExchangeField :=
  let name := slot.nameOf index v
  let toWire := Conversion.between v.pointers v.wirePointers
  { paramName := name
    fieldName := Text.capitalize name
    wireName := Text.lowerLeading name
    paramPointers := v.pointers
    wirePointers := v.wirePointers
    toWire
    fromWire := toWire.inverse
    type }

/-- Whether the conversions fit the depths and undo one another. -/
def isConsistent (f : ExchangeField) : Bool :=
  f.fromWire = f.toWire.inverse && Conversion.between f.paramPointers f.wirePointers = f.toWire

def encode (f : ExchangeField) : Json :=
  .record
    [("param_name", .str f.paramName), ("field_name", .str f.fieldName),
     ("wire_name", .str f.wireName), ("param_pointers", .nat f.paramPointers),
     ("wire_pointers", .nat f.wirePointers), ("to_wire", f.toWire.encode),
     ("from_wire", f.fromWire.encode), ("ty", f.type.encode)]

end ExchangeField

/-- The request and response fields of an operation. -/
structure Exchange where
  request : List ExchangeField := []
  response : List ExchangeField := []
deriving Inhabited

namespace Exchange

/-- The fields of variables in a slot, in order. -/
def slotFields (slot : Slot) (items : List (Variable × Descriptor)) : List ExchangeField :=
  items.mapIdx fun i (v, type) => .make slot i v type

theorem type_mem_of_mem_slotFields {slot : Slot} {vars : List Variable} {types : List Descriptor}
    {f : ExchangeField} (h : f ∈ slotFields slot (vars.zip types)) : f.type ∈ types := by
  obtain ⟨i, hi, rfl⟩ := List.mem_mapIdx.1 h
  exact (List.of_mem_zip (List.getElem_mem hi)).2

/-- The exchange of resolved arguments and results. -/
def build (args results : List (Variable × Descriptor)) : Exchange :=
  ⟨slotFields .request args, slotFields .response results⟩

/-- Request fields, then response fields. -/
def fields (x : Exchange) : List ExchangeField := x.request ++ x.response

def isConsistent (x : Exchange) : Bool := x.fields.all (·.isConsistent)

def encode (x : Exchange) : Json :=
  .record
    [("request", .list ExchangeField.encode x.request),
     ("response", .list ExchangeField.encode x.response)]

end Exchange

end ClientTypes

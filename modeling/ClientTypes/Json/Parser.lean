import ClientTypes.Json.Token

/-!
# Reading JSON text

Values are read from tokens by a machine that holds the containers begun and not yet ended. Every
step consumes a token, so nesting is bounded by the text alone.

## Main definitions

* `parse?` — the value that a text spells, if it spells exactly one
* `Json.isReadable` — whether a value can be read member by member, text and numbers included
-/

namespace ClientTypes.Json

/-- A container part way through: what it holds so far, the latest first, and for an object the key
whose value comes next. -/
inductive Frame where
  | array (done : List Json)
  | object (done : List (Option String × Json)) (key : Option String)

mutual

/-- Reads a value and all that has to follow it. -/
def readValue (stack : List Frame) : List Token → Option Json
  | .leaf value :: ts => finish stack value ts
  | .text content :: ts => finish stack (.string content) ts
  | .openArray :: .closeArray :: ts => finish stack (.array []) ts
  | .openArray :: ts => readValue (.array [] :: stack) ts
  | .openObject :: .closeObject :: ts => finish stack (.object []) ts
  | .openObject :: .text key :: .colon :: ts => readValue (.object [] key :: stack) ts
  | _ => none

/-- Puts a value into the innermost open container and goes on. -/
def finish (stack : List Frame) (value : Json) : List Token → Option Json
  | [] =>
    match stack with
    | [] => some value
    | _ :: _ => none
  | .comma :: .text key :: .colon :: ts =>
    match stack with
    | .object done k :: stack => readValue (.object ((k, value) :: done) key :: stack) ts
    | _ => none
  | .comma :: ts =>
    match stack with
    | .array done :: stack => readValue (.array (value :: done) :: stack) ts
    | _ => none
  | .closeArray :: ts =>
    match stack with
    | .array done :: stack => finish stack (.array (value :: done).reverse) ts
    | _ => none
  | .closeObject :: ts =>
    match stack with
    | .object done k :: stack => finish stack (.object ((k, value) :: done).reverse) ts
    | _ => none
  | _ => none

end

/-- The value that a text spells; nothing but blanks may surround it. -/
def parse? (text : String) : Option Json := (Token.scan text.toList).bind (readValue [])

mutual

/-- Whether all of a value can be read when `room` more containers may be nested: its text is text,
its numbers are finite and it is not too deep. -/
def isReadable (room : Nat) : Json → Bool
  | .null | .bool _ => true
  | .number literal => isReadableNumber literal
  | .string text => text.isSome
  | .array items => 0 < room && areReadable (room - 1) items
  | .object members => 0 < room && membersReadable (room - 1) members

def areReadable (room : Nat) : List Json → Bool
  | [] => true
  | value :: values => isReadable room value && areReadable room values

def membersReadable (room : Nat) : List (Option String × Json) → Bool
  | [] => true
  | (key, value) :: members =>
    key.isSome && isReadable room value && membersReadable room members

end

end ClientTypes.Json

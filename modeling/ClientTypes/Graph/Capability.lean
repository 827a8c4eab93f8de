/-!
# Capabilities and directions

A type may take its wire format into its own hands, separately for writing and for reading. A value
travels outbound (as an argument) or inbound (as a result or an error), and only the capabilities
that act in its direction matter.
-/

namespace ClientTypes

/-- Which conversions a type implements itself. -/
structure Capabilities where
  marshalJson : Bool := false
  unmarshalJson : Bool := false
  marshalText : Bool := false
  unmarshalText : Bool := false
deriving DecidableEq, Repr, Inhabited

/-- Which way a value travels. -/
inductive Direction where
  /-- From client to server: arguments. -/
  | outbound
  /-- From server to client: results and errors. -/
  | inbound
deriving DecidableEq, Repr, Inhabited

namespace Direction

/-- Whether a type with these capabilities controls its wire format in this direction. -/
def isOverriddenBy : Direction → Capabilities → Bool
  | outbound, c => c.marshalJson || c.marshalText
  | inbound, c => c.unmarshalJson || c.unmarshalText

end Direction

end ClientTypes

import ClientTypes.Graph.Basic
import ClientTypes.Tag

/-!
# Roles of struct fields

What a field contributes to the wire form of its struct: nothing, a property, or the properties of
the struct that it embeds.
-/

namespace ClientTypes

/-- A property as the tags of its field describe it. -/
structure WireField where
  name : String
  omitEmpty : Bool
  asString : Bool
deriving DecidableEq, Repr, Inhabited

/-- The part that a field plays in its struct. -/
inductive FieldRole where
  | skip
  /-- The properties of the embedded type are promoted. The fallback describes the field as a
  property of its own, in case that type has none. -/
  | splice (fallback : WireField)
  | property (wire : WireField)
deriving DecidableEq, Repr, Inhabited

/-- The role of a field under the tags with the given key. The tag `-` hides a field; the option
`inline` and embedding without a name splice it; other fields count when they are exported. -/
def Field.role (tagKey : String) (f : Field) : FieldRole :=
  let raw := Tag.lookup f.tags tagKey
  if raw = some "-" then .skip
  else
    let tag := TagValue.parse (raw.getD "")
    let wire : WireField := {
      name := tag.name.getD f.var.name
      omitEmpty := tag.hasOption "omitempty" || tag.hasOption "omitzero"
      asString := tag.hasOption "string" }
    if tag.hasOption "inline" || (f.embedded && tag.name.isNone) then .splice wire
    else if f.isExported then .property wire
    else .skip

end ClientTypes

import ClientTypes.Descriptor.Fold
import ClientTypes.Json.Basic

/-!
# Descriptors as JSON

A shape is an object with its kind and, under `of`, its content.
-/

namespace ClientTypes

open Json

def QName.encode (q : QName) : Json := record [("namespace", str q.ns), ("name", str q.name)]

def Builtin.encode : Builtin → Json
  | .boolean => str "boolean"
  | .integer => str "integer"
  | .number => str "number"
  | .string => str "string"
  | .bytes => str "bytes"

def Native.encode : Native → Json
  | .date => str "date"
  | .duration => str "duration"
  | .uuid => str "uuid"
  | .decimal => str "decimal"
  | .bigInt => str "big_int"

/-- Documentation is a member only where there is some. -/
def docMember (doc : Option String) : List (String × Json) :=
  doc.toList.map fun d => ("doc", str d)

def Property.toJson (p : Property Json) : Json :=
  record <|
    [("name", str p.name), ("field", str p.field), ("ty", p.type), ("optional", .bool p.optional)]
      ++ docMember p.doc

def Param.toJson (p : Param Json) : Json := record [("name", str p.name), ("ty", p.type)]

def CallShape.members (c : CallShape Json) : List (String × Json) :=
  [("params", list Param.toJson c.params), ("results", list Param.toJson c.results)]

def MethodShape.toJson (m : MethodShape Json) : Json :=
  record (("name", str m.name) :: m.call.members)

/-- A layer over the JSON forms of its parts. -/
def Shape.toJson (s : Shape Json) : Json :=
  let (kind, content) : String × Json := match s with
    | .builtin b => ("builtin", b.encode)
    | .native n => ("native", n.encode)
    | .opaqueType name => ("opaque", record [("alias", opt QName.encode name)])
    | .array e => ("array", e)
    | .map k v => ("map", record [("key", k), ("value", v)])
    | .named name => ("named", name.encode)
    | .object ps => ("object", list Property.toJson ps)
    | .interface ms => ("interface", list MethodShape.toJson ms)
    | .function c => ("function", record c.members)
  record [("kind", str kind), ("of", content)]

def Descriptor.encode (d : Descriptor) : Json :=
  d.fold fun s nullable => record [("shape", s.toJson), ("nullable", .bool nullable)]

def Property.encode (p : Property Descriptor) : Json := (p.map Descriptor.encode).toJson

def Param.encode (p : Param Descriptor) : Json := (p.map Descriptor.encode).toJson

def MethodShape.encode (m : MethodShape Descriptor) : Json := (m.map Descriptor.encode).toJson

end ClientTypes

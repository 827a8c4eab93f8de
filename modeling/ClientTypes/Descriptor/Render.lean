import ClientTypes.Descriptor.Fold
import ClientTypes.Namespace.Scope

/-!
# Descriptors as type text

How a descriptor is written in a scope. An absent value is the alternative `null`, which the bare
opaque type includes already; an alternative or a function gets parentheses as the element of an
array.

## Main definitions

* `Descriptor.render` — the text of a descriptor
* `renderResults` — the result type of a function: nothing, one type or a tuple
-/

namespace ClientTypes

/-- The text of a type, and whether it needs parentheses as the element of an array. -/
structure TypeText where
  text : String
  compound : Bool
deriving DecidableEq, Repr, Inhabited

def Builtin.text : Builtin → String
  | .boolean => "boolean"
  | .integer | .number => "number"
  | .string | .bytes => "string"

def Native.text : Native → String
  | .date => "Date"
  | .duration => "number"
  | .uuid | .decimal => "string"
  | .bigInt => "bigint"

/-- A key, a mark if it may be left out, and its type. -/
def Property.text (p : Property TypeText) : String :=
  Text.propertyKey p.name ++ (if p.optional then "?" else "") ++ ": " ++ p.type.text

def Param.text (p : Param TypeText) : String := p.name ++ ": " ++ p.type.text

namespace CallShape

def paramsText (c : CallShape TypeText) : String := ", ".intercalate (c.params.map (·.text))

/-- No result is `void`, several are a tuple. -/
def resultsText (c : CallShape TypeText) : String :=
  match c.results with
  | [] => "void"
  | [r] => r.type.text
  | rs => "[" ++ ", ".intercalate (rs.map (·.type.text)) ++ "]"

end CallShape

def MethodShape.text (m : MethodShape TypeText) : String :=
  m.name ++ "(" ++ m.call.paramsText ++ "): " ++ m.call.resultsText

namespace Shape

/-- The text of a layer over the text of its parts. -/
def text (scope : Scope) : Shape TypeText → String
  | .builtin b => b.text
  | .native n => n.text
  | .opaqueType none => "unknown"
  | .opaqueType (some name) | .named name => scope.name name
  | .array e => if e.compound then "(" ++ e.text ++ ")[]" else e.text ++ "[]"
  | .map k v => "Record<" ++ k.text ++ ", " ++ v.text ++ ">"
  | .object [] => "\x7b\x7d"
  | .object ps => "\x7b " ++ "; ".intercalate (ps.map (·.text)) ++ " \x7d"
  | .interface ms => "\x7b " ++ "; ".intercalate (ms.map (·.text)) ++ " \x7d"
  | .function c => "(" ++ c.paramsText ++ ") => " ++ c.resultsText

def isFunction {δ : Type} : Shape δ → Bool
  | .function _ => true
  | _ => false

/-- The text of a layer together with its nullability. -/
def typeText (scope : Scope) (s : Shape TypeText) (nullable : Bool) : TypeText :=
  let alternative := nullable && !s.isBareOpaque
  { text := if alternative then s.text scope ++ " | null" else s.text scope
    compound := s.isFunction || alternative }

end Shape

namespace Descriptor

def typeText (scope : Scope) (d : Descriptor) : TypeText := d.fold (Shape.typeText scope)

/-- The text of a descriptor in a scope. -/
def render (scope : Scope) (d : Descriptor) : String := (d.typeText scope).text

end Descriptor

/-- The text of a property in a scope. -/
def Property.render (scope : Scope) (p : Property Descriptor) : String :=
  (p.map (·.typeText scope)).text

def Param.render (scope : Scope) (p : Param Descriptor) : String :=
  (p.map (·.typeText scope)).text

def MethodShape.render (scope : Scope) (m : MethodShape Descriptor) : String :=
  (m.map (·.typeText scope)).text

end ClientTypes

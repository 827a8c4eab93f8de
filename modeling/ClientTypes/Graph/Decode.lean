import ClientTypes.Graph.Basic
import ClientTypes.Json.Parser

/-!
# Reading a project

A project is read from a JSON document. A record is an object, or an array of its members in order.
A member that is not named here is passed over; an optional member may be absent or null; a
defaulted one may be absent. A record that repeats a member, and a value of the wrong form, are
refused.

Struct fields, interface methods and annotations share their object with another record, so they
are objects only and all their members have to be readable.

## Main definitions

* `Project.parse?`, `Variable.parse?`, `Field.parse?` — read a whole document
-/

namespace ClientTypes

namespace Json

/-- How deep the containers of a document may be nested where it is read. -/
def nestingLimit : Nat := 127

/-- The members of a record that is being read. -/
abbrev Record := String → Option Json

/-- An object as a record with the given member names, none of which may be repeated. -/
def objectRecord? (names : List String) (json : Json) : Option Record := do
  let members ← json.members?
  let known := members.filter fun m => names.contains m.1
  if (known.map (·.1)).Nodup then some fun name => known.lookup name else none

/-- A record written as an object, or as an array of its members in order. -/
def record? (names : List String) : Json → Option Record
  | .array items =>
    if items.length ≤ names.length then some fun name => (names.zip items).lookup name else none
  | json => objectRecord? names json

def string? : Json → Option String
  | .string text => text
  | _ => none

def bool? : Json → Option Bool
  | .bool b => some b
  | _ => none

/-- A natural number of at most `max`. -/
def nat? (max : Nat) : Json → Option Nat
  | .number literal => (natural? literal).filter (· ≤ max)
  | _ => none

def array? {α : Type} (read : Json → Option α) : Json → Option (List α)
  | .array items => items.mapM read
  | _ => none

/-- A value that may be null. -/
def nullable? {α : Type} (read : Json → Option α) : Json → Option (Option α)
  | .null => some none
  | json => (read json).map some

namespace Record

variable {α : Type}

/-- A member that has to be there. -/
def required (r : Record) (name : String) (read : Json → Option α) : Option α :=
  (r name).bind read

/-- A member that has a default. -/
def defaulted (r : Record) (name : String) (default : α) (read : Json → Option α) : Option α :=
  match r name with
  | none => some default
  | some json => read json

/-- A member that may be absent or null. -/
def optional (r : Record) (name : String) (read : Json → Option α) : Option (Option α) :=
  r.defaulted name none (nullable? read)

end Record

/-- A choice of a unit form: its name, or an object with that name and null. -/
def unitChoice? : Json → Option String
  | .string text => text
  | .object [(key, .null)] => key
  | _ => none

/-- A choice of a form with content: an object with just that member. -/
def choice? : Json → Option (String × Json)
  | .object [(some key, value)] => some (key, value)
  | _ => none

end Json

open Json

/-- The greatest pointer depth. -/
def maxDepth : Nat := 255

/-- The greatest length of an array. -/
def maxLength : Nat := 18446744073709551615

def TypeId.read? (json : Json) : Option TypeId := json.string?.map TypeId.mk

def Scalar.read? (json : Json) : Option Scalar := (unitChoice? json).bind Scalar.ofSpelling?

namespace Variable

def memberNames : List String :=
  ["name", "type", "pointers", "slice", "array_len", "ellipsis", "elem_pointers", "map_key",
   "map_value"]

def ofRecord? (r : Record) : Option Variable := do
  return {
    name := ← r.defaulted "name" "" string?
    type := ← r.required "type" TypeId.read?
    pointers := ← r.defaulted "pointers" 0 (nat? maxDepth)
    slice := ← r.defaulted "slice" false bool?
    arrayLen := ← r.optional "array_len" (nat? maxLength)
    ellipsis := ← r.defaulted "ellipsis" false bool?
    elemPointers := ← r.defaulted "elem_pointers" 0 (nat? maxDepth)
    mapKey := ← r.optional "map_key" TypeId.read?
    mapValue := ← r.optional "map_value" TypeId.read? }

def read? (json : Json) : Option Variable := (record? memberNames json).bind ofRecord?

def parse? (text : String) : Option Variable := (Json.parse? text).bind read?

end Variable

def Signature.memberNames : List String := ["params", "results"]

def Signature.ofRecord? (r : Record) : Option Signature := do
  return {
    params := ← r.defaulted "params" [] (array? Variable.read?)
    results := ← r.defaulted "results" [] (array? Variable.read?) }

def Signature.read? (json : Json) : Option Signature :=
  (record? memberNames json).bind ofRecord?

/-- An object all of whose members are readable with room for `room` containers in each. -/
def sharedRecord? (room : Nat) (names : List String) (json : Json) : Option Record :=
  if isReadable (room + 1) json then objectRecord? names json else none

/-- Reads a field whose members have room for `room` containers. -/
def Field.readWithin? (room : Nat) (json : Json) : Option Field := do
  let r ← sharedRecord? room (Variable.memberNames ++ ["tags", "embedded", "doc"]) json
  return {
    var := ← Variable.ofRecord? r
    tags := ← r.defaulted "tags" "" string?
    embedded := ← r.defaulted "embedded" false bool?
    doc := ← r.optional "doc" string? }

def Field.parse? (text : String) : Option Field :=
  (Json.parse? text).bind (Field.readWithin? (nestingLimit - 1))

/-- Reads a method whose members have room for `room` containers. -/
def InterfaceMethod.readWithin? (room : Nat) (json : Json) : Option InterfaceMethod := do
  let r ← sharedRecord? room ("name" :: Signature.memberNames) json
  return {
    name := ← r.required "name" string?
    signature := ← Signature.ofRecord? r }

def KindTag.read? (json : Json) : Option KindTag :=
  match choice? json with
  | some ("scalar", value) => (Scalar.read? value).map .scalar
  | _ => do
    match ← unitChoice? json with
    | "struct" => some .struct
    | "interface" => some .interface
    | "array" => some .array
    | "slice" => some .slice
    | "map" => some .map
    | "channel" => some .channel
    | "function" => some .function
    | "any" => some .any
    | _ => none

def AliasLinks.read? (json : Json) : Option AliasLinks := do
  let r ← record? ["target", "underlying", "underlying_kind", "raw_kind"] json
  return {
    target := ← r.optional "target" TypeId.read?
    underlying := ← r.optional "underlying" TypeId.read?
    underlyingKind := ← r.optional "underlying_kind" KindTag.read?
    rawKind := ← r.optional "raw_kind" string? }

def ArrayType.read? (json : Json) : Option ArrayType := do
  let r ← record? ["elem", "len", "elem_pointers"] json
  return {
    elem := ← r.required "elem" TypeId.read?
    len := ← r.optional "len" (nat? maxLength)
    elemPointers := ← r.defaulted "elem_pointers" 0 (nat? maxDepth) }

def MapType.read? (json : Json) : Option MapType := do
  let r ← record? ["key", "value", "value_pointers"] json
  return {
    key := ← r.required "key" TypeId.read?
    value := ← r.required "value" TypeId.read?
    valuePointers := ← r.defaulted "value_pointers" 0 (nat? maxDepth) }

/-- Containers around the members of a field or method of a declared type: the project, its types,
the type, its kind, the kind's content, the list and the field or method itself. -/
def memberDepth : Nat := 7

def Kind.read? (json : Json) : Option Kind :=
  match choice? json with
  | some ("scalar", value) => (Scalar.read? value).map .scalar
  | some ("struct", value) => do
    let r ← record? ["fields"] value
    .struct <$> r.defaulted "fields" [] (array? (Field.readWithin? (nestingLimit - memberDepth)))
  | some ("interface", value) => do
    let r ← record? ["embeds", "methods"] value
    let embeds ← r.defaulted "embeds" [] (array? TypeId.read?)
    let methods ← r.defaulted "methods" []
      (array? (InterfaceMethod.readWithin? (nestingLimit - memberDepth)))
    return .interface embeds methods
  | some ("alias", value) => (AliasLinks.read? value).map .aliasOf
  | some ("array", value) => (ArrayType.read? value).map .array
  | some ("map", value) => (MapType.read? value).map .map
  | some ("channel", value) => do
    let r ← record? ["elem"] value
    .channel <$> r.required "elem" TypeId.read?
  | some ("function", value) => (Signature.read? value).map .function
  | _ => if unitChoice? json = some "any" then some .any else none

/-- The capabilities with the given names; their order and repetitions do not matter. -/
def Capabilities.read? (json : Json) : Option Capabilities := do
  let names ← array? unitChoice? json
  if names.all ["marshal_json", "unmarshal_json", "marshal_text", "unmarshal_text"].contains then
    return {
      marshalJson := names.contains "marshal_json"
      unmarshalJson := names.contains "unmarshal_json"
      marshalText := names.contains "marshal_text"
      unmarshalText := names.contains "unmarshal_text" }
  else none

def TypeDecl.read? (json : Json) : Option TypeDecl := do
  let r ← record? ["package", "name", "kind", "capabilities", "doc"] json
  return {
    package := ← r.optional "package" string?
    name := ← r.optional "name" string?
    kind := ← r.required "kind" Kind.read?
    capabilities := ← r.defaulted "capabilities" {} Capabilities.read?
    doc := ← r.optional "doc" string? }

/-- Keeps the last of the members with one key. -/
def lastOfEach {α : Type} : List (String × α) → List (String × α)
  | [] => []
  | m :: ms => if ms.any (·.1 == m.1) then lastOfEach ms else m :: lastOfEach ms

/-- Reads annotations: the default error and texts by key, of which the last with a key counts. -/
def readAnnotations? (json : Json) : Option (Option TypeId × List (String × String)) := do
  let r ← objectRecord? ["default_error"] json
  let defaultError ← r.optional "default_error" TypeId.read?
  let others := (← json.members?).filter (·.1 != "default_error")
  let notes ← others.mapM fun (key, value) => value.string?.map (key, ·)
  return (defaultError, lastOfEach notes)

def Operation.read? (json : Json) : Option Operation := do
  let r ← record? ["name", "args", "results", "errors", "annotations", "doc"] json
  let (defaultError, notes) ← r.defaulted "annotations" (none, []) readAnnotations?
  return {
    name := ← r.required "name" string?
    args := ← r.defaulted "args" [] (array? Variable.read?)
    results := ← r.defaulted "results" [] (array? Variable.read?)
    errors := ← r.defaulted "errors" [] (array? TypeId.read?)
    defaultError
    notes
    doc := ← r.optional "doc" string? }

def Contract.read? (json : Json) : Option Contract := do
  let r ← record? ["name", "package", "methods", "doc"] json
  return {
    name := ← r.required "name" string?
    package := ← r.required "package" string?
    operations := ← r.defaulted "methods" [] (array? Operation.read?)
    doc := ← r.optional "doc" string? }

/-- Reads declared types; of several with one id the last counts. -/
def readTypes? (json : Json) : Option (List (TypeId × TypeDecl)) := do
  let decls ← (← json.members?).mapM fun (id, value) => (TypeDecl.read? value).map (id, ·)
  return (lastOfEach decls).map fun (id, decl) => (⟨id⟩, decl)

namespace Project

def read? (json : Json) : Option Project := do
  let r ← record? ["module", "version", "contracts", "types"] json
  return {
    path := ← r.required "module" string?
    version := ← r.optional "version" string?
    contracts := ← r.defaulted "contracts" [] (array? Contract.read?)
    types := ← r.defaulted "types" [] readTypes? }

def parse? (text : String) : Option Project := (Json.parse? text).bind read?

end Project

end ClientTypes

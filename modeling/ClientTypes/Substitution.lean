import ClientTypes.Descriptor.Basic
import ClientTypes.Text.Char

/-!
# Substitutions

Well-known types are replaced by a fixed descriptor, whatever their declaration says. A table gives
the substitute of a type by the dotted spelling of its qualified name.

## Main definitions

* `Substitute.ofSpelling?` — a substitute as a configuration spells it
* `SubstitutionTable` — substitutes by name, with the standard ones as `standard`
-/

namespace ClientTypes

/-- What a substituted type becomes. -/
inductive Replacement where
  | builtin (type : Builtin)
  | native (type : Native)
  | opaqueType
deriving DecidableEq, Repr, Inhabited

/-- A replacement, and whether it wraps a value that may be absent. -/
structure Substitute where
  target : Replacement
  nullable : Bool := false
deriving DecidableEq, Repr, Inhabited

def Replacement.descriptor : Replacement → Descriptor
  | .builtin b => .builtin b
  | .native n => .native n
  | .opaqueType => .bareOpaque

namespace Substitute

def descriptor (s : Substitute) : Descriptor :=
  let d := s.target.descriptor
  { d with nullable := d.nullable || s.nullable }

/-- The replacement with the given name. -/
def replacement? : String → Option Replacement
  | "date" | "time" | "timestamp" => some (.native .date)
  | "duration" => some (.native .duration)
  | "uuid" => some (.native .uuid)
  | "decimal" => some (.native .decimal)
  | "bigint" => some (.native .bigInt)
  | "string" => some (.builtin .string)
  | "integer" => some (.builtin .integer)
  | "number" => some (.builtin .number)
  | "boolean" => some (.builtin .boolean)
  | "bytes" => some (.builtin .bytes)
  | "any" => some .opaqueType
  | _ => none

/-- A substitute as it is spelled: the name of a replacement, with a question mark behind it when
the value may be absent. Blanks around the whole do not count. -/
def ofSpelling? (spelling : String) : Option Substitute :=
  let word := Text.trim spelling.toList
  if word.getLast? = some '?' then
    (replacement? (String.ofList word.dropLast)).map (⟨·, true⟩)
  else (replacement? (String.ofList word)).map (⟨·, false⟩)

end Substitute

/-- Substitutes by dotted name, one per name. -/
structure SubstitutionTable where
  entries : List (String × Substitute) := []
deriving DecidableEq, Repr, Inhabited

namespace SubstitutionTable

def get? (table : SubstitutionTable) (key : String) : Option Substitute := table.entries.lookup key

def contains (table : SubstitutionTable) (key : String) : Bool := (table.get? key).isSome

def size (table : SubstitutionTable) : Nat := table.entries.length

/-- Sets the substitute of a name. -/
def insert (table : SubstitutionTable) (key : String) (s : Substitute) : SubstitutionTable :=
  ⟨(key, s) :: table.entries.filter (·.1 != key)⟩

theorem get?_insert (table : SubstitutionTable) (key k : String) (s : Substitute) :
    (table.insert key s).get? k = if k = key then some s else table.get? k := by
  obtain ⟨entries⟩ := table
  by_cases h : k = key
  · simp [insert, get?, h]
  · have hb : (k == key) = false := by simpa using h
    simp only [insert, get?, List.lookup_cons, hb, h, if_false]
    induction entries with
    | nil => rfl
    | cons e es ih =>
      obtain ⟨a, b⟩ := e
      by_cases ha : a = key
      · have : (k == a) = false := by simpa [ha] using h
        simp [ha, List.lookup_cons, hb, ih]
      · simp [ha, List.lookup_cons, ih]

/-- Sets the substitutes of several names in order. -/
def insertAll (table : SubstitutionTable) (entries : List (String × Substitute)) :
    SubstitutionTable :=
  entries.foldl (fun t (key, s) => t.insert key s) table

/-- The substitutes of the types that every target knows. -/
def standard : SubstitutionTable where
  entries :=
    [("time.Time", ⟨.native .date, false⟩),
     ("time.Duration", ⟨.native .duration, false⟩),
     ("github.com/google/uuid.UUID", ⟨.native .uuid, false⟩),
     ("github.com/gofrs/uuid.UUID", ⟨.native .uuid, false⟩),
     ("github.com/satori/go.uuid.UUID", ⟨.native .uuid, false⟩),
     ("github.com/shopspring/decimal.Decimal", ⟨.native .decimal, false⟩),
     ("math/big.Int", ⟨.native .bigInt, false⟩),
     ("math/big.Float", ⟨.native .decimal, false⟩),
     ("math/big.Rat", ⟨.native .decimal, false⟩),
     ("database/sql.NullString", ⟨.builtin .string, true⟩),
     ("database/sql.NullBool", ⟨.builtin .boolean, true⟩),
     ("database/sql.NullByte", ⟨.builtin .integer, true⟩),
     ("database/sql.NullInt16", ⟨.builtin .integer, true⟩),
     ("database/sql.NullInt32", ⟨.builtin .integer, true⟩),
     ("database/sql.NullInt64", ⟨.builtin .integer, true⟩),
     ("database/sql.NullFloat64", ⟨.builtin .number, true⟩),
     ("database/sql.NullTime", ⟨.native .date, true⟩)]

end SubstitutionTable

end ClientTypes

/-!
# TOML values

Values of a TOML document. A table remembers how it came about, because that decides whether it may
be extended; a list of tables with headers of their own is kept apart from an array.
-/

namespace ClientTypes

namespace Toml

/-- How a table came about. -/
inductive Origin where
  /-- Written in braces, complete in itself. -/
  | inline
  /-- Opened by a header. -/
  | header
  /-- Named on the way to the table that a header opens. -/
  | implied
  /-- Named on the way to the last part of a dotted key. -/
  | dotted
deriving DecidableEq, Repr, Inhabited

end Toml

/-- A TOML value. Numbers that are no integers, dates and times are kept as they are spelled. -/
inductive Toml where
  | string (text : String)
  | integer (value : Int)
  | float (literal : String)
  | boolean (value : Bool)
  | dateTime (literal : String)
  | array (items : List Toml)
  | table (origin : Toml.Origin) (entries : List (String × Toml))
  | tables (items : List (List (String × Toml)))
deriving Inhabited, Repr

namespace Toml

/-- The contents of a table. -/
abbrev Entries := List (String × Toml)

/-- Replaces the value of a key. -/
def Entries.set (entries : Entries) (key : String) (value : Toml) : Entries :=
  entries.map fun e => if e.1 = key then (key, value) else e

end Toml

end ClientTypes

import ClientTypes.Config.Basic
import ClientTypes.Toml.Parser

/-!
# Reading a configuration

A configuration is the root table of a TOML document. Settings that it does not make keep their
defaults, and keys that are no settings are passed over.
-/

namespace ClientTypes

namespace Toml

def string? : Toml → Option String
  | .string s => some s
  | _ => none

def boolean? : Toml → Option Bool
  | .boolean b => some b
  | _ => none

def strings? : Toml → Option (List String)
  | .array items => items.mapM string?
  | _ => none

/-- A choice: its name, or a table with that name and an empty container. -/
def choice? : Toml → Option String
  | .string s => some s
  | .table _ [(key, value)] =>
    match value with
    | .table _ [] | .array [] => some key
    | _ => none
  | _ => none

/-- The setting of a key, if it is made. -/
def Entries.setting? {α : Type} (entries : Entries) (key : String) (default : α)
    (read : Toml → Option α) : Option α :=
  match entries.lookup key with
  | none => some default
  | some value => read value

end Toml

open Toml

def Policy.ofName? : String → Option Policy
  | "native" => some .native
  | "materialize" => some .materialize
  | _ => none

/-- Reads substitutes by name; every one must have a known spelling. -/
def readSubstitutions? : Toml → Option (List (String × Substitute))
  | .table _ entries => entries.mapM fun (key, value) =>
    (value.string?.bind Substitute.ofSpelling?).map (key, ·)
  | _ => none

/-- Reads the text of a configuration. -/
def Config.parse? (text : String) : Option Config := do
  let entries ← Toml.parse? text
  let ids (value : Toml) : Option (List TypeId) := (strings? value).map (·.map TypeId.mk)
  let standard : Config := {}
  return {
    policy := ← entries.setting? "policy" standard.policy fun v => (choice? v).bind Policy.ofName?
    tagKey := ← entries.setting? "tag_key" standard.tagKey string?
    contextTypes := ← entries.setting? "context_types" standard.contextTypes ids
    errorTypes := ← entries.setting? "error_types" standard.errorTypes ids
    builtinSubstitutions :=
      ← entries.setting? "builtin_substitutions" standard.builtinSubstitutions boolean?
    substitutions := ← entries.setting? "substitutions" [] readSubstitutions? }

end ClientTypes

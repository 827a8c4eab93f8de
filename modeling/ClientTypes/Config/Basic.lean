import ClientTypes.Graph.Basic
import ClientTypes.Substitution

/-!
# Configuration

The settings of a generation and their defaults.
-/

namespace ClientTypes

/-- Whether substituted types count among the types that a contract needs. The resolver replaces
them in either case. -/
inductive Policy where
  | native
  | materialize
deriving DecidableEq, Repr, Inhabited

/-- The settings of a generation. -/
structure Config where
  policy : Policy := .native
  /-- The key of the tags that carry wire names. -/
  tagKey : String := "json"
  /-- Types of a leading argument that is no payload. -/
  contextTypes : List TypeId := [⟨"context.Context"⟩]
  /-- Types of a trailing result that is no payload. -/
  errorTypes : List TypeId := [⟨"error"⟩]
  /-- Whether the standard substitutes are in force. -/
  builtinSubstitutions : Bool := true
  /-- Further substitutes by dotted name; they go before the standard ones. -/
  substitutions : List (String × Substitute) := []
deriving DecidableEq, Repr, Inhabited

/-- The substitutes in force. -/
def Config.substitutionTable (c : Config) : SubstitutionTable :=
  (if c.builtinSubstitutions then SubstitutionTable.standard else {}).insertAll c.substitutions

end ClientTypes

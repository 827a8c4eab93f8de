import ClientTypes.Namespace.Aliases
import ClientTypes.QName

/-!
# Scopes

Qualified names are written relative to a namespace: its own names stand bare, foreign ones behind
the alias of their namespace.
-/

namespace ClientTypes

/-- Where text is rendered: the namespace whose names need no qualifier, and the aliases of the
others. -/
structure Scope where
  ns : String
  aliases : NamespaceAliases := {}
deriving Repr, Inhabited

namespace Scope

/-- The qualifier of a namespace; its last segment when it has no alias. -/
def qualifier (scope : Scope) (ns : String) : String :=
  (scope.aliases.get? ns).getD (Text.sanitize (Text.lastSegment ns))

/-- A qualified name as it is written in the scope. -/
def name (scope : Scope) (q : QName) : String :=
  if q.ns = scope.ns then q.name else scope.qualifier q.ns ++ "." ++ q.name

end Scope

end ClientTypes

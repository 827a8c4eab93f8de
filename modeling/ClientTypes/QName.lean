/-!
# Qualified names

The key of a named definition: a namespace, which is the path of a package, and a name in it.
Qualified names are ordered by namespace, then name.
-/

namespace ClientTypes

/-- A namespace and a name in it. -/
structure QName where
  ns : String
  name : String
deriving DecidableEq, Repr, Inhabited, Hashable

namespace QName

/-- The dotted spelling, by which substitutions are looked up. -/
def dotted (q : QName) : String := q.ns ++ "." ++ q.name

/-- Order by namespace, then name. -/
def le (a b : QName) : Bool := a.ns < b.ns || (a.ns == b.ns && a.name ≤ b.name)

end QName

end ClientTypes

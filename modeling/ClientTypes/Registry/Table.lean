import ClientTypes.Registry.Basic

/-!
# Tables of definitions

What a pass ends with: all definitions in the order of their names, the namespaces that each
namespace refers to, and the aliases of all of them.

## Main definitions

* `Registry.finalize` — closes a registry into a table
* `Table.get?` — the definition of a name, by binary search
* `Table.renderNamespace` — the text of a namespace: its imports, then its definitions
-/

namespace ClientTypes

/-- The finished definitions. -/
structure Table where
  definitions : List Definition
  imports : List (String × List String)
  aliases : NamespaceAliases
deriving Inhabited

namespace Table

/-- Looks a name up in definitions that are in the order of their names: where the one in the middle
does not have it, only one half can. -/
def search (name : QName) (ds : List Definition) : Option Definition :=
  match _h : ds.drop (ds.length / 2) with
  | [] => none
  | d :: later =>
    if d.name = name then some d
    else if QName.le d.name name then search name later
    else search name (ds.take (ds.length / 2))
termination_by ds.length
decreasing_by
  all_goals
    have hlength := congrArg List.length _h
    simp only [List.length_drop, List.length_take, List.length_cons] at hlength ⊢
    omega

def get? (t : Table) (name : QName) : Option Definition := search name t.definitions

/-- The definitions that a namespace owns. -/
def inNamespace (t : Table) (ns : String) : List Definition :=
  t.definitions.filter (·.name.ns = ns)

/-- The namespaces that own a definition. -/
def namespaces (t : Table) : List String := t.imports.map (·.1)

/-- The namespaces that the definitions of a namespace refer to. -/
def importsOf? (t : Table) (ns : String) : Option (List String) := t.imports.lookup ns

/-- The text of a namespace, with a blank line before each definition but a leading one. -/
def renderNamespace (t : Table) (ns : String) : String :=
  let scope : Scope := ⟨ns, t.aliases⟩
  let imports := String.join <| ((t.importsOf? ns).getD []).map fun foreign =>
    "import type * as " ++ scope.qualifier foreign ++ " from \"" ++ foreign ++ "\";\n"
  (t.inNamespace ns).foldl
    (fun out d => (if out.isEmpty then out else out ++ "\n") ++ d.render scope) imports

def encode (t : Table) : Json :=
  .record
    [("definitions", .list Definition.encode t.definitions),
     ("imports", .record (t.imports.map fun (ns, foreign) => (ns, .strings foreign))),
     ("aliases", .record (t.aliases.entries.map fun (ns, name) => (ns, .str name)))]

end Table

/-- Closes a registry: definitions are sorted by name, and every namespace that owns or is referred
to by a definition gets an alias. -/
def Registry.finalize (r : Registry) : Table :=
  let definitions := r.definitions.mergeSort fun a b => QName.le a.name b.name
  let owned := distinctOn id (definitions.map (·.name.ns))
  let imports := owned.map fun ns =>
    (ns, sortedSet ((definitions.filter (·.name.ns = ns)).flatMap (·.foreignNamespaces)))
  { definitions
    imports
    aliases := NamespaceAliases.assign (owned ++ imports.flatMap (·.2)) }

end ClientTypes

import ClientTypes.Json.Printer
import ClientTypes.Pass

/-!
# Reports

The three forms in which the result of a pass is printed: a summary of contracts and definitions,
the definitions as text, and everything as JSON.

## Main definitions

* `Generation.summary`, `Generation.preview`, `Generation.json` — the three texts
* `Generation.report` — the text in a given format
-/

namespace ClientTypes

/-- The forms of a report. -/
inductive Format where
  | summary
  | json
  | preview
deriving DecidableEq, Repr, Inhabited

namespace ResolvedOperation

/-- The signature of an operation on one line. -/
def summary (scope : Scope) (op : ResolvedOperation) : String :=
  let call : CallShape TypeText :=
    CallShape.map (·.typeText scope) { params := op.params, results := op.results }
  let errors := match op.errors with
    | [] => ""
    | es => " throws " ++ " | ".intercalate (es.map (·.render scope))
  "  " ++ op.name ++ "(" ++ call.paramsText ++ "): " ++ call.resultsText ++ errors ++ "\n"

def encode (op : ResolvedOperation) : Json :=
  .record <|
    [("name", .str op.name), ("params", .list Param.encode op.params),
     ("results", .list Param.encode op.results), ("errors", .list Descriptor.encode op.errors),
     ("exchange", op.exchange.encode)] ++ docMember op.doc

end ResolvedOperation

namespace ResolvedContract

def summary (aliases : NamespaceAliases) (c : ResolvedContract) : String :=
  "contract " ++ c.name ++ " (" ++ c.ns ++ "): " ++ toString c.operations.length ++ " methods, "
    ++ toString c.reachable.length ++ " reachable types\n"
    ++ String.join (c.operations.map (·.summary ⟨c.ns, aliases⟩))

def encode (c : ResolvedContract) : Json :=
  .record
    [("name", .str c.name), ("namespace", .str c.ns),
     ("reachable", .strings (c.reachable.map (·.text))),
     ("methods", .list ResolvedOperation.encode c.operations), ("imports", .strings c.imports)]

end ResolvedContract

/-- The number of definitions, and the names in each namespace. -/
def Table.summary (t : Table) : String :=
  "definitions: " ++ toString t.definitions.length ++ " in " ++ toString t.namespaces.length
    ++ " namespaces\n"
    ++ String.join (t.namespaces.map fun ns =>
      "  " ++ ns ++ ": " ++ ", ".intercalate ((t.inNamespace ns).map (·.name.name)) ++ "\n")

namespace Generation

def summary (g : Generation) : String :=
  String.join (g.contracts.map (·.summary g.table.aliases)) ++ g.table.summary

/-- The text of every namespace under its name, with a blank line between two. -/
def preview (g : Generation) : String :=
  "\n".intercalate (g.table.namespaces.map fun ns =>
    "// " ++ ns ++ "\n" ++ g.table.renderNamespace ns)

def encode (g : Generation) : Json :=
  .record
    [("contracts", .list ResolvedContract.encode g.contracts), ("definitions", g.table.encode)]

def json (g : Generation) : String := g.encode.pretty ++ "\n"

def report (g : Generation) : Format → String
  | .summary => g.summary
  | .json => g.json
  | .preview => g.preview

end Generation

end ClientTypes

import ClientTypes.Toml.Basic

/-!
# Building TOML tables

How the lines of a document add up to its tables. A table that has been written once is not opened
again; a key is set once.

## Main definitions

* `insert?` — sets a dotted key in a table
* `openTable?`, `openElement?` — the effect of a table header and of an element header
-/

namespace ClientTypes.Toml

/-- Sets a dotted key. The tables on its way must have come about by dotted keys too; they are made
where there are none. -/
def insert? (entries : Entries) (value : Toml) : List String → Option Entries
  | [] => none
  | [key] => if (entries.lookup key).isSome then none else some (entries ++ [(key, value)])
  | key :: next :: path =>
    match entries.lookup key with
    | none => (insert? [] value (next :: path)).map fun es => entries ++ [(key, .table .dotted es)]
    | some (.table .dotted es) =>
      (insert? es value (next :: path)).map fun es => entries.set key (.table .dotted es)
    | some (.table .implied es) =>
      if path.isEmpty then none
      else (insert? es value (next :: path)).map fun es => entries.set key (.table .implied es)
    | some (.tables items) =>
      if path.isEmpty then none
      else match items.getLast? with
        | none => none
        | some es =>
          (insert? es value (next :: path)).map fun es =>
            entries.set key (.tables (items.dropLast ++ [es]))
    | some _ => none

/-- Changes the table that a path leads to, where a list of tables stands for its last element.
Tables that are missing on the way are implied. -/
def update? (change : Entries → Option Entries) (entries : Entries) :
    List String → Option Entries
  | [] => change entries
  | key :: path =>
    match entries.lookup key with
    | none => (update? change [] path).map fun es => entries ++ [(key, .table .implied es)]
    | some (.table .inline _) => none
    | some (.table origin es) =>
      (update? change es path).map fun es => entries.set key (.table origin es)
    | some (.tables items) =>
      match items.getLast? with
      | none => none
      | some es =>
        (update? change es path).map fun es =>
          entries.set key (.tables (items.dropLast ++ [es]))
    | some _ => none

/-- Opens the table with the given path: a new one, or one that was implied. -/
def openTable? (root : Entries) (path : List String) : Option Entries :=
  match path.getLast? with
  | none => none
  | some key =>
    update? (fun es =>
      match es.lookup key with
      | none => some (es ++ [(key, .table .header [])])
      | some (.table .implied inner) => some (es.set key (.table .header inner))
      | some _ => none) root path.dropLast

/-- Opens a new element of the list of tables with the given path. -/
def openElement? (root : Entries) (path : List String) : Option Entries :=
  match path.getLast? with
  | none => none
  | some key =>
    update? (fun es =>
      match es.lookup key with
      | none => some (es ++ [(key, .tables [[]])])
      | some (.tables items) => some (es.set key (.tables (items ++ [[]])))
      | some _ => none) root path.dropLast

end ClientTypes.Toml

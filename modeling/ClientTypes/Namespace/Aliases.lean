import ClientTypes.Distinct
import ClientTypes.Text.Identifier
import ClientTypes.Text.Split

/-!
# Aliases of namespaces

Every foreign namespace is imported under a short name: the last segment of its path. Where that
is ambiguous the colliding namespaces are widened by the segments before, as long as they have any;
what still collides is numbered.

## Main definitions

* `candidate` — the identifier made of the last segments of a namespace
* `widen` — widens colliding namespaces until nothing more can be done
* `NamespaceAliases.assign` — the aliases of a collection of namespaces
-/

namespace ClientTypes

/-- One alias per namespace, in ascending order of the namespaces. -/
structure NamespaceAliases where
  entries : List (String × String) := []
deriving DecidableEq, Repr, Inhabited

namespace NamespaceAliases

/-- How many of its last segments each namespace goes by. -/
abbrev Widths := List (String × Nat)

/-- The identifier made of the last `width` segments of a namespace. -/
def candidate (ns : String) (width : Nat) : String :=
  let segments := Text.segments ns
  Text.sanitize ("_".intercalate (segments.drop (segments.length - width)))

/-- Whether another namespace goes by the same identifier. -/
def collides (widths : Widths) (ns : String) (width : Nat) : Bool :=
  widths.any fun (other, w) => other != ns && candidate other w == candidate ns width

/-- Widens by one segment every colliding namespace that has one more. -/
def widenOnce (widths : Widths) : Widths :=
  widths.map fun (ns, w) =>
    if collides widths ns w && w < (Text.segments ns).length then (ns, w + 1) else (ns, w)

/-- The number of segments that are not in use. -/
def slack : Widths → Nat
  | [] => 0
  | entry :: widths => (Text.segments entry.1).length - entry.2 + slack widths

private theorem slack_map_lt (grows : String → Nat → Bool) (widths : Widths) :
    let grown := widths.map fun (ns, w) =>
      if grows ns w && w < (Text.segments ns).length then (ns, w + 1) else (ns, w)
    slack grown ≤ slack widths ∧ (grown ≠ widths → slack grown < slack widths) := by
  induction widths with
  | nil => simp
  | cons entry widths ih =>
    obtain ⟨ns, w⟩ := entry
    obtain ⟨hle, hlt⟩ := ih
    simp only [slack, List.map_cons] at hle hlt ⊢
    by_cases h : (grows ns w && w < (Text.segments ns).length) = true
    · simp only [h, if_true]
      have : w < (Text.segments ns).length := by simp_all
      exact ⟨by omega, fun _ => by omega⟩
    · simp only [h, Bool.false_eq_true, if_false]
      refine ⟨by omega, fun hne => ?_⟩
      have := hlt fun heq => hne (by rw [heq])
      omega

/-- Widens until no namespace changes. -/
def widen (widths : Widths) : Widths :=
  let wider := widenOnce widths
  if wider = widths then widths else widen wider
termination_by slack widths
decreasing_by exact (slack_map_lt (collides widths) widths).2 ‹_›

/-- The first of `base`, `base2`, `base3`, … that is not in use; so many are tried that one is
free. -/
def fresh (used : List String) (base : String) : String :=
  let numbered := (List.range used.length).map fun i => base ++ toString (i + 2)
  ((base :: numbered).find? (· ∉ used)).getD base

/-- Gives each namespace its candidate, numbered where an earlier one has it. -/
def number (used : List String) : Widths → List (String × String)
  | [] => []
  | (ns, w) :: widths =>
    let name := fresh used (candidate ns w)
    (ns, name) :: number (name :: used) widths

/-- The aliases of a collection of namespaces. -/
def assign (namespaces : List String) : NamespaceAliases :=
  ⟨number [] (widen ((sortedSet namespaces).map (·, 1)))⟩

def get? (aliases : NamespaceAliases) (ns : String) : Option String := aliases.entries.lookup ns

end NamespaceAliases

end ClientTypes

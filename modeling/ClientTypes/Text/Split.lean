/-!
# Splitting text

`split` cuts characters at every occurrence of a separator. What is cut is never empty: text
without the separator is one piece.
-/

namespace ClientTypes.Text

/-- The pieces between the occurrences of `sep`. -/
def split (sep : Char) : List Char → List (List Char)
  | [] => [[]]
  | c :: cs =>
    if c = sep then [] :: split sep cs
    else match split sep cs with
      | [] => [[c]]
      | piece :: pieces => (c :: piece) :: pieces

theorem split_ne_nil (sep : Char) (cs : List Char) : split sep cs ≠ [] := by
  cases cs with
  | nil => simp [split]
  | cons c cs =>
    rw [split]
    split
    · simp
    · split <;> simp

/-- The pieces of a path that are not empty, from the outermost to the innermost. -/
def segments (path : String) : List String :=
  ((split '/' path.toList).filter (· ≠ [])).map String.ofList

/-- What follows the last slash of a path; all of it if there is none. -/
def lastSegment (path : String) : String :=
  String.ofList ((split '/' path.toList).getLast (split_ne_nil _ _))

end ClientTypes.Text

import ClientTypes.Graph.Scalar
import ClientTypes.Substitution
import ClientTypes.Text.Char

/-!
# Guessing types from their spelling

A type that is not declared is known by its id alone. The id is read as a type expression: a
predeclared name, a pointer `*E`, a slice `[]E`, a map `map[K]V`, or a name that has a substitute.
Anything else is opaque.

## Main definitions

* `Outermost.ofChars` — what a type expression is at its outermost
* `SubstitutionTable.guess` — the descriptor that a spelling stands for
-/

namespace ClientTypes

namespace Scalar

/-- The target type of a scalar; complex numbers have none. -/
def builtin? (s : Scalar) : Option Builtin :=
  if s = bool then some .boolean
  else if s = string then some .string
  else if s.isInteger then some .integer
  else if s.isFloat then some .number
  else none

/-- The descriptor of a scalar; opaque where it has no target type. -/
def descriptor (s : Scalar) : Descriptor :=
  match s.builtin? with
  | some b => .builtin b
  | none => .bareOpaque

end Scalar

/-! ## Type expressions -/

/-- How many brackets are open after a character. -/
def bracketDepth (depth : Nat) (c : Char) : Nat :=
  if c = '[' then depth + 1 else if c = ']' then depth - 1 else depth

/-- Cuts text at the bracket that closes the one before it; `depth` brackets inside are open. -/
def cutBracket (depth : Nat) : List Char → Option (List Char × List Char)
  | [] => none
  | c :: cs =>
    if c = ']' ∧ depth = 0 then some ([], cs)
    else (cutBracket (bracketDepth depth c) cs).map (Prod.map (c :: ·) id)

theorem length_add_length_lt_of_cutBracket {depth : Nat} {cs key value : List Char}
    (h : cutBracket depth cs = some (key, value)) : key.length + value.length < cs.length := by
  induction cs generalizing depth key value with
  | nil => simp [cutBracket] at h
  | cons c cs ih =>
    rw [cutBracket] at h
    split at h
    · simp only [Option.some.injEq, Prod.mk.injEq] at h
      obtain ⟨rfl, rfl⟩ := h
      simp
    · simp only [Option.map_eq_some_iff, Prod.map, id_eq, Prod.mk.injEq] at h
      obtain ⟨⟨k, v⟩, hk, rfl, rfl⟩ := h
      have := ih hk
      simp only [List.length_cons]
      omega

/-- The outermost form of a type expression. -/
inductive Outermost where
  | pointer (inner : List Char)
  | slice (elem : List Char)
  | map (key value : List Char)
  | leaf
deriving DecidableEq, Repr, Inhabited

namespace Outermost

/-- The parts of a form. -/
def parts : Outermost → List (List Char)
  | pointer inner => [inner]
  | slice elem => [elem]
  | map key value => [key, value]
  | leaf => []

/-- The outermost form of some text. -/
def ofChars : List Char → Outermost
  | '*' :: inner => pointer inner
  | '[' :: ']' :: elem => slice elem
  | 'm' :: 'a' :: 'p' :: '[' :: rest =>
    match cutBracket 0 rest with
    | some (key, value) => map key value
    | none => leaf
  | _ => leaf

theorem length_lt_of_mem_parts {cs part : List Char} (h : part ∈ (ofChars cs).parts) :
    part.length < cs.length := by
  unfold ofChars at h
  split at h
  · simp_all [parts]
  · simp only [parts, List.mem_singleton] at h
    subst h
    simp only [List.length_cons]
    omega
  · split at h
    · next hcut =>
      have := length_add_length_lt_of_cutBracket hcut
      simp only [parts, List.mem_cons, List.not_mem_nil, or_false] at h
      simp only [List.length_cons]
      rcases h with rfl | rfl <;> omega
    · simp [parts] at h
  · simp [parts] at h

end Outermost

/-- The descriptor of a predeclared spelling. -/
def predeclared? (text : String) : Option Descriptor :=
  match Scalar.ofBuiltinName? text with
  | some s => some s.descriptor
  | none =>
    if text = "[]byte" ∨ text = "[]uint8" then some (.builtin .bytes)
    else if text = "any" ∨ text = "interface\x7b\x7d" ∨ text = "interface \x7b\x7d" then
      some .bareOpaque
    else none

namespace SubstitutionTable

/-- The descriptor that a type expression stands for. -/
def guessChars (table : SubstitutionTable) (raw : List Char) : Descriptor :=
  let text := Text.trim raw
  match predeclared? (String.ofList text) with
  | some d => d
  | none =>
    match _h : Outermost.ofChars text with
    | .pointer inner => (table.guessChars inner).withPointers 1
    | .slice elem => .array (table.guessChars elem)
    | .map key value => .map (table.guessChars key) (table.guessChars value)
    | .leaf => ((table.get? (String.ofList text)).map (·.descriptor)).getD .bareOpaque
termination_by raw.length
decreasing_by
  all_goals
    refine Nat.lt_of_lt_of_le (Outermost.length_lt_of_mem_parts ?_) (Text.length_trim_le raw)
    rw [_h]
    simp [Outermost.parts]

/-- The descriptor that a spelling stands for. -/
def guess (table : SubstitutionTable) (spelling : String) : Descriptor :=
  table.guessChars spelling.toList

end SubstitutionTable

end ClientTypes

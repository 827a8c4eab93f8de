import ClientTypes.Tag
import ClientTypes.Text.Identifier

/-!
# Tags that are written are read back

A pair is written as its key, a colon and its value in quotes, with a backslash before every
backslash and every quote of the value. Whatever the value is, the quote that closes it is the first
one without a backslash of its own. So reading comes to each pair in turn, and what follows the
pairs is only read if none of them has the key.

## Main definitions

* `Tag.Pair` — a pair as it can be written
* `Tag.write` — the text of several pairs
* `Tag.firstValue?` — the value of the first pair with a key

The main statement is `lookup_write`.
-/

namespace ClientTypes

namespace Tag

open Text (escapeChars)

/-! ## Writing -/

/-- A key and a value, with a number of spaces before them. -/
structure Pair where
  spaces : Nat
  key : String
  value : String
  key_ne : key ≠ ""
  key_chars : ∀ c ∈ key.toList, ' ' < c ∧ c ≠ ':' ∧ c ≠ '"' ∧ c ≠ '\x7f'

instance : Inhabited Pair where
  default := { spaces := 0, key := "json", value := "", key_ne := by decide, key_chars := by simp }

/-- Text of spaces only. -/
def spaces (n : Nat) : String := String.ofList (List.replicate n ' ')

/-- A pair as it is written. -/
def Pair.text (p : Pair) : String :=
  Tag.spaces p.spaces ++ p.key ++ ":\"" ++ Text.escape p.value ++ "\""

/-- Several pairs, one behind the other. -/
def write (pairs : List Pair) : String := String.join (pairs.map Pair.text)

/-- The value of the first pair with the given key. -/
def firstValue? (pairs : List Pair) (key : String) : Option String :=
  (pairs.find? fun p => p.key = key).map (·.value)

theorem Pair.toList_text (p : Pair) : p.text.toList =
    List.replicate p.spaces ' ' ++ (p.key.toList ++ ':' :: '"' :: (escapeChars p.value.toList ++
      ['"'])) := by
  simp [Pair.text, Tag.spaces, Text.escape]

theorem write_cons (p : Pair) (pairs : List Pair) : write (p :: pairs) = p.text ++ write pairs := by
  simp [write, String.join_cons]

/-! ## Values -/

/-- The quote behind an escaped value closes it. -/
theorem cutValue_escapeChars (value rest : List Char) :
    cutValue (escapeChars value ++ '"' :: rest) = some (escapeChars value, rest) := by
  induction value with
  | nil => rfl
  | cons c cs ih =>
    by_cases hc : c = '\\' ∨ c = '"'
    · simp [escapeChars, hc, cutValue, ih]
    · have hplain := not_or.1 hc
      simp [escapeChars, hplain.1, hplain.2, cutValue, ih]

/-- An escaped value stands for the value. -/
theorem unescape_escapeChars (value : List Char) : unescape (escapeChars value) = some value := by
  induction value with
  | nil => rfl
  | cons c cs ih =>
    by_cases hc : c = '\\' ∨ c = '"'
    · rcases hc with rfl | rfl <;> simp [escapeChars, unescape, escaped?, ih]
    · have hplain := not_or.1 hc
      simp [escapeChars, hplain.1, hplain.2, unescape, ih]

/-! ## Pairs -/

theorem Pair.isKeyChar (p : Pair) : ∀ c ∈ p.key.toList, isKeyChar c = true := by
  intro c hc
  obtain ⟨hblank, hcolon, hquote, hdelete⟩ := p.key_chars c hc
  simp [Tag.isKeyChar, hblank, hcolon, hquote, hdelete]

/-- A pair at the front is cut off as it was written. -/
theorem cutPair_text (p : Pair) (rest : List Char) :
    cutPair (p.text.toList ++ rest) =
      some (p.key.toList, escapeChars p.value.toList, rest) := by
  let written := escapeChars p.value.toList ++ '"' :: rest
  obtain ⟨c, cs, hkey⟩ : ∃ c cs, p.key.toList = c :: cs :=
    List.exists_cons_of_ne_nil fun hnil => p.key_ne (String.toList_eq_nil_iff.1 hnil)
  have hc : (c == ' ') = false := by
    have hblank := (p.key_chars c (by simp [hkey])).1
    exact beq_false_of_ne fun heq => absurd (heq ▸ hblank) (by decide)
  have htext : p.text.toList ++ rest =
      List.replicate p.spaces ' ' ++ (p.key.toList ++ ':' :: '"' :: written) := by
    simp [written, p.toList_text]
  have hstart : (p.text.toList ++ rest).dropWhile (· == ' ') =
      p.key.toList ++ ':' :: '"' :: written := by
    rw [htext, List.dropWhile_append_of_pos (by simp), hkey, List.cons_append,
      List.dropWhile_cons_of_neg (by simp [hc])]
  have htake : (p.key.toList ++ ':' :: '"' :: written).takeWhile isKeyChar = c :: cs := by
    rw [List.takeWhile_append_of_pos p.isKeyChar, hkey]
    simp [isKeyChar]
  have hdrop : (p.key.toList ++ ':' :: '"' :: written).dropWhile isKeyChar =
      ':' :: '"' :: written := by
    rw [List.dropWhile_append_of_pos p.isKeyChar]
    simp [isKeyChar]
  simp only [cutPair, hstart, htake, hdrop]
  rw [cutValue_escapeChars, hkey]
  rfl

/-- A pair at the front has the value that is looked up, or reading goes on behind it. -/
theorem lookup_text_append (p : Pair) (rest key : String) :
    lookup (p.text ++ rest) key = if p.key = key then some p.value else lookup rest key := by
  unfold lookup
  rw [String.toList_append, lookupChars]
  split
  · next hcut => simp [cutPair_text] at hcut
  · next hcut =>
    simp only [cutPair_text, Option.some.injEq, Prod.mk.injEq] at hcut
    obtain ⟨rfl, rfl, rfl⟩ := hcut
    simp only [String.toList_inj]
    split
    · simp [unescape_escapeChars]
    · rfl

/-- There is no pair in spaces. -/
theorem lookup_spaces (n : Nat) (key : String) : lookup (spaces n) key = none := by
  have hcut : cutPair (spaces n).toList = none := by
    simp [cutPair, spaces]
  unfold lookup
  rw [lookupChars]
  split
  · rfl
  · next h => simp [hcut] at h

/-- Looking up a key in written pairs, whatever stands behind them, finds the value of the first
pair with that key. Where no pair has it, what stands behind them decides, and if that is nothing
but spaces nothing is found. -/
theorem lookup_write (pairs : List Pair) (key : String) :
    (∀ rest, lookup (write pairs ++ rest) key = (firstValue? pairs key).or (lookup rest key)) ∧
    ∀ n, lookup (write pairs ++ spaces n) key = firstValue? pairs key := by
  have hwrite (rest : String) :
      lookup (write pairs ++ rest) key = (firstValue? pairs key).or (lookup rest key) := by
    induction pairs with
    | nil => simp [write, firstValue?]
    | cons p pairs ih =>
      rw [write_cons, String.append_assoc, lookup_text_append, ih]
      by_cases hkey : p.key = key <;> simp [firstValue?, hkey]
  refine ⟨hwrite, fun n => ?_⟩
  rw [hwrite, lookup_spaces, Option.or_none]

attribute [local semireducible] lookupChars in
/-- A value may look like another pair. -/
example : lookup "db:\"a\\\" json:\\\"b\" json:\"id\"" "json" = some "id" := by decide

end Tag

end ClientTypes

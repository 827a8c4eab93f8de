import ClientTypes.Resolve.Guess

/-!
# Type expressions are read as they are built

A type expression is built of words by pointers, slices and maps. Guessing takes it apart again:
what is in front of it tells its outermost form, and the key of a map ends at the bracket that
closes the one before it, since brackets are properly nested inside.

## Main definitions

* `Nested` — every bracket is closed, and none before it is opened
* `TypeExpr` — type expressions over words, with their `text` and their `meaning`

The main statement is `guess_text`.
-/

namespace ClientTypes

/-! ## Brackets -/

/-- Text whose square brackets are properly nested. -/
inductive Nested : List Char → Prop
  | nil : Nested []
  | char {c : Char} {cs : List Char} : c ≠ '[' → c ≠ ']' → Nested cs → Nested (c :: cs)
  | bracket {inner cs : List Char} :
      Nested inner → Nested cs → Nested ('[' :: (inner ++ ']' :: cs))

variable {cs ds : List Char}

theorem Nested.append (h : Nested cs) (h' : Nested ds) : Nested (cs ++ ds) := by
  induction h with
  | nil => exact h'
  | char hopen hclose _ ih => exact .char hopen hclose ih
  | bracket hinner _ _ ih =>
    rw [List.cons_append, List.append_assoc]
    exact .bracket hinner ih

/-- What is properly nested has no end of an open bracket in it. -/
theorem Nested.cutBracket_append (h : Nested cs) (depth : Nat) (rest : List Char) :
    cutBracket depth (cs ++ rest) = (cutBracket depth rest).map (Prod.map (cs ++ ·) id) := by
  induction h generalizing depth rest with
  | nil =>
    rw [List.nil_append]
    cases cutBracket depth rest <;> rfl
  | @char c cs hopen hclose _ ih =>
    have hdepth : bracketDepth depth c = depth := by simp [bracketDepth, hopen, hclose]
    rw [List.cons_append, cutBracket, if_neg (by simp [hclose]), hdepth, ih]
    cases cutBracket depth rest <;> rfl
  | @bracket inner cs _ _ ihinner ih =>
    have hopen : bracketDepth depth '[' = depth + 1 := by simp [bracketDepth]
    have hclose : bracketDepth (depth + 1) ']' = depth := by simp [bracketDepth]
    rw [List.cons_append, List.append_assoc, cutBracket, if_neg (by simp), hopen, ihinner,
      List.cons_append, cutBracket, if_neg (by simp), hclose, ih]
    cases cutBracket depth rest <;> simp [Prod.map]

/-- The key of a map is all that stands before the bracket. -/
theorem Nested.cutBracket (h : Nested cs) (value : List Char) :
    cutBracket 0 (cs ++ ']' :: value) = some (cs, value) := by
  rw [h.cutBracket_append]
  simp [ClientTypes.cutBracket]

/-! ## Blanks -/

/-- Text without blanks at its ends. -/
def Trimmed (cs : List Char) : Prop :=
  ∀ c, cs.head? = some c ∨ cs.getLast? = some c → Text.isBlank c = false

theorem Trimmed.append (h : Trimmed cs) (h' : Trimmed ds) : Trimmed (cs ++ ds) := by
  intro c hc
  rw [List.head?_append, List.getLast?_append, Option.or_eq_some_iff, Option.or_eq_some_iff] at hc
  rcases hc with (hc | ⟨-, hc⟩) | (hc | ⟨-, hc⟩)
  · exact h c (.inl hc)
  · exact h' c (.inl hc)
  · exact h' c (.inr hc)
  · exact h c (.inr hc)

theorem trimmed_of_any_eq_false (h : cs.any Text.isBlank = false) : Trimmed cs := by
  have hblank (c : Char) (hc : c ∈ cs) : Text.isBlank c = false := by
    simpa using List.any_eq_false.1 h c hc
  rintro c (hc | hc)
  · exact hblank c (List.mem_of_mem_head? hc)
  · exact hblank c (List.mem_of_mem_getLast? hc)

theorem trimFront_of_head (h : ∀ c, cs.head? = some c → Text.isBlank c = false) :
    Text.trimFront cs = cs := by
  cases cs with
  | nil => rfl
  | cons c cs => simp [Text.trimFront, h c rfl]

theorem Trimmed.trim_eq (h : Trimmed cs) : Text.trim cs = cs := by
  rw [Text.trim, trimFront_of_head fun c hc => h c (.inl hc), trimFront_of_head,
    List.reverse_reverse]
  intro c hc
  rw [List.head?_reverse] at hc
  exact h c (.inr hc)

/-! ## Guessing -/

namespace SubstitutionTable

variable {table : SubstitutionTable} {text : String} {c : Char}

theorem guess_of_predeclared (ht : Trimmed text.toList) {d : Descriptor}
    (h : predeclared? text = some d) : table.guess text = d := by
  rw [guess, guessChars, ht.trim_eq, String.ofList_toList, h]

/-- What is not predeclared goes by its outermost form. -/
theorem guess_of_not_predeclared (ht : Trimmed text.toList) (h : predeclared? text = none) :
    table.guess text = match Outermost.ofChars text.toList with
      | .pointer inner => (table.guess (String.ofList inner)).withPointers 1
      | .slice elem => .array (table.guess (String.ofList elem))
      | .map key value => .map (table.guess (String.ofList key)) (table.guess (String.ofList value))
      | .leaf => ((table.get? text).map (·.descriptor)).getD .bareOpaque := by
  rw [guess, guessChars, ht.trim_eq, String.ofList_toList, h]
  simp only [guess, String.toList_ofList]
  cases Outermost.ofChars text.toList <;> rfl

end SubstitutionTable

/-- A predeclared name starts neither like a pointer nor like a slice or a map; two slices are
predeclared apart from that. -/
theorem predeclared?_eq_none {text : String}
    (h : text.toList.head? ∈ [some '*', some '[', some 'm']) (hbyte : text ≠ "[]byte")
    (huint8 : text ≠ "[]uint8") : predeclared? text = none := by
  let names := "byte" :: "rune" :: "any" :: "interface\x7b\x7d" :: "interface \x7b\x7d" ::
    Scalar.all.map Scalar.spelling
  have hheads : ∀ name ∈ names, name.toList.head? ∉ [some '*', some '[', some 'm'] := by decide
  have hne : ∀ name ∈ names, text ≠ name := by
    rintro name hname rfl
    exact hheads _ hname h
  have hscalar : Scalar.ofSpelling? text = none := by
    refine List.find?_eq_none.2 fun s hs => ?_
    have hspelled := hne s.spelling (by simp [names, List.mem_map_of_mem hs])
    simpa using hspelled.symm
  simp only [names, List.forall_mem_cons] at hne
  obtain ⟨hbyteName, hrune, hany, hempty, hblank, -⟩ := hne
  simp [predeclared?, Scalar.ofBuiltinName?, *]

/-! ## Words -/

/-- A word of a type expression: anything that is no pointer, slice or map. -/
structure Word where
  text : String
  nested : Nested text.toList
  trimmed : Trimmed text.toList
  plain : ∀ start ∈ ["*", "[]", "map["], ¬ start.toList <+: text.toList

namespace Word

/-- The word for any value. -/
instance : Inhabited Word where
  default :=
    { text := "any"
      nested := .char (by decide) (by decide) (.char (by decide) (by decide)
        (.char (by decide) (by decide) .nil))
      trimmed := trimmed_of_any_eq_false (by decide)
      plain := by decide }

/-- What a word stands for: a scalar, any value, a type that has a substitute, or nothing known. -/
def meaning (table : SubstitutionTable) (word : Word) : Descriptor :=
  match Scalar.ofBuiltinName? word.text with
  | some s => if s.isComplex then .bareOpaque else s.descriptor
  | none =>
    if word.text ∈ ["any", "interface\x7b\x7d", "interface \x7b\x7d"] then .bareOpaque
    else match table.get? word.text with
      | some s => s.descriptor
      | none => .bareOpaque

/-- A word is no other form. -/
theorem outermost (word : Word) : Outermost.ofChars word.text.toList = .leaf := by
  have hplain := word.plain
  generalize word.text.toList = cs at hplain
  unfold Outermost.ofChars
  split
  · next inner => exact absurd ⟨inner, rfl⟩ (hplain "*" (by simp))
  · next elem => exact absurd ⟨elem, rfl⟩ (hplain "[]" (by simp))
  · next rest => exact absurd ⟨rest, rfl⟩ (hplain "map[" (by simp))
  · rfl

theorem text_ne_slice (word : Word) (elem : String) : word.text ≠ "[]" ++ elem := by
  intro heq
  exact word.plain "[]" (by simp) ⟨elem.toList, by rw [heq, String.toList_append]⟩

theorem guess_eq (table : SubstitutionTable) (word : Word) :
    table.guess word.text = word.meaning table := by
  have hbyte : word.text ≠ "[]byte" := word.text_ne_slice "byte"
  have huint8 : word.text ≠ "[]uint8" := word.text_ne_slice "uint8"
  unfold meaning
  cases hs : Scalar.ofBuiltinName? word.text with
  | some s =>
    have hp : predeclared? word.text = some s.descriptor := by rw [predeclared?, hs]
    rw [SubstitutionTable.guess_of_predeclared word.trimmed hp]
    cases s <;> rfl
  | none =>
    by_cases hany : word.text ∈ ["any", "interface\x7b\x7d", "interface \x7b\x7d"]
    · have hp : predeclared? word.text = some .bareOpaque := by
        simp_all [predeclared?]
      rw [SubstitutionTable.guess_of_predeclared word.trimmed hp]
      simp only [hany, if_true]
    · have hp : predeclared? word.text = none := by
        simp_all [predeclared?]
      rw [SubstitutionTable.guess_of_not_predeclared word.trimmed hp, word.outermost]
      simp only [hany, if_false]
      cases table.get? word.text <;> rfl

end Word

/-! ## Type expressions -/

/-- A type expression. -/
inductive TypeExpr where
  | word (word : Word)
  | pointer (inner : TypeExpr)
  | slice (elem : TypeExpr)
  | map (key value : TypeExpr)

namespace TypeExpr

/-- A type expression as it is spelled. -/
def text : TypeExpr → String
  | word w => w.text
  | pointer inner => "*" ++ inner.text
  | slice elem => "[]" ++ elem.text
  | map key value => "map[" ++ key.text ++ "]" ++ value.text

/-- The element of a slice that is read as bytes. -/
def isByte : TypeExpr → Bool
  | word w => w.text = "byte" ∨ w.text = "uint8"
  | _ => false

/-- What a type expression stands for. -/
def meaning (table : SubstitutionTable) : TypeExpr → Descriptor
  | word w => w.meaning table
  | pointer inner => { inner.meaning table with nullable := true }
  | slice elem => if elem.isByte then .builtin .bytes else .array (elem.meaning table)
  | map key value => .map (key.meaning table) (value.meaning table)

theorem nested_text (e : TypeExpr) : Nested e.text.toList := by
  induction e with
  | word w => exact w.nested
  | pointer inner ih => simpa [text] using .char (by decide) (by decide) ih
  | slice elem ih => simpa [text] using .bracket .nil ih
  | map key value ihkey ihvalue =>
    have hmap : Nested ['m', 'a', 'p'] :=
      .char (by decide) (by decide) (.char (by decide) (by decide)
        (.char (by decide) (by decide) .nil))
    simpa [text] using hmap.append (.bracket ihkey ihvalue)

theorem trimmed_text (e : TypeExpr) : Trimmed e.text.toList := by
  have hmark : ∀ mark ∈ ["*", "[]", "map[", "]"], Trimmed mark.toList := by
    have hblank : ∀ mark ∈ ["*", "[]", "map[", "]"], mark.toList.any Text.isBlank = false := by
      decide
    exact fun mark hmark => trimmed_of_any_eq_false (hblank mark hmark)
  induction e with
  | word w => exact w.trimmed
  | pointer inner ih =>
    rw [text, String.toList_append]
    exact (hmark "*" (by simp)).append ih
  | slice elem ih =>
    rw [text, String.toList_append]
    exact (hmark "[]" (by simp)).append ih
  | map key value ihkey ihvalue =>
    simp only [text, String.toList_append]
    exact (((hmark "map[" (by simp)).append ihkey).append (hmark "]" (by simp))).append ihvalue

theorem isByte_iff (e : TypeExpr) : e.isByte ↔ e.text = "byte" ∨ e.text = "uint8" := by
  cases e with
  | word w => exact decide_eq_true_iff
  | pointer | slice | map =>
    refine iff_of_false Bool.false_ne_true ?_
    rintro (h | h) <;> simpa [text] using congrArg (·.toList.head?) h

/-- The text of a type expression is guessed to be what the expression stands for. -/
theorem guess_text (table : SubstitutionTable) (e : TypeExpr) :
    table.guess e.text = e.meaning table := by
  induction e with
  | word w => exact w.guess_eq table
  | pointer inner ih =>
    have hnone : predeclared? (pointer inner).text = none :=
      predeclared?_eq_none (by simp [text]) (by simp [text, String.ext_iff])
        (by simp [text, String.ext_iff])
    rw [SubstitutionTable.guess_of_not_predeclared (trimmed_text _) hnone]
    simp [text, Outermost.ofChars, ih, meaning, Descriptor.withPointers]
  | slice elem ih =>
    by_cases hbyte : elem.isByte = true
    · have hbytes : predeclared? (slice elem).text = some (.builtin .bytes) := by
        rcases (isByte_iff elem).1 hbyte with h | h <;> rw [text, h] <;> rfl
      rw [SubstitutionTable.guess_of_predeclared (trimmed_text _) hbytes, meaning, if_pos hbyte]
    · have hne := not_or.1 (mt (isByte_iff elem).2 hbyte)
      have hnone : predeclared? (slice elem).text = none :=
        predeclared?_eq_none (by simp [text]) (by simpa [text, String.ext_iff] using hne.1)
          (by simpa [text, String.ext_iff] using hne.2)
      rw [SubstitutionTable.guess_of_not_predeclared (trimmed_text _) hnone]
      simp [text, Outermost.ofChars, ih, meaning, hbyte]
  | map key value ihkey ihvalue =>
    have hnone : predeclared? (map key value).text = none :=
      predeclared?_eq_none (by simp [text]) (by simp [text, String.ext_iff])
        (by simp [text, String.ext_iff])
    rw [SubstitutionTable.guess_of_not_predeclared (trimmed_text _) hnone]
    simp [text, Outermost.ofChars, key.nested_text.cutBracket, ihkey, ihvalue, meaning]

attribute [local semireducible] SubstitutionTable.guessChars in
/-- A map may be the key of a map. -/
example : SubstitutionTable.standard.guess "map[map[string][]byte]*time.Time" =
    .map (.map (.builtin .string) (.builtin .bytes))
      ((Descriptor.native .date).withPointers 1) := by
  rfl

end TypeExpr

end ClientTypes

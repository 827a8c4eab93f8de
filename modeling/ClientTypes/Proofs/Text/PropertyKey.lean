import ClientTypes.Descriptor.Render
import ClientTypes.Proofs.Tag
import ClientTypes.Proofs.Text.Identifier

/-!
# Property keys are read back

The key of a property is its name where that is an identifier, and otherwise the name in quotes.
Quoted text is read from the left, and a backslash belongs to the character behind it. So the quote
that closes a key is the first one without a backslash of its own, and a key tells its name whatever
characters the name has.

## Main definitions

* `Text.IsIdentifier` — a name that needs no quotes
* `Text.pieces` — quoted text as characters with or without a backslash of their own
* `Text.Spells` — the quoted text says the name, with no backslash too few or too many
* `Text.cutKey`, `Text.readKey?` — the name in the key that a text begins with

The main statement is `Property.key_reads_back`.
-/

namespace ClientTypes

namespace Text

variable {body name word : String} {rest : List Char} {c : Char}

/-! ## Identifiers -/

/-- ASCII letters, digits, underscores and dollar signs, at least one, and not a digit first. -/
structure IsIdentifier (word : String) : Prop where
  parts : ∀ c ∈ word.toList, c.isAlphanum = true ∨ c = '_' ∨ c = '$'
  start : ∃ c, word.toList.head? = some c ∧ c.isDigit = false

theorem isKeyPart_iff : isKeyPart c = true ↔ c.isAlphanum = true ∨ c = '_' ∨ c = '$' := by
  simp [isKeyPart, or_assoc]

theorem isDigit_eq_false_of_isAlpha (h : c.isAlpha = true) : c.isDigit = false := by
  rw [Bool.eq_false_iff]
  intro hdigit
  have hle : c.val ≤ '9'.val := of_decide_eq_true (Bool.and_eq_true_iff.1 hdigit).2
  rcases Bool.or_eq_true_iff.1 h with hupper | hlower
  · simp [isUpper_eq_false_of_isDigit hdigit] at hupper
  · have hge : 'a'.val ≤ c.val := of_decide_eq_true (Bool.and_eq_true_iff.1 hlower).1
    exact absurd (UInt32.le_trans hge hle) (by decide)

/-- A key starts with any character that it may have but a digit. -/
theorem isKeyStart_iff : isKeyStart c = true ↔ isKeyPart c = true ∧ c.isDigit = false := by
  simp only [isKeyStart, isKeyPart, Char.isAlphanum, Bool.or_eq_true, beq_iff_eq]
  constructor
  · rintro ((halpha | rfl) | rfl)
    · exact ⟨.inl (.inl (.inl halpha)), isDigit_eq_false_of_isAlpha halpha⟩
    · exact ⟨.inl (.inr rfl), by decide⟩
    · exact ⟨.inr rfl, by decide⟩
  · rintro ⟨((halpha | hdigit) | hunderscore) | hdollar, hnot⟩
    · exact .inl (.inl halpha)
    · exact absurd hdigit (by simp [hnot])
    · exact .inl (.inr hunderscore)
    · exact .inr hdollar

theorem needsQuotes_eq_false_iff : needsQuotes word = false ↔
    ∃ c cs, word.toList = c :: cs ∧ isKeyStart c ∧ ∀ d ∈ word.toList, isKeyPart d := by
  unfold needsQuotes
  split
  · next h => simp [h]
  · next c cs h => simp [h]

theorem exists_keyStart (h : needsQuotes word = false) :
    ∃ c cs, word.toList = c :: cs ∧ isKeyStart c := by
  obtain ⟨c, cs, hcs, hc, -⟩ := needsQuotes_eq_false_iff.1 h
  exact ⟨c, cs, hcs, hc⟩

theorem isKeyPart_of_mem (h : needsQuotes word = false) : ∀ c ∈ word.toList, isKeyPart c := by
  obtain ⟨-, -, -, -, hparts⟩ := needsQuotes_eq_false_iff.1 h
  exact hparts

/-- Identifiers, and no other names, go without quotes. -/
theorem needsQuotes_eq_false_iff_isIdentifier : needsQuotes word = false ↔ IsIdentifier word := by
  rw [needsQuotes_eq_false_iff]
  constructor
  · rintro ⟨c, cs, hcs, hstart, hparts⟩
    have hfirst := isKeyStart_iff.1 hstart
    exact ⟨fun d hd => isKeyPart_iff.1 (hparts d hd), c, by rw [hcs]; rfl, hfirst.2⟩
  · rintro ⟨hparts, c, hhead, hdigit⟩
    obtain ⟨cs, hcs⟩ := List.head?_eq_some_iff.1 hhead
    have hpart := isKeyPart_iff.2 (hparts c (hcs ▸ List.mem_cons_self))
    refine ⟨c, cs, hcs, isKeyStart_iff.2 ⟨hpart, hdigit⟩, fun d hd => ?_⟩
    exact isKeyPart_iff.2 (hparts d hd)

/-! ## Quoted text -/

/-- A character of quoted text, and whether a backslash of its own stands before it. -/
structure Piece where
  char : Char
  escaped : Bool
deriving DecidableEq, Repr, Inhabited

/-- Reads quoted text from the left: a backslash belongs to the character behind it. -/
def pieces : List Char → List Piece
  | [] => []
  | '\\' :: c :: cs => ⟨c, true⟩ :: pieces cs
  | c :: cs => ⟨c, false⟩ :: pieces cs

def Piece.text (p : Piece) : List Char := if p.escaped then ['\\', p.char] else [p.char]

theorem flatMap_text_pieces (cs : List Char) : (pieces cs).flatMap Piece.text = cs := by
  fun_induction pieces cs <;> grind [Piece.text]

/-- Without the backslashes that escape, quoted text is the name. The quotes and backslashes of the
name are escaped, and nothing else is. -/
structure Spells (body name : String) : Prop where
  chars : (pieces body.toList).map Piece.char = name.toList
  escaped_iff : ∀ p ∈ pieces body.toList, p.escaped = true ↔ p.char = '\\' ∨ p.char = '"'

theorem pieces_escapeChars (cs : List Char) :
    pieces (escapeChars cs) = cs.map fun c => ⟨c, decide (c = '\\' ∨ c = '"')⟩ := by
  induction cs with
  | nil => rfl
  | cons c cs ih =>
    by_cases hc : c = '\\' ∨ c = '"'
    · simp [escapeChars, hc, pieces, ih]
    · have hplain := not_or.1 hc
      simp [escapeChars, hplain.1, hplain.2, pieces, ih]

/-- Only one text spells a name. -/
theorem spells_iff : Spells body name ↔ body = escape name := by
  constructor
  · rintro ⟨hchars, hescaped⟩
    -- Texts of the same pieces are the same.
    have hpieces : pieces body.toList = pieces (escapeChars name.toList) := by
      rw [pieces_escapeChars, ← hchars, List.map_map]
      refine (List.map_id _).symm.trans (List.map_congr_left fun p hp => ?_)
      have hp' : p.escaped = decide (p.char = '\\' ∨ p.char = '"') :=
        Bool.eq_iff_iff.2 (by simpa using hescaped p hp)
      exact congrArg (Piece.mk p.char) hp'
    have htext := congrArg (List.flatMap Piece.text) hpieces
    rw [flatMap_text_pieces, flatMap_text_pieces] at htext
    rw [escape, ← htext, String.ofList_toList]
  · rintro rfl
    refine ⟨by simp [escape, pieces_escapeChars, Function.comp_def], fun p hp => ?_⟩
    rw [escape, String.toList_ofList, pieces_escapeChars] at hp
    obtain ⟨c, -, rfl⟩ := List.mem_map.1 hp
    simp

theorem sublist_escapeChars (cs : List Char) : cs.Sublist (escapeChars cs) := by
  induction cs with
  | nil => exact .slnil
  | cons c cs ih =>
    unfold escapeChars
    split
    · exact (ih.cons_cons c).cons '\\'
    · exact ih.cons_cons c

/-- Two passes do the same, the first one over the backslashes; the other way round the backslashes
that escape quotes would be escaped again. -/
theorem escapeChars_eq_flatMap_flatMap (cs : List Char) :
    escapeChars cs = (cs.flatMap fun c => if c = '\\' then ['\\', '\\'] else [c]).flatMap
      fun c => if c = '"' then ['\\', '"'] else [c] := by
  induction cs with
  | nil => rfl
  | cons c cs ih =>
    by_cases hback : c = '\\' <;> by_cases hquote : c = '"' <;>
      simp_all [escapeChars, List.flatMap_cons]

/-! ## Keys -/

theorem propertyKey_of_quotes (h : needsQuotes name = true) :
    propertyKey name = "\"" ++ escape name ++ "\"" := if_pos h

theorem propertyKey_of_plain (h : needsQuotes name = false) : propertyKey name = name := by
  simp [propertyKey, h]

/-- With quotes a name is longer than before. -/
theorem propertyKey_eq_self_iff : propertyKey name = name ↔ IsIdentifier name := by
  rw [← needsQuotes_eq_false_iff_isIdentifier]
  refine ⟨fun hself => ?_, propertyKey_of_plain⟩
  rw [Bool.eq_false_iff]
  intro hquotes
  rw [propertyKey_of_quotes hquotes] at hself
  have hlength : (escapeChars name.toList).length + 2 = name.toList.length := by
    simpa [escape] using congrArg (fun s : String => s.toList.length) hself
  have hle := (sublist_escapeChars name.toList).length_le
  omega

/-- The name in the key that a text begins with, and what follows the key. -/
def cutKey : List Char → Option (List Char × List Char)
  | '"' :: cs => (Tag.cutValue cs).map fun (body, rest) => ((pieces body).map Piece.char, rest)
  | cs => some (cs.takeWhile isKeyPart, cs.dropWhile isKeyPart)

/-- The name in the key that a text begins with. -/
def readKey? (text : String) : Option String :=
  (cutKey text.toList).map fun (name, _) => String.ofList name

theorem cutKey_identifier (h : needsQuotes name = false)
    (hrest : ∀ c ∈ rest.head?, isKeyPart c = false) :
    cutKey (name.toList ++ rest) = some (name.toList, rest) := by
  obtain ⟨c, cs, hcs, hstart⟩ := exists_keyStart h
  have hquote : c ≠ '"' := by
    rintro rfl
    exact absurd hstart (by decide)
  have hcut : cutKey (name.toList ++ rest) = some
      ((name.toList ++ rest).takeWhile isKeyPart, (name.toList ++ rest).dropWhile isKeyPart) := by
    rw [hcs, List.cons_append]
    unfold cutKey
    split
    · next heq => exact (hquote (List.cons.inj heq).1).elim
    · rfl
  have hparts := isKeyPart_of_mem h
  have hstop : rest.takeWhile isKeyPart = [] ∧ rest.dropWhile isKeyPart = rest := by
    cases rest with
    | nil => exact ⟨rfl, rfl⟩
    | cons d rest => simp [hrest d rfl]
  rw [hcut, List.takeWhile_append_of_pos hparts, List.dropWhile_append_of_pos hparts, hstop.1,
    hstop.2, List.append_nil]

theorem cutKey_quoted (name : String) (rest : List Char) :
    cutKey (("\"" ++ escape name ++ "\"").toList ++ rest) = some (name.toList, rest) := by
  have htext : ("\"" ++ escape name ++ "\"").toList ++ rest =
      '"' :: (escapeChars name.toList ++ '"' :: rest) := by
    simp [escape]
  rw [htext]
  simp [cutKey, Tag.cutValue_escapeChars, pieces_escapeChars, Function.comp_def]

/-- A key is cut off where it ends: an identifier goes on as long as it can, and whatever follows
the closing quote is no part of the name. -/
theorem cutKey_propertyKey (name : String) (hrest : ∀ c ∈ rest.head?, isKeyPart c = false) :
    cutKey ((propertyKey name).toList ++ rest) = some (name.toList, rest) := by
  cases h : needsQuotes name with
  | false =>
    rw [propertyKey_of_plain h]
    exact cutKey_identifier h hrest
  | true =>
    rw [propertyKey_of_quotes h]
    exact cutKey_quoted name rest

theorem propertyKey_injective : Function.Injective propertyKey := by
  intro name other h
  have hread (name : String) : cutKey ((propertyKey name).toList ++ []) = some (name.toList, []) :=
    cutKey_propertyKey name (by simp)
  have hname := hread name
  rw [h, hread other] at hname
  exact (String.toList_inj.1 (Prod.ext_iff.1 (Option.some.inj hname)).1).symm

end Text

namespace Property

open Text

theorem readKey?_render (scope : Scope) (p : Property Descriptor) :
    readKey? (p.render scope) = some p.name := by
  let rest := (if p.optional then "?" else "") ++ ": " ++ (p.type.typeText scope).text
  have htext : p.render scope = propertyKey p.name ++ rest := by
    simp only [rest, render, text, String.append_assoc]
    rfl
  have hstop : ∀ c ∈ rest.toList.head?, isKeyPart c = false := by
    cases h : p.optional <;> simp [rest, h] <;> decide
  rw [readKey?, htext, String.toList_append, cutKey_propertyKey p.name hstop]
  simp

/-- A key is the name itself just where that is an identifier, and otherwise quoted text in which
the quotes and backslashes of the name are escaped once each and nothing else is. Names differ where
their keys do, and the text of a property says its name. -/
theorem key_reads_back (name other : String) :
    (propertyKey name = name ↔ IsIdentifier name) ∧
    (propertyKey name = name ∨
      ∃ body, propertyKey name = "\"" ++ body ++ "\"" ∧ Spells body name) ∧
    (propertyKey name = propertyKey other ↔ name = other) ∧
    ∀ (scope : Scope) (p : Property Descriptor), readKey? (p.render scope) = some p.name := by
  refine ⟨propertyKey_eq_self_iff, ?_, propertyKey_injective.eq_iff, readKey?_render⟩
  cases h : needsQuotes name with
  | false => exact .inl (propertyKey_of_plain h)
  | true => exact .inr ⟨escape name, propertyKey_of_quotes h, spells_iff.2 rfl⟩

/-- A name with quotes that ends in a backslash. -/
example : propertyKey "say \"hi\" \\" = "\"say \\\"hi\\\" \\\\\"" := by decide

end Property

end ClientTypes

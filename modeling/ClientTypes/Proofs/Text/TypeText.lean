import ClientTypes.Proofs.Text.PropertyKey

/-!
# The text of types

What the text of a type begins with and what it ends in, as far as it says whether the type is a
function and whether the value may be absent.

## Main definitions

* `Text.startsCall` — the text begins as that of a function does
* `Text.EndsInNull` — the text ends in the alternative for an absent value
* `Text.IsTypeText` — what the text of every type has in common
* `Text.IsAtom` — the text of a type that is neither an array nor a function
-/

namespace ClientTypes.Text

variable {word : String} {cs front tail rest : List Char} {c : Char}

theorem Bindable.needsQuotes_eq_false (h : Bindable word) : needsQuotes word = false :=
  needsQuotes_eq_false_iff_isIdentifier.2 ⟨fun c hc => (h.parts c hc).imp_right .inl, h.start⟩

/-- The text goes on as a list of parameters may do: with a word that has a colon behind it, or with
the end of the list. -/
def startsParams (cs : List Char) : Bool :=
  match cs.dropWhile isKeyPart with
  | ':' :: _ | ')' :: _ => true
  | _ => false

/-- The text begins as that of a function does. -/
def startsCall : List Char → Bool
  | '(' :: cs => startsParams cs
  | _ => false

theorem startsParams_append (h : ∀ c ∈ cs, isKeyPart c) :
    startsParams (cs ++ rest) = startsParams rest := by
  simp only [startsParams, List.dropWhile_append_of_pos h]

/-- The text of a type begins with a letter or opens a parenthesis or brace. In front of what begins
no list of parameters it begins none either. -/
structure IsTypeText (cs : List Char) : Prop where
  head : ∃ c rest, cs = c :: rest ∧ (isKeyStart c ∨ c = '(' ∨ c = '\x7b')
  quiet : ∀ rest, startsParams rest = false → startsParams (cs ++ rest) = false

theorem isTypeText_open (h : c = '(' ∨ c = '\x7b') : IsTypeText (c :: cs) := by
  refine ⟨⟨c, cs, rfl, .inr h⟩, fun rest _ => ?_⟩
  rcases h with rfl | rfl <;> rfl

/-- More text behind that of a type, such as brackets or an alternative. -/
theorem IsTypeText.append (h : IsTypeText cs)
    (htail : ∀ rest, startsParams (tail ++ rest) = false) : IsTypeText (cs ++ tail) := by
  obtain ⟨⟨c, rest, hcs, hc⟩, hquiet⟩ := h
  refine ⟨⟨c, rest ++ tail, by rw [hcs]; rfl, hc⟩, fun rest _ => ?_⟩
  rw [List.append_assoc]
  exact hquiet _ (htail rest)

/-- The text ends in the alternative for an absent value. -/
def EndsInNull (cs : List Char) : Prop := " | null".toList <:+ cs

theorem not_endsInNull_append (hlast : tail.getLast? = some c) (hc : c ≠ 'l') :
    ¬ EndsInNull (cs ++ tail) := by
  rintro ⟨front, hfront⟩
  have hlast' : (cs ++ tail).getLast? = some 'l' := by simp [← hfront]
  rw [List.getLast?_append, hlast] at hlast'
  exact hc (Option.some.inj hlast')

theorem EndsInNull.mem_space (h : EndsInNull cs) : ' ' ∈ cs := h.subset (by decide)

/-- Behind an arrow the alternative stands in the text of the result: it does not begin inside the
arrow, as no type begins with a bar. -/
theorem EndsInNull.of_append_arrow (hcs : IsTypeText cs)
    (h : EndsInNull (front ++ ") => ".toList ++ cs)) : EndsInNull cs := by
  obtain ⟨c, rest, rfl, hhead⟩ := hcs.head
  have hc : '|' ≠ c := by
    rintro rfl
    exact absurd hhead (by decide)
  unfold EndsInNull at h ⊢
  rw [← List.reverse_prefix] at h ⊢
  simp only [List.reverse_append, List.reverse_cons] at h ⊢
  generalize rest.reverse = back at h ⊢
  -- with fewer than seven characters in the result, the alternative would begin in the arrow
  match back with
  | [] | [_] | [_, _] | [_, _, _] | [_, _, _, _] => simp at h
  | [_, _, _, _, _] => simp [hc] at h
  | [_, _, _, _, _, _] | _ :: _ :: _ :: _ :: _ :: _ :: _ :: _ => simpa using h

/-- An identifier, or two with a dot between them. -/
inductive IsName : String → Prop
  | word {word : String} : needsQuotes word = false → IsName word
  | dotted {front word : String} :
      needsQuotes front = false → needsQuotes word = false → IsName (front ++ "." ++ word)

namespace IsName

theorem head (h : IsName word) : ∃ c cs, word.toList = c :: cs ∧ isKeyStart c := by
  cases h with
  | word h => exact exists_keyStart h
  | dotted h _ =>
    obtain ⟨c, cs, hcs, hc⟩ := exists_keyStart h
    exact ⟨c, _, by simp only [String.toList_append, hcs]; rfl, hc⟩

theorem isTypeText (h : IsName word) : IsTypeText word.toList := by
  obtain ⟨c, cs, hcs, hc⟩ := h.head
  refine ⟨⟨c, cs, hcs, .inl hc⟩, fun rest hrest => ?_⟩
  cases h with
  | word h =>
    rw [startsParams_append (isKeyPart_of_mem h)]
    exact hrest
  | dotted h _ =>
    simp only [String.toList_append, List.append_assoc]
    rw [startsParams_append (isKeyPart_of_mem h)]
    rfl

theorem startsCall_eq_false (h : IsName word) : startsCall (word.toList ++ rest) = false := by
  obtain ⟨c, cs, hcs, hc⟩ := h.head
  rw [hcs, List.cons_append]
  unfold startsCall
  split
  · next heq =>
    obtain ⟨rfl, -⟩ := List.cons.inj heq
    exact absurd hc (by decide)
  · rfl

theorem not_endsInNull (h : IsName word) : ¬ EndsInNull word.toList := by
  intro hnull
  have hspace {v : String} (hv : needsQuotes v = false) : ' ' ∉ v.toList :=
    fun hmem => absurd (isKeyPart_of_mem hv ' ' hmem) (by decide)
  cases h with
  | word h => exact hspace h hnull.mem_space
  | dotted h h' => simpa [hspace h, hspace h'] using hnull.mem_space

end IsName

/-- The text of a type that is neither an array nor a function. It does not begin as the text of a
function does, and does not end in the alternative. -/
structure IsAtom (cs : List Char) : Prop where
  isTypeText : IsTypeText cs
  startsCall_eq_false : ∀ rest, startsCall (cs ++ rest) = false
  not_endsInNull : ¬ EndsInNull cs

theorem IsName.isAtom (h : IsName word) : IsAtom word.toList :=
  ⟨h.isTypeText, fun _ => h.startsCall_eq_false, h.not_endsInNull⟩

theorem isAtom_braces (cs : List Char) : IsAtom ('\x7b' :: cs ++ ['\x7d']) where
  isTypeText := isTypeText_open (.inr rfl)
  startsCall_eq_false _ := rfl
  not_endsInNull := not_endsInNull_append rfl (by decide)

theorem isAtom_record (cs : List Char) : IsAtom ("Record<".toList ++ cs ++ ['>']) where
  isTypeText := ⟨⟨'R', _, rfl, .inl (by decide)⟩, fun _ _ => rfl⟩
  startsCall_eq_false _ := rfl
  not_endsInNull := not_endsInNull_append rfl (by decide)

end ClientTypes.Text

import ClientTypes.Text.Identifier
import ClientTypes.Text.Split

/-!
# Words that an import may bind

Sanitized text is always such a word, and stays one with a number behind it. A reserved word
neither starts with an underscore nor has digits, so that either of these is enough to leave them.
Of text without capitals no capitals are made.

## Main definitions

* `Text.Bindable` — an ASCII identifier that is no reserved word
* `Text.Lowered` — text without capitals

The main statements are `bindable_sanitize` and `Bindable.number`.
-/

namespace ClientTypes.Text

/-- Text with different numbers behind it is different. -/
theorem append_toString_injective (base : String) :
    Function.Injective fun n : Nat => base ++ toString n := by
  intro m n h
  have hdigits : Nat.toDigits 10 m = Nat.toDigits 10 n := by
    simpa [String.ext_iff, Nat.toString_eq_repr] using h
  have hread := congrArg (Nat.ofDigitChars 10 · 0) hdigits
  simpa using hread

theorem append_toString_ne (base : String) (n : Nat) : base ++ toString n ≠ base := by
  simp [Nat.toString_eq_repr]

/-- An identifier of ASCII letters, digits and underscores that is not empty, does not start with a
digit and is no reserved word. -/
structure Bindable (word : String) : Prop where
  parts : ∀ c ∈ word.toList, c.isAlphanum = true ∨ c = '_'
  start : ∃ c, word.toList.head? = some c ∧ c.isDigit = false
  unreserved : word ∉ reservedWords

theorem head?_ne_underscore_of_reserved :
    ∀ word ∈ reservedWords, word.toList.head? ≠ some '_' := by
  decide

theorem isDigit_eq_false_of_reserved :
    ∀ word ∈ reservedWords, ∀ c ∈ word.toList, c.isDigit = false := by
  have hall : (reservedWords.all fun word => word.toList.all (!·.isDigit)) = true := by decide
  simpa using hall

/-- The word for text with nothing in it. -/
theorem bindable_nameless : Bindable "_empty" := by
  refine ⟨?_, ⟨'_', rfl, by decide⟩, by decide⟩
  have hall : ("_empty".toList.all fun c => c.isAlphanum || c == '_') = true := by decide
  simpa only [List.all_eq_true, Bool.or_eq_true, beq_iff_eq] using hall

/-- With an underscore in front, a word that may be reserved is none. -/
theorem bindable_escape {word : String}
    (hparts : ∀ c ∈ word.toList, c.isAlphanum = true ∨ c = '_')
    (hstart : ∃ c, word.toList.head? = some c ∧ c.isDigit = false) :
    Bindable (if word ∈ reservedWords then "_" ++ word else word) := by
  split
  · have htoList : ("_" ++ word).toList = '_' :: word.toList := by simp
    refine ⟨fun c hc => ?_, ⟨'_', by rw [htoList]; rfl, by decide⟩, fun hmem => ?_⟩
    · rw [htoList] at hc
      rcases List.mem_cons.1 hc with rfl | hc
      · exact .inr rfl
      · exact hparts c hc
    · exact head?_ne_underscore_of_reserved _ hmem (by rw [htoList]; rfl)
  · next hword => exact ⟨hparts, hstart, hword⟩

theorem bindable_sanitize (text : String) : Bindable (sanitize text) := by
  have hmapped : ∀ c ∈ text.toList.map (fun c => if c.isAlphanum then c else '_'),
      c.isAlphanum = true ∨ c = '_' := by
    intro c hc
    obtain ⟨d, -, rfl⟩ := List.mem_map.1 hc
    by_cases hd : d.isAlphanum
    · exact .inl (by simp [hd])
    · exact .inr (by simp [hd])
  unfold sanitize
  split
  · exact bindable_nameless
  · next c cs hcs =>
    rw [hcs] at hmapped
    refine bindable_escape ?_ ?_
    · intro d hd
      rw [String.toList_ofList] at hd
      split at hd
      · rcases List.mem_cons.1 hd with rfl | hd
        · exact .inr rfl
        · exact hmapped d hd
      · exact hmapped d hd
    · rw [String.toList_ofList]
      split
      · exact ⟨'_', rfl, by decide⟩
      · next hc => exact ⟨c, rfl, by simpa using hc⟩

theorem Bindable.number {word : String} (h : Bindable word) (n : Nat) :
    Bindable (word ++ toString n) := by
  have htoList : (word ++ toString n).toList = word.toList ++ Nat.toDigits 10 n := by
    simp [Nat.toString_eq_repr]
  have hdigits : ∀ c ∈ Nat.toDigits 10 n, c.isDigit = true :=
    fun c hc => Nat.isDigit_of_mem_toDigits (by decide) (by decide) hc
  refine ⟨fun c hc => ?_, ?_, fun hmem => ?_⟩
  · rw [htoList] at hc
    rcases List.mem_append.1 hc with hc | hc
    · exact h.parts c hc
    · exact .inl (by simp [Char.isAlphanum, hdigits c hc])
  · obtain ⟨c, hc, hdigit⟩ := h.start
    exact ⟨c, by rw [htoList, List.head?_append, hc]; rfl, hdigit⟩
  · obtain ⟨c, hc⟩ := List.exists_mem_of_ne_nil _ (Nat.toDigits_ne_nil (b := 10) (n := n))
    have hreserved := isDigit_eq_false_of_reserved _ hmem c (by rw [htoList]; simp [hc])
    rw [hdigits c hc] at hreserved
    simp at hreserved

/-! ## Capitals -/

/-- None of the characters is a capital letter. -/
def Lowered (text : String) : Prop := ∀ c ∈ text.toList, c.isUpper = false

instance (text : String) : Decidable (Lowered text) :=
  List.decidableBAll (fun c : Char => c.isUpper = false) text.toList

theorem isUpper_eq_false_of_isDigit {c : Char} (h : c.isDigit = true) : c.isUpper = false := by
  have hdigit : c.val ≤ '9'.val := of_decide_eq_true (Bool.and_eq_true_iff.1 h).2
  refine decide_eq_false fun ⟨hcapital, _⟩ => ?_
  exact absurd (UInt32.le_trans hcapital hdigit) (by decide)

theorem Lowered.append {word word' : String} (h : Lowered word) (h' : Lowered word') :
    Lowered (word ++ word') := by
  intro c hc
  rw [String.toList_append] at hc
  exact (List.mem_append.1 hc).elim (h c) (h' c)

theorem Lowered.number {word : String} (h : Lowered word) (n : Nat) :
    Lowered (word ++ toString n) := by
  refine h.append fun c hc => ?_
  have hdigit : c ∈ Nat.toDigits 10 n := by simpa [Nat.toString_eq_repr] using hc
  exact isUpper_eq_false_of_isDigit (Nat.isDigit_of_mem_toDigits (by decide) (by decide) hdigit)

theorem Lowered.escape {word : String} (h : Lowered word) :
    Lowered (if word ∈ reservedWords then "_" ++ word else word) := by
  split
  · exact .append (by decide) h
  · exact h

theorem Lowered.sanitize {text : String} (h : Lowered text) : Lowered (sanitize text) := by
  have hmapped : ∀ c ∈ text.toList.map (fun c => if c.isAlphanum then c else '_'),
      c.isUpper = false := by
    intro c hc
    obtain ⟨d, hd, rfl⟩ := List.mem_map.1 hc
    split
    · exact h d hd
    · rfl
  unfold Text.sanitize
  split
  · decide
  · next c cs hcs =>
    rw [hcs] at hmapped
    refine .escape fun d hd => ?_
    rw [String.toList_ofList] at hd
    split at hd
    · rcases List.mem_cons.1 hd with rfl | hd
      · rfl
      · exact hmapped d hd
    · exact hmapped d hd

/-- The pieces have no characters but those of what was cut. -/
theorem mem_of_mem_split {sep c : Char} {cs piece : List Char} (hpiece : piece ∈ split sep cs)
    (hc : c ∈ piece) : c ∈ cs := by
  fun_induction split sep cs generalizing piece with
  | case1 => simp_all
  | case2 cs ih =>
    rcases List.mem_cons.1 hpiece with rfl | hpiece
    · simp at hc
    · exact List.mem_cons_of_mem _ (ih hpiece hc)
  | case3 d cs hd hnil ih => exact (split_ne_nil sep cs hnil).elim
  | case4 d cs hd first pieces hsplit ih =>
    rcases List.mem_cons.1 hpiece with rfl | hpiece
    · rcases List.mem_cons.1 hc with rfl | hc
      · exact List.mem_cons_self
      · exact List.mem_cons_of_mem _ (ih (hsplit ▸ List.mem_cons_self) hc)
    · exact List.mem_cons_of_mem _ (ih (hsplit ▸ List.mem_cons_of_mem _ hpiece) hc)

theorem Lowered.of_mem_segments {path word : String} (h : Lowered path)
    (hword : word ∈ segments path) : Lowered word := by
  obtain ⟨piece, hpiece, rfl⟩ := List.mem_map.1 hword
  intro c hc
  rw [String.toList_ofList] at hc
  exact h c (mem_of_mem_split (List.mem_filter.1 hpiece).1 hc)

theorem Lowered.intercalate {sep : String} {words : List String} (hsep : Lowered sep)
    (h : ∀ word ∈ words, Lowered word) : Lowered (sep.intercalate words) := by
  induction words with
  | nil => simp [Lowered]
  | cons word words ih =>
    cases words with
    | nil => simpa using h
    | cons next words =>
      rw [String.intercalate_cons_cons]
      exact ((h word List.mem_cons_self).append hsep).append
        (ih fun word hword => h word (List.mem_cons_of_mem _ hword))

end ClientTypes.Text

import ClientTypes.Text.Identifier

/-!
# Names that differ in case

Exported and wire spellings change the case at the head of a name and keep the rest. So two names
have one spelling if and only if they are the same behind the head of one of them, and the other has
the letters there that this head becomes. Of names that begin with a small letter each has spellings
of its own.

## Main definitions

* `Text.SameInitial` — names that agree but for the case of their first letters
* `Text.SameLeading` — names that agree but for the case of their leading capitals

The main statements are `capitalize_eq_iff` and `lowerLeading_eq_iff`.
-/

namespace ClientTypes.Text

variable {a b : String} {c d : Char} {cs run rest : List Char}

/-! ## First letters -/

/-- The names agree but for the case of their first letters. A letter whose capital is written with
several letters agrees with these, or with the first of them and the others behind it. -/
def SameInitial (a b : String) : Prop :=
  ∃ c d more rest, upper c = upper d ++ more ∧ a.toList = c :: rest ∧
    b.toList = d :: (more ++ rest)

theorem exists_toList_eq_cons (h : a ≠ "") : ∃ c cs, a.toList = c :: cs :=
  List.exists_cons_of_ne_nil fun hnil => h (String.toList_eq_nil_iff.1 hnil)

theorem capitalize_of_toList (h : a.toList = c :: cs) :
    capitalize a = String.ofList (upper c ++ cs) := by
  simp only [capitalize, h]

theorem SameInitial.capitalize_eq (h : SameInitial a b) : capitalize a = capitalize b := by
  obtain ⟨c, d, more, rest, hupper, ha, hb⟩ := h
  rw [capitalize_of_toList ha, capitalize_of_toList hb, hupper, List.append_assoc]

/-- Two names have the same exported spelling if and only if they agree but for the case of their
first letters. -/
theorem capitalize_eq_iff (ha : a ≠ "") (hb : b ≠ "") :
    capitalize a = capitalize b ↔ SameInitial a b ∨ SameInitial b a := by
  refine ⟨fun h => ?_, fun h => h.elim (·.capitalize_eq) (·.capitalize_eq.symm)⟩
  obtain ⟨c, cs, ha⟩ := exists_toList_eq_cons ha
  obtain ⟨d, ds, hb⟩ := exists_toList_eq_cons hb
  rw [capitalize_of_toList ha, capitalize_of_toList hb, String.ofList_inj,
    List.append_eq_append_iff] at h
  obtain ⟨more, hupper, hrest⟩ | ⟨more, hupper, hrest⟩ := h
  · exact .inr ⟨d, c, more, ds, hupper, hb, by rw [ha, hrest]⟩
  · exact .inl ⟨c, d, more, cs, hupper, ha, by rw [hb, hrest]⟩

/-! ## Leading capitals -/

/-- The name has leading capitals, which are lowered in its wire spelling, and a rest. -/
structure LeadingRun (name : String) (run rest : List Char) : Prop where
  toList : name.toList = run ++ rest
  length : leadingCapitals name.toList = run.length

theorem leadingCapitals_le (cs : List Char) : leadingCapitals cs ≤ cs.length := by
  have := (List.takeWhile_sublist (p := isUppercase) (l := cs)).length_le
  simp only [leadingCapitals]
  split <;> omega

theorem exists_leadingRun (name : String) : ∃ run rest, LeadingRun name run rest :=
  ⟨_, _, (List.take_append_drop (leadingCapitals name.toList) _).symm,
    (List.length_take_of_le (leadingCapitals_le _)).symm⟩

theorem LeadingRun.lowerLeading_eq (h : LeadingRun a run rest) :
    lowerLeading a = String.ofList (run.flatMap lower ++ rest) := by
  simp only [lowerLeading, h.length]
  rw [h.toList, List.take_left, List.drop_left]

/-- The names agree but for the case of their leading capitals: those of `a` become in lower case
what those of `b` become, and what `b` has behind them. -/
def SameLeading (a b : String) : Prop :=
  ∃ run run' more rest, run.flatMap lower = run'.flatMap lower ++ more ∧ LeadingRun a run rest ∧
    LeadingRun b run' (more ++ rest)

theorem SameLeading.lowerLeading_eq (h : SameLeading a b) : lowerLeading a = lowerLeading b := by
  obtain ⟨run, run', more, rest, hlower, ha, hb⟩ := h
  rw [ha.lowerLeading_eq, hb.lowerLeading_eq, hlower, List.append_assoc]

/-- Two names have the same wire spelling if and only if they agree but for the case of their
leading capitals. -/
theorem lowerLeading_eq_iff :
    lowerLeading a = lowerLeading b ↔ SameLeading a b ∨ SameLeading b a := by
  refine ⟨fun h => ?_, fun h => h.elim (·.lowerLeading_eq) (·.lowerLeading_eq.symm)⟩
  obtain ⟨run, rest, ha⟩ := exists_leadingRun a
  obtain ⟨run', rest', hb⟩ := exists_leadingRun b
  rw [ha.lowerLeading_eq, hb.lowerLeading_eq, String.ofList_inj, List.append_eq_append_iff] at h
  obtain ⟨more, hlower, rfl⟩ | ⟨more, hlower, rfl⟩ := h
  · exact .inr ⟨run', run, more, rest', hlower, hb, ha⟩
  · exact .inl ⟨run, run', more, rest, hlower, ha, hb⟩

/-! ## Small letters -/

/-- The name begins with a small letter from `a` to `z`. -/
def startsSmall (name : String) : Bool := name.toList.head?.any (·.isLower)

theorem startsSmall_of_toList (h : a.toList = c :: cs) : startsSmall a = c.isLower := by
  simp [startsSmall, h]

theorem ne_empty_of_startsSmall (h : startsSmall a) : a ≠ "" := by
  rintro rfl
  simp [startsSmall] at h

/-- The small letters in order. -/
def smallLetter (i : Fin 26) : Char := Char.ofNat (97 + i)

theorem exists_smallLetter (h : c.isLower) : ∃ i, c = smallLetter i := by
  obtain ⟨hge, hle⟩ := Bool.and_eq_true_iff.1 h
  have hrange : 97 ≤ c.toNat ∧ c.toNat ≤ 122 :=
    ⟨UInt32.le_iff_toNat_le.1 (of_decide_eq_true hge),
      UInt32.le_iff_toNat_le.1 (of_decide_eq_true hle)⟩
  refine ⟨⟨c.toNat - 97, by omega⟩, ?_⟩
  rw [smallLetter, Nat.add_sub_of_le hrange.1, Char.ofNat_toNat]

theorem upper_smallLetter : ∀ i, upper (smallLetter i) = [Char.ofNat (65 + i)] := by decide

theorem isUppercase_smallLetter : ∀ i, isUppercase (smallLetter i) = false := by decide

theorem capital_injective : ∀ i j : Fin 26, Char.ofNat (65 + i) = Char.ofNat (65 + j) → i = j := by
  decide

/-- Names with small letters in front do not agree but for the case of these. -/
theorem SameInitial.eq_of_startsSmall (h : SameInitial a b) (ha : startsSmall a)
    (hb : startsSmall b) : a = b := by
  obtain ⟨c, d, more, rest, hupper, hca, hdb⟩ := h
  obtain ⟨i, rfl⟩ := exists_smallLetter (startsSmall_of_toList hca ▸ ha)
  obtain ⟨j, rfl⟩ := exists_smallLetter (startsSmall_of_toList hdb ▸ hb)
  rw [upper_smallLetter, upper_smallLetter, List.singleton_append] at hupper
  obtain ⟨hcapital, hmore⟩ := List.cons.inj hupper
  rw [← String.toList_inj, hca, hdb, capital_injective i j hcapital, ← hmore, List.nil_append]

/-- A name with a small letter in front has no leading capitals. -/
theorem LeadingRun.eq_nil_of_startsSmall (h : LeadingRun a run rest) (ha : startsSmall a) :
    run = [] := by
  obtain ⟨c, cs, hcs⟩ := exists_toList_eq_cons (ne_empty_of_startsSmall ha)
  obtain ⟨i, rfl⟩ := exists_smallLetter (startsSmall_of_toList hcs ▸ ha)
  have hlength := h.length
  simp only [hcs, leadingCapitals, List.takeWhile_cons, isUppercase_smallLetter] at hlength
  exact List.length_eq_zero_iff.1 (by simpa using hlength.symm)

theorem SameLeading.eq_of_startsSmall (h : SameLeading a b) (ha : startsSmall a)
    (hb : startsSmall b) : a = b := by
  obtain ⟨run, run', more, rest, hlower, hrun, hrun'⟩ := h
  obtain rfl := hrun.eq_nil_of_startsSmall ha
  obtain rfl := hrun'.eq_nil_of_startsSmall hb
  obtain rfl : more = [] := by simpa using hlower.symm
  rw [← String.toList_inj, hrun.toList, hrun'.toList]
  rfl

end ClientTypes.Text

import ClientTypes.Proofs.Descriptor.Writes
import ClientTypes.Proofs.Namespace.Aliases
import ClientTypes.Proofs.Text.TypeText

/-!
# Absent values in rendered text

That a value may be absent is written as an alternative behind its text. The text of a function ends
in that of its result, so the alternative of the result and that of the function itself stand at the
same place, and nothing tells them apart. This is the only way in which it is not seen from the text
whether a value may be absent: no other text that ends in the alternative is without one of its own,
and only the text of a function begins as that of a function does.

## Main definitions

* `Descriptor.WellNamed` — the names in a descriptor are identifiers
* `Descriptor.Trailing` — the text of the descriptor ends in the alternative
* `Descriptor.Mistakable` — two functions of which one may be absent and the other's result may be

The main statement is `Descriptor.nullable_eq_or_mistakable`.
-/

namespace ClientTypes

/-! ## Scopes and names -/

/-- A scope without aliases, or with those that are assigned to a collection of namespaces. -/
inductive Scope.Regular : Scope → Prop
  | bare (ns : String) : Regular { ns := ns }
  | assigned (ns : String) (namespaces : List String) :
      Regular { ns := ns, aliases := .assign namespaces }

theorem Scope.Regular.bindable_qualifier {scope : Scope} (h : scope.Regular) (ns : String) :
    Text.Bindable (scope.qualifier ns) := by
  unfold qualifier
  cases halias : scope.aliases.get? ns with
  | none => exact Text.bindable_sanitize _
  | some word =>
    cases h with
    | bare => simp [NamespaceAliases.get?] at halias
    | assigned ns' namespaces => exact NamespaceAliases.bindable_of_get?_assign halias

theorem Scope.Regular.isName {scope : Scope} (h : scope.Regular) {q : QName}
    (hq : Text.needsQuotes q.name = false) : Text.IsName (scope.name q) := by
  unfold name
  split
  · exact .word hq
  · exact .dotted (h.bindable_qualifier q.ns).needsQuotes_eq_false hq

/-- The names of a layer that are written as they are: those of definitions, of methods and of
parameters. A result is written without its name, and the name of a property in quotes if need
be. -/
def Shape.words {δ : Type} : Shape δ → List String
  | .opaqueType (some q) | .named q => [q.name]
  | .interface ms => ms.flatMap fun m => m.name :: m.call.params.map (·.name)
  | .function c => c.params.map (·.name)
  | .builtin _ | .native _ | .opaqueType none | .array _ | .map _ _ | .object _ => []

@[simp] theorem Shape.words_mapParts {δ ε : Type} (f : δ → ε) (s : Shape δ) :
    (s.mapParts f).words = s.words := by
  cases s with
  | opaqueType name => cases name <;> rfl
  | interface ms =>
    simp [mapParts, words, MethodShape.map, CallShape.map, Param.map, List.flatMap_map,
      Function.comp_def]
  | function c => simp [mapParts, words, CallShape.map, Param.map, Function.comp_def]
  | _ => rfl

namespace Descriptor

variable {scope : Scope} {d e : Descriptor}

/-- The names that are written as they are, at any depth. -/
def words (d : Descriptor) : List String := d.fold fun s _ => s.words ++ s.parts.flatten

theorem words_eq (d : Descriptor) : d.words = d.shape.words ++ d.parts.flatMap words := by
  rw [words, fold_eq]
  simp only [Shape.words_mapParts, Shape.parts_mapParts]
  rfl

/-- The names in the descriptor that are written as they are, are identifiers. -/
def WellNamed (d : Descriptor) : Prop := ∀ word ∈ d.words, Text.needsQuotes word = false

instance (d : Descriptor) : Decidable d.WellNamed :=
  inferInstanceAs (Decidable (∀ word ∈ d.words, Text.needsQuotes word = false))

theorem wellNamed_iff : d.WellNamed ↔
    (∀ word ∈ d.shape.words, Text.needsQuotes word = false) ∧ ∀ c ∈ d.parts, c.WellNamed := by
  unfold WellNamed
  rw [words_eq]
  simp only [List.mem_append, List.mem_flatMap]
  exact ⟨fun h => ⟨fun w hw => h w (.inl hw), fun c hc w hw => h w (.inr ⟨c, hc, hw⟩)⟩,
    fun h w hw => hw.elim (h.1 w) fun ⟨c, hc, hw⟩ => h.2 c hc w hw⟩

end Descriptor

/-! ## The text of a layer -/

theorem Builtin.isName_text (b : Builtin) : Text.IsName b.text := by
  cases b <;> exact .word (by decide)

theorem Native.isName_text (n : Native) : Text.IsName n.text := by
  cases n <;> exact .word (by decide)

/-- The text of a shape in a scope. -/
def Shape.render (scope : Scope) (s : Shape Descriptor) : String :=
  (s.mapParts (·.typeText scope)).text scope

/-- The descriptor is written with an alternative of its own. -/
def Descriptor.hasAlternative (d : Descriptor) : Bool := d.nullable && !d.shape.isBareOpaque

theorem Descriptor.render_eq (scope : Scope) (d : Descriptor) : d.render scope =
    if d.hasAlternative then d.shape.render scope ++ " | null" else d.shape.render scope := by
  rw [render, typeText, fold_eq]
  simp only [Shape.typeText, Shape.isBareOpaque_mapParts]
  rfl

theorem Descriptor.render_of_alternative (scope : Scope) {d : Descriptor}
    (h : d.hasAlternative = true) : d.render scope = d.shape.render scope ++ " | null" := by
  rw [render_eq, if_pos h]

theorem Descriptor.render_of_no_alternative (scope : Scope) {d : Descriptor}
    (h : d.hasAlternative = false) : d.render scope = d.shape.render scope := by
  simp [render_eq, h]

namespace Shape

variable {scope : Scope} {s : Shape Descriptor}

theorem render_array (scope : Scope) (e : Descriptor) : (array e).render scope =
    if e.shape.isFunction || e.hasAlternative then "(" ++ e.render scope ++ ")[]"
    else e.render scope ++ "[]" := by
  simp only [render, mapParts, text, Descriptor.compound_typeText]
  rfl

theorem render_function (scope : Scope) (c : CallShape Descriptor) : (function c).render scope =
    "(" ++ (c.map (·.typeText scope)).paramsText ++ ") => " ++
      (c.map (·.typeText scope)).resultsText := rfl

/-- All but arrays and functions. -/
theorem isAtom_render (hscope : scope.Regular)
    (hwords : ∀ word ∈ s.words, Text.needsQuotes word = false)
    (harray : ∀ e, s ≠ .array e) (hfunction : s.isFunction = false) :
    Text.IsAtom (s.render scope).toList := by
  cases s with
  | builtin b => exact b.isName_text.isAtom
  | native n => exact n.isName_text.isAtom
  | opaqueType name =>
    cases name with
    | none =>
      have hunknown : Text.IsName "unknown" := .word (by decide)
      exact hunknown.isAtom
    | some q => exact (hscope.isName (hwords q.name List.mem_cons_self)).isAtom
  | named q => exact (hscope.isName (hwords q.name List.mem_cons_self)).isAtom
  | array e => exact absurd rfl (harray e)
  | map k v =>
    have hrecord := Text.isAtom_record ((k.render scope ++ ", " ++ v.render scope).toList)
    simpa [render, mapParts, text, Descriptor.render] using hrecord
  | object ps =>
    cases ps with
    | nil => simpa [render, mapParts, text] using Text.isAtom_braces []
    | cons p ps =>
      have hbraces := Text.isAtom_braces (" " ++
        "; ".intercalate ((p :: ps).map (·.render scope)) ++ " ").toList
      simpa [render, mapParts, text, Property.render, Function.comp_def] using hbraces
  | interface ms =>
    have hbraces := Text.isAtom_braces (" " ++
      "; ".intercalate (ms.map (·.render scope)) ++ " ").toList
    simpa [render, mapParts, text, MethodShape.render, Function.comp_def] using hbraces
  | function c => cases hfunction

/-- The text of a function begins with a parenthesis and a list of parameters. -/
theorem startsCall_function (c : CallShape Descriptor)
    (hwords : ∀ word ∈ (function c).words, Text.needsQuotes word = false) (rest : List Char) :
    Text.startsCall (((function c).render scope).toList ++ rest) = true := by
  obtain ⟨params, results⟩ := c
  rw [render_function]
  cases params with
  | nil =>
    simp only [CallShape.map, CallShape.paramsText, List.map_nil, String.toList_append]
    rfl
  | cons p ps =>
    have hname := Text.isKeyPart_of_mem (hwords p.name List.mem_cons_self)
    have hparams : (CallShape.map (·.typeText scope) ⟨p :: ps, results⟩).paramsText =
        p.name ++ ": " ++ ", ".intercalate (p.type.render scope :: ps.map (·.render scope)) := by
      rw [← String.intercalate_cons_append, CallShape.paramsText, CallShape.map, List.map_map]
      rfl
    simp only [hparams, String.toList_append, List.append_assoc]
    exact (Text.startsParams_append hname).trans rfl

/-- Compound text in parentheses is not that of a list of parameters. -/
theorem startsParams_compound {e : Descriptor}
    (htext : Text.IsTypeText (e.shape.render scope).toList)
    (he : (e.shape.isFunction || e.hasAlternative) = true) (rest : List Char) :
    Text.startsParams ((e.render scope).toList ++ rest) = false := by
  rw [Descriptor.render_eq]
  split
  · simp only [String.toList_append, List.append_assoc]
    exact htext.quiet _ rfl
  · next halternative =>
    have hfunction : e.shape.isFunction = true := by simpa [halternative] using he
    obtain ⟨shape, nullable⟩ := e
    cases shape with
    | function c =>
      simp only [render_function, String.toList_append, List.append_assoc]
      rfl
    | _ => cases hfunction

theorem isTypeText_render (hscope : scope.Regular)
    (hwords : ∀ word ∈ s.words, Text.needsQuotes word = false)
    (hparts : ∀ c ∈ s.parts, Text.IsTypeText (c.render scope).toList) :
    Text.IsTypeText (s.render scope).toList := by
  cases s with
  | array e =>
    rw [render_array]
    split
    · simp only [String.toList_append, List.append_assoc]
      exact Text.isTypeText_open (.inl rfl)
    · rw [String.toList_append]
      exact (hparts e List.mem_cons_self).append fun _ => rfl
  | function c =>
    simp only [render_function, String.toList_append, List.append_assoc]
    exact Text.isTypeText_open (.inl rfl)
  | _ => exact (isAtom_render hscope hwords (by simp) rfl).isTypeText

end Shape

namespace Descriptor

variable {scope : Scope} {d e : Descriptor}

theorem isTypeText_render (hscope : scope.Regular) (hd : d.WellNamed) :
    Text.IsTypeText (d.shape.render scope).toList ∧ Text.IsTypeText (d.render scope).toList := by
  induction d using Descriptor.ind with
  | h d ih =>
    obtain ⟨hwords, hparts⟩ := wellNamed_iff.1 hd
    have hshape := Shape.isTypeText_render hscope hwords fun c hc => (ih c hc (hparts c hc)).2
    refine ⟨hshape, ?_⟩
    rw [render_eq]
    split
    · rw [String.toList_append]
      exact hshape.append fun _ => rfl
    · exact hshape

/-- Only the text of a function begins as that of a function does. -/
theorem startsCall_render (hscope : scope.Regular) (hd : d.WellNamed) (rest : List Char) :
    Text.startsCall ((d.shape.render scope).toList ++ rest) = d.shape.isFunction := by
  induction d using Descriptor.ind generalizing rest with
  | h d ih =>
    obtain ⟨hwords, hparts⟩ := wellNamed_iff.1 hd
    obtain ⟨shape, nullable⟩ := d
    cases shape with
    | array e =>
      have he : e.WellNamed := hparts e List.mem_cons_self
      simp only [Shape.render_array]
      split
      · next hcompound =>
        simp only [String.toList_append, List.append_assoc]
        exact Shape.startsParams_compound (isTypeText_render hscope he).1 hcompound _
      · next hcompound =>
        obtain ⟨hfunction, halternative⟩ :
            e.shape.isFunction = false ∧ e.hasAlternative = false := by
          simpa using hcompound
        have hshape := (ih e List.mem_cons_self he ("[]".toList ++ rest)).trans hfunction
        rw [render_eq, halternative, String.toList_append, List.append_assoc]
        exact hshape
    | function c => exact Shape.startsCall_function c hwords rest
    | _ => exact (Shape.isAtom_render hscope hwords (by simp) rfl).startsCall_eq_false rest

/-! ## The end of the text -/

theorem type_mem_parts {params : List (Param Descriptor)} {r : Param Descriptor}
    (hshape : d.shape = .function ⟨params, [r]⟩) : r.type ∈ d.parts := by
  rw [parts, hshape]
  exact List.mem_map_of_mem (List.mem_append_right _ List.mem_cons_self)

/-- The text of the descriptor ends in the alternative: it is its own, or it belongs to the only
result of a function. -/
inductive Trailing : Descriptor → Prop
  | own {d : Descriptor} : d.hasAlternative = true → Trailing d
  | result {params : List (Param Descriptor)} {r : Param Descriptor} {nullable : Bool} :
      r.type.Trailing → Trailing ⟨.function ⟨params, [r]⟩, nullable⟩

/-- Of the texts without an alternative of their own only that of a function may end in one. -/
theorem endsInNull_shape_iff (hscope : scope.Regular) (hd : d.WellNamed) :
    Text.EndsInNull (d.shape.render scope).toList ↔ ∃ params r,
      d.shape = .function ⟨params, [r]⟩ ∧ Text.EndsInNull (r.type.render scope).toList := by
  obtain ⟨hwords, hparts⟩ := wellNamed_iff.1 hd
  obtain ⟨shape, nullable⟩ := d
  constructor
  · intro hnull
    cases shape with
    | array e =>
      rw [Shape.render_array] at hnull
      split at hnull
      all_goals
        rw [String.toList_append] at hnull
        exact absurd hnull (Text.not_endsInNull_append rfl (by decide))
    | function c =>
      obtain ⟨params, results⟩ := c
      rw [Shape.render_function, String.toList_append, String.toList_append] at hnull
      match results with
      | [] =>
        change Text.EndsInNull (_ ++ "void".toList) at hnull
        exact absurd hnull (Text.not_endsInNull_append rfl (by decide))
      | [r] =>
        have hresult : r.type.WellNamed := hparts r.type (type_mem_parts rfl)
        exact ⟨params, r, rfl, hnull.of_append_arrow (isTypeText_render hscope hresult).2⟩
      | r :: r' :: rs =>
        change Text.EndsInNull (_ ++ ("[" ++ _ ++ "]").toList) at hnull
        simp only [String.toList_append, ← List.append_assoc] at hnull
        exact absurd hnull (Text.not_endsInNull_append rfl (by decide))
    | _ => exact absurd hnull (Shape.isAtom_render hscope hwords (by simp) rfl).not_endsInNull
  · rintro ⟨params, r, hshape, hnull⟩
    obtain rfl : shape = .function ⟨params, [r]⟩ := hshape
    rw [Shape.render_function, String.toList_append]
    exact List.suffix_append_of_suffix hnull

theorem endsInNull_render_iff (hscope : scope.Regular) (hd : d.WellNamed) :
    Text.EndsInNull (d.render scope).toList ↔ d.Trailing := by
  induction d using Descriptor.ind with
  | h d ih =>
    cases halternative : d.hasAlternative with
    | true =>
      rw [render_of_alternative scope halternative, String.toList_append]
      exact iff_of_true (List.suffix_append _ _) (.own halternative)
    | false =>
      rw [render_of_no_alternative scope halternative, endsInNull_shape_iff hscope hd]
      have hparts := (wellNamed_iff.1 hd).2
      constructor
      · rintro ⟨params, r, hshape, hnull⟩
        have hmem := type_mem_parts hshape
        have hr := (ih r.type hmem (hparts r.type hmem)).1 hnull
        obtain ⟨shape, nullable⟩ := d
        obtain rfl : shape = .function ⟨params, [r]⟩ := hshape
        exact .result hr
      · rintro (hown | @⟨params, r, nullable, hr⟩)
        · simp [hown] at halternative
        · have hmem := type_mem_parts (d := ⟨.function ⟨params, [r]⟩, nullable⟩) rfl
          exact ⟨params, r, rfl, (ih r.type hmem (hparts r.type hmem)).2 hr⟩

/-! ## Absence read off the text -/

/-- Both are functions. The first may be absent; the second may not, but the text of its only result
ends in the alternative. -/
inductive Mistakable : Descriptor → Descriptor → Prop
  | intro {c : CallShape Descriptor} {params : List (Param Descriptor)} {r : Param Descriptor} :
      r.type.Trailing → Mistakable ⟨.function c, true⟩ ⟨.function ⟨params, [r]⟩, false⟩

theorem hasAlternative_eq_nullable (hd : d ≠ bareOpaque) : d.hasAlternative = d.nullable := by
  obtain ⟨shape, nullable⟩ := d
  cases nullable with
  | false => rfl
  | true =>
    cases shape with
    | opaqueType name =>
      cases name with
      | none => exact absurd rfl hd
      | some q => rfl
    | _ => rfl

/-- What is written with an alternative looks like what may not be absent only if both are
functions. -/
theorem mistakable_of_render_eq (hscope : scope.Regular) (hd : d.WellNamed) (he : e.WellNamed)
    (halternative : d.hasAlternative = true) (hpresent : e.nullable = false)
    (h : d.render scope = e.render scope) : d.Mistakable e := by
  have hnot : e.hasAlternative = false := by simp [hasAlternative, hpresent]
  rw [render_of_alternative scope halternative, render_of_no_alternative scope hnot] at h
  have hnull : Text.EndsInNull (e.shape.render scope).toList := by
    rw [← h, String.toList_append]
    exact List.suffix_append _ _
  obtain ⟨params, r, hshape, hr⟩ := (endsInNull_shape_iff hscope he).1 hnull
  have htrailing : r.type.Trailing :=
    (endsInNull_render_iff hscope ((wellNamed_iff.1 he).2 r.type (type_mem_parts hshape))).1 hr
  -- the text of the second begins as that of a function does, so the first is a function as well
  have hcall : d.shape.isFunction = e.shape.isFunction := by
    rw [← startsCall_render hscope hd " | null".toList, ← String.toList_append, h,
      ← startsCall_render hscope he [], List.append_nil]
  obtain ⟨shape, nullable⟩ := d
  obtain ⟨shape', nullable'⟩ := e
  obtain rfl : nullable' = false := hpresent
  obtain rfl : shape' = .function ⟨params, [r]⟩ := hshape
  obtain rfl : nullable = true := (Bool.and_eq_true_iff.1 halternative).1
  cases shape with
  | function c => exact .intro htrailing
  | _ => cases hcall

/-- From the text of a descriptor it is seen whether the value may be absent, unless it is the text
of two functions that are mistaken for each other. -/
theorem nullable_eq_or_mistakable (hscope : scope.Regular) (hd : d.WellNamed) (he : e.WellNamed)
    (hd' : d ≠ bareOpaque) (he' : e ≠ bareOpaque) (h : d.render scope = e.render scope) :
    d.nullable = e.nullable ∨ d.Mistakable e ∨ e.Mistakable d := by
  cases hdn : d.nullable <;> cases hen : e.nullable
  · exact .inl rfl
  · exact .inr (.inr (mistakable_of_render_eq hscope he hd
      ((hasAlternative_eq_nullable he').trans hen) hdn h.symm))
  · exact .inr (.inl (mistakable_of_render_eq hscope hd he
      ((hasAlternative_eq_nullable hd').trans hdn) hen h))
  · exact .inl rfl

/-- A function that may be absent has the text of the function whose result may be absent in its
place. -/
theorem render_function_result (scope : Scope) (params : List (Param Descriptor)) (name : String)
    {s : Shape Descriptor} (hs : s.isBareOpaque = false) :
    render scope ⟨.function ⟨params, [⟨name, ⟨s, false⟩⟩]⟩, true⟩ =
      render scope ⟨.function ⟨params, [⟨name, ⟨s, true⟩⟩]⟩, false⟩ := by
  have hpresent : render scope ⟨s, false⟩ = s.render scope := render_of_no_alternative scope rfl
  have habsent : render scope ⟨s, true⟩ = s.render scope ++ " | null" :=
    render_of_alternative scope (by simp [hasAlternative, hs])
  have hresults (r : Param Descriptor) :
      (CallShape.map (·.typeText scope) ⟨params, [r]⟩).resultsText = r.type.render scope := rfl
  have hparams (r : Param Descriptor) :
      (CallShape.map (·.typeText scope) ⟨params, [r]⟩).paramsText =
        (CallShape.map (·.typeText scope) ⟨params, []⟩).paramsText := rfl
  rw [render_of_alternative scope rfl, render_of_no_alternative scope rfl]
  simp only [Shape.render_function, hresults, hparams, hpresent, habsent, String.append_assoc]

end Descriptor

/-! ## Functions that find jobs -/

namespace Jobs

def job : QName := ⟨"jobs", "Job"⟩

def scope : Scope := { ns := "jobs" }

/-- May be absent, and finds a job. -/
def find : Descriptor := ⟨.function { results := [⟨"job", .named job⟩] }, true⟩

/-- Finds a job or nothing. -/
def next : Descriptor := ⟨.function { results := [⟨"job", ⟨.named job, true⟩⟩] }, false⟩

/-- A job of unknown format is written as a job behind a pointer is; either may be absent. -/
theorem nullable_eq_job :
    (Descriptor.opaqueAs job).render scope = ((Descriptor.named job).withPointers 1).render scope ∧
      (Descriptor.opaqueAs job).nullable = ((Descriptor.named job).withPointers 1).nullable := by
  have htext : (Descriptor.opaqueAs job).render scope =
      ((Descriptor.named job).withPointers 1).render scope := by decide
  have hnullable := Descriptor.nullable_eq_or_mistakable (.bare "jobs")
    (by decide : (Descriptor.opaqueAs job).WellNamed)
    (by decide : ((Descriptor.named job).withPointers 1).WellNamed) nofun nofun htext
  refine ⟨htext, hnullable.resolve_right ?_⟩
  rintro (h | h) <;> cases h

/-- The text of both is `() => Job | null`. -/
theorem exists_absence_not_seen : scope.Regular ∧ find.WellNamed ∧ next.WellNamed ∧
    find ≠ .bareOpaque ∧ next ≠ .bareOpaque ∧ find.render scope = next.render scope ∧
    find.nullable ≠ next.nullable :=
  ⟨.bare "jobs", by decide, by decide, nofun, nofun,
    Descriptor.render_function_result scope [] "job" rfl, by decide⟩

end Jobs

end ClientTypes

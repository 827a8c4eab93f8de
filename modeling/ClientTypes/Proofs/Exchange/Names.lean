import ClientTypes.Exchange
import ClientTypes.Proofs.Slot

/-!
# Names of the fields of an exchange

Every field has three names, made from the name that its variable goes by: that one itself, its
exported spelling and its wire spelling. The first ones are pairwise distinct wherever the declared
names leave each other and the positions apart. The spellings change the case at the head of a name,
so they are pairwise distinct if and only if no two names differ in just that.

The main statement is `Exchange.nodup_names_iff`.
-/

namespace ClientTypes

namespace Exchange

theorem map_paramName_slotFields (slot : Slot) (items : List (Variable × Descriptor)) :
    (slotFields slot items).map (·.paramName) = slot.names (items.map (·.1)) := by
  refine List.ext_getElem? fun i => ?_
  simp only [slotFields, Slot.getElem?_names, List.getElem?_map, List.getElem?_mapIdx,
    Option.map_map]
  rfl

/-- The other names of a field are spellings of its first one. -/
theorem spellings_of_mem_slotFields {slot : Slot} {items : List (Variable × Descriptor)}
    {f : ExchangeField} (h : f ∈ slotFields slot items) :
    f.fieldName = Text.capitalize f.paramName ∧ f.wireName = Text.lowerLeading f.paramName := by
  obtain ⟨i, hi, rfl⟩ := List.mem_mapIdx.1 h
  exact ⟨rfl, rfl⟩

/-- Spellings of pairwise distinct names are pairwise distinct if and only if only equal names are
related, where the names that are spelled alike are those related in one order or the other. -/
theorem nodup_spellings_iff {names : List String} {spell : String → String}
    {R : String → String → Prop} (hnodup : names.Nodup)
    (h : ∀ a ∈ names, ∀ b ∈ names, spell a = spell b ↔ R a b ∨ R b a) :
    (names.map spell).Nodup ↔ ∀ a ∈ names, ∀ b ∈ names, R a b → a = b := by
  rw [List.nodup_map_iff_inj_on hnodup]
  constructor
  · exact fun hinj a ha b hb hab => hinj a ha b hb ((h a ha b hb).2 (.inl hab))
  · intro heq a ha b hb hab
    obtain hab | hba := (h a ha b hb).1 hab
    · exact heq a ha b hb hab
    · exact (heq b hb a ha hba).symm

/-- The exported spellings of names are pairwise distinct if and only if no two names differ just in
the case of their first letters. -/
theorem nodup_capitalize_iff {names : List String} (hnodup : names.Nodup)
    (hne : ∀ name ∈ names, name ≠ "") : (names.map Text.capitalize).Nodup ↔
      ∀ a ∈ names, ∀ b ∈ names, Text.SameInitial a b → a = b :=
  nodup_spellings_iff hnodup fun a ha b hb => Text.capitalize_eq_iff (hne a ha) (hne b hb)

/-- The wire spellings of names are pairwise distinct if and only if no two names differ just in the
case of their leading capitals. -/
theorem nodup_lowerLeading_iff {names : List String} (hnodup : names.Nodup) :
    (names.map Text.lowerLeading).Nodup ↔
      ∀ a ∈ names, ∀ b ∈ names, Text.SameLeading a b → a = b :=
  nodup_spellings_iff hnodup fun a _ b _ => Text.lowerLeading_eq_iff (a := a) (b := b)

/-- Where the declared names of arguments and results leave each other and the positions apart, the
names of the fields of either side are pairwise distinct. Their exported spellings are so too if and
only if no two names differ just in the case of their first letters, and their wire spellings if and
only if no two names differ just in the case of their leading capitals; both are so where every name
begins with a small letter. -/
theorem nodup_names_iff (args results : List (Variable × Descriptor))
    (hargs : Slot.request.Tells (args.map (·.1)))
    (hresults : Slot.response.Tells (results.map (·.1))) :
    ∀ fields ∈ [(build args results).request, (build args results).response],
      let names := fields.map (·.paramName)
      names.Nodup ∧
      ((fields.map (·.fieldName)).Nodup ↔
        ∀ a ∈ names, ∀ b ∈ names, Text.SameInitial a b → a = b) ∧
      ((fields.map (·.wireName)).Nodup ↔
        ∀ a ∈ names, ∀ b ∈ names, Text.SameLeading a b → a = b) ∧
      ((∀ name ∈ names, Text.startsSmall name) →
        (fields.map (·.fieldName)).Nodup ∧ (fields.map (·.wireName)).Nodup) := by
  intro fields hfields names
  obtain ⟨slot, items, htells, rfl⟩ : ∃ slot items, slot.Tells (items.map Prod.fst) ∧
      fields = slotFields slot items := by
    rcases List.mem_pair.1 hfields with rfl | rfl
    · exact ⟨.request, args, hargs, rfl⟩
    · exact ⟨.response, results, hresults, rfl⟩
  have hnames : names = slot.names (items.map (·.1)) := map_paramName_slotFields slot items
  have hnodup : names.Nodup := hnames ▸ htells.nodup_names
  have hexported : (slotFields slot items).map (·.fieldName) = names.map Text.capitalize := by
    rw [List.map_map]
    exact List.map_congr_left fun f hf => (spellings_of_mem_slotFields hf).1
  have hwire : (slotFields slot items).map (·.wireName) = names.map Text.lowerLeading := by
    rw [List.map_map]
    exact List.map_congr_left fun f hf => (spellings_of_mem_slotFields hf).2
  have hinitial := nodup_capitalize_iff hnodup fun name hname =>
    Slot.ne_empty_of_mem_names (hnames ▸ hname)
  have hleading := nodup_lowerLeading_iff hnodup
  rw [hexported, hwire]
  refine ⟨hnodup, hinitial, hleading, fun hsmall => ⟨hinitial.2 ?_, hleading.2 ?_⟩⟩
  · exact fun a ha b hb hab => hab.eq_of_startsSmall (hsmall a ha) (hsmall b hb)
  · exact fun a ha b hb hab => hab.eq_of_startsSmall (hsmall a ha) (hsmall b hb)

end Exchange

/-! ## A search -/

namespace Search

def item (name : String) : Variable × Descriptor :=
  ({ name, type := ⟨"int64"⟩ }, .builtin .integer)

/-- Two arguments whose names differ in the case of a letter inside, and one without a name. -/
def args : List (Variable × Descriptor) := [item "userId", item "userID", item "_"]

theorem nodup_names_search :
    (Slot.request.Tells (args.map (·.1)) ∧ Slot.response.Tells []) ∧
    ((Exchange.build args []).request.map (·.paramName)).Nodup ∧
    ((Exchange.build args []).request.map (·.fieldName)).Nodup ∧
    ((Exchange.build args []).request.map (·.wireName)).Nodup := by
  have hargs : Slot.request.Tells (args.map (·.1)) := ⟨by decide, by decide⟩
  have hresults : Slot.response.Tells [] := ⟨by decide, by decide⟩
  obtain ⟨hnames, -, -, hspellings⟩ :=
    Exchange.nodup_names_iff args [] hargs hresults _ List.mem_cons_self
  exact ⟨⟨hargs, hresults⟩, hnames, hspellings (by decide)⟩

/-- Arguments whose names differ in the case of the first letter have the same exported and the same
wire spelling. A result that has the name of another one's position shares it with that one. -/
theorem exists_names_shared :
    let args := [item "id", item "Id"]
    let results := [item "result1", item "_"]
    let x := Exchange.build args results
    (Slot.declaredNames (args.map (·.1))).Nodup ∧ (Slot.declaredNames (results.map (·.1))).Nodup ∧
      ¬ (x.request.map (·.fieldName)).Nodup ∧ ¬ (x.request.map (·.wireName)).Nodup ∧
        ¬ (x.response.map (·.paramName)).Nodup := by
  decide

end Search

end ClientTypes

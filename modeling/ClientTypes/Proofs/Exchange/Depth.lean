import Mathlib.Data.List.Forall2
import ClientTypes.Exchange
import ClientTypes.Graph.Decode

/-!
# Depths at the call site and on the wire

A conversion is carried out pointer by pointer, and a depth must neither fall below zero nor exceed
the greatest one on the way. The change between two depths leads from the first to the second, and
the change back leads back. So a request is built and a response is taken apart by conversions that
undo each other.

## Main definitions

* `Conversion.depthAfter?` — the depth after a conversion, if every depth on the way is possible
* `ExchangeField.Carries` — a field carries a variable to the wire and back

The main statement is `Exchange.carries_and_isConsistent_iff`.
-/

namespace ClientTypes

namespace Conversion

variable {n depth source target : Nat}

/-- The depth after taking the address so many times. -/
def address? : Nat → Nat → Option Nat
  | 0, depth => some depth
  | n + 1, depth => if depth < maxDepth then address? n (depth + 1) else none

/-- The depth after following the pointer so many times. -/
def follow? : Nat → Nat → Option Nat
  | 0, depth => some depth
  | n + 1, depth => if 0 < depth then follow? n (depth - 1) else none

/-- The depth after a conversion, if every depth on the way is possible. -/
def depthAfter? : Conversion → Nat → Option Nat
  | .direct, depth => some depth
  | .addressOf n, depth => address? n depth
  | .deref n, depth => follow? n depth

theorem address?_eq_some (h : depth + n ≤ maxDepth) : address? n depth = some (depth + n) := by
  induction n generalizing depth with
  | zero => rfl
  | succ n ih =>
    rw [address?, if_pos (by omega), ih (by omega)]
    congr 1
    omega

theorem follow?_eq_some (h : n ≤ depth) : follow? n depth = some (depth - n) := by
  induction n generalizing depth with
  | zero => rfl
  | succ n ih =>
    rw [follow?, if_pos (by omega), ih (by omega)]
    congr 1
    omega

/-- The change to a possible depth leads there. -/
theorem depthAfter?_between (htarget : target ≤ maxDepth) :
    (between source target).depthAfter? source = some target := by
  unfold between
  split
  · next heq => rw [depthAfter?, heq]
  · split
    · rw [depthAfter?, address?_eq_some (by omega)]
      congr 1
      omega
    · rw [depthAfter?, follow?_eq_some (by omega)]
      congr 1
      omega

end Conversion

open Conversion

theorem Variable.wirePointers_le (v : Variable) : v.wirePointers ≤ v.pointers := by
  unfold wirePointers
  split <;> omega

namespace ExchangeField

variable {v : Variable} {f : ExchangeField}

/-- The field has the depths of the variable, and its conversions lead from either to the other. -/
structure Carries (f : ExchangeField) (v : Variable) : Prop where
  param : f.paramPointers = v.pointers
  container : v.isSequence ∨ v.isMap → f.wirePointers = 0
  item : ¬ (v.isSequence ∨ v.isMap) → f.wirePointers = min v.pointers 1
  building : f.toWire.depthAfter? v.pointers = some f.wirePointers
  extraction : f.fromWire.depthAfter? f.wirePointers = some v.pointers

theorem carries_make (slot : Slot) (index : Nat) (type : Descriptor) (h : v.pointers ≤ maxDepth) :
    (make slot index v type).Carries v := by
  have hwire : v.wirePointers ≤ maxDepth := Nat.le_trans v.wirePointers_le h
  refine ⟨rfl, fun hc => ?_, fun hi => ?_, depthAfter?_between hwire, ?_⟩
  · simp [make, Variable.wirePointers, hc]
  · simp [make, Variable.wirePointers, not_or.1 hi]
  · change (between v.pointers v.wirePointers).inverse.depthAfter? _ = _
    rw [inverse_between]
    exact depthAfter?_between h

/-- A field is consistent if and only if each of its conversions is the change between its depths,
one there and the other back. -/
theorem isConsistent_iff : f.isConsistent ↔
    f.toWire = between f.paramPointers f.wirePointers ∧
      f.fromWire = between f.wirePointers f.paramPointers := by
  simp only [isConsistent, Bool.and_eq_true, decide_eq_true_eq]
  constructor
  · rintro ⟨hfrom, hto⟩
    exact ⟨hto.symm, by rw [hfrom, ← hto, inverse_between]⟩
  · rintro ⟨hto, hfrom⟩
    exact ⟨by rw [hfrom, hto, inverse_between], hto.symm⟩

end ExchangeField

namespace Exchange

variable {x : Exchange}

theorem isConsistent_iff : x.isConsistent ↔ ∀ f ∈ x.fields,
    f.toWire = between f.paramPointers f.wirePointers ∧
      f.fromWire = between f.wirePointers f.paramPointers := by
  simp only [isConsistent, List.all_eq_true, ExchangeField.isConsistent_iff]

/-- The fields of a side stand for its variables, one for each and in order. -/
theorem carries_slotFields (slot : Slot) {items : List (Variable × Descriptor)}
    (h : ∀ item ∈ items, item.1.pointers ≤ maxDepth) :
    List.Forall₂ (fun f item => f.Carries item.1) (slotFields slot items) items := by
  refine List.forall₂_iff_get.2 ⟨by simp [slotFields], fun i _ hi => ?_⟩
  simp only [slotFields, List.get_eq_getElem, List.getElem_mapIdx]
  exact ExchangeField.carries_make slot i _ (h _ (List.getElem_mem hi))

theorem isConsistent_build (args results : List (Variable × Descriptor)) :
    (build args results).isConsistent := by
  refine isConsistent_iff.2 fun f hf => ?_
  -- a field of either side is made for some variable
  obtain ⟨slot, i, v, type, rfl⟩ : ∃ slot i v type, f = .make slot i v type := by
    rcases List.mem_append.1 hf with hf | hf <;> obtain ⟨i, hi, rfl⟩ := List.mem_mapIdx.1 hf
    · exact ⟨.request, i, _, _, rfl⟩
    · exact ⟨.response, i, _, _, rfl⟩
  exact ⟨rfl, inverse_between _ _⟩

/-- The exchange of any arguments and results is consistent and has one field for each of them in
order. Containers travel behind no pointer and everything else behind one at most; the conversions
lead from the depth at the call site to the one on the wire and back, by possible depths only.
Whatever has become of an exchange, it is consistent if and only if each of its fields converts
between the depths that it has. -/
theorem carries_and_isConsistent_iff :
    (∀ args results : List (Variable × Descriptor),
      (∀ item ∈ args ++ results, item.1.pointers ≤ maxDepth) →
        List.Forall₂ (fun f item => f.Carries item.1) (build args results).request args ∧
        List.Forall₂ (fun f item => f.Carries item.1) (build args results).response results ∧
        (build args results).isConsistent) ∧
    ∀ x : Exchange, x.isConsistent ↔ ∀ f ∈ x.fields,
      f.toWire = between f.paramPointers f.wirePointers ∧
        f.fromWire = between f.wirePointers f.paramPointers := by
  refine ⟨fun args results h => ⟨?_, ?_, isConsistent_build args results⟩,
    fun x => isConsistent_iff⟩
  · exact carries_slotFields .request fun item hitem => h item (List.mem_append_left _ hitem)
  · exact carries_slotFields .response fun item hitem => h item (List.mem_append_right _ hitem)

end Exchange

/-! ## An upload -/

namespace Upload

/-- A file behind three pointers, and a list of tags behind the greatest number of them. -/
def args : List (Variable × Descriptor) :=
  [({ name := "file", type := ⟨"File"⟩, pointers := 3 }, .bareOpaque),
   ({ name := "tags", type := ⟨"string"⟩, pointers := 255, slice := true }, .bareOpaque)]

def results : List (Variable × Descriptor) := [({ type := ⟨"int64"⟩ }, .builtin .integer)]

theorem carries_upload : (∀ item ∈ args ++ results, item.1.pointers ≤ maxDepth) ∧
    List.Forall₂ (fun f item => f.Carries item.1) (Exchange.build args results).request args ∧
    List.Forall₂ (fun f item => f.Carries item.1) (Exchange.build args results).response results ∧
    (Exchange.build args results).isConsistent := by
  have hdepths : ∀ item ∈ args ++ results, item.1.pointers ≤ maxDepth := by decide
  exact ⟨hdepths, Exchange.carries_and_isConsistent_iff.1 args results hdepths⟩

end Upload

end ClientTypes

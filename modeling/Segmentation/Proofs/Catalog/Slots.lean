import Segmentation.Catalog.Stock
import Segmentation.Proofs.Value.ReadBack

/-!
# The slots of a catalog

An argument may outlive the operation it was entered for, so what matters about a slot is also which
other slots there are at its place. A catalog is steady when, at each place and for each kind, the
values that one slot yields are recalled by every other one: their texts pick choices with the same
values, or there are no choices.

Main statements:

* `recalls_of_steady`: in a steady catalog every converted value is recalled wherever it fits;
* `Stock.steady`: the stock catalog is steady.
-/

namespace Segmentation

namespace Slot

theorem choice?_mem {slot : Slot} {raw : String} {choice : Choice}
    (h : slot.choice? raw = some choice) : choice ∈ slot.choices := by
  rw [choice?, Option.or_eq_some_iff] at h
  rcases h with h | ⟨-, h⟩ <;> exact List.mem_of_find?_eq_some h

/-- A value of a slot with choices is the value of the key of one of them. -/
theorem choice_of_convert {slot : Slot} {raw : String} {v : Value} (hslot : slot.choices ≠ [])
    (h : slot.convert raw = .ok v) :
    ∃ choice ∈ slot.choices, slot.kind.read? choice.key = some v := by
  rw [convert, if_neg hslot] at h
  cases hc : slot.choice? raw with
  | none =>
    rw [hc] at h
    cases h
  | some choice =>
    rw [hc] at h
    exact ⟨choice, choice?_mem hc, Kind.convert_eq_ok.1 h⟩

/-- The key of a choice picks a choice with this key. -/
theorem convert_key {slot : Slot} {choice : Choice} (h : choice ∈ slot.choices) :
    slot.convert choice.key = slot.kind.convert choice.key := by
  have hfound : (slot.choices.find? fun d => d.key = choice.key).isSome = true :=
    List.find?_isSome.2 ⟨choice, h, decide_eq_true rfl⟩
  obtain ⟨d, hd⟩ := Option.isSome_iff_exists.1 hfound
  have hkey : d.key = choice.key := by simpa using List.find?_some hd
  rw [convert, if_neg (List.ne_nil_of_mem h), choice?, hd, Option.some_or]
  exact congrArg slot.kind.convert hkey

/-- Whether a slot recalls all that another one of its kind yields. -/
def RecallsAll (slot other : Slot) : Prop :=
  slot.choices = [] ∨ other.choices ≠ [] ∧
    ∀ choice ∈ other.choices, ∀ v ∈ other.kind.read? choice.key, slot.Recalls v

instance (slot other : Slot) : Decidable (slot.RecallsAll other) :=
  inferInstanceAs (Decidable (_ ∨ _ ∧ _))

end Slot

namespace Catalog

variable {c : Catalog} {i : Nat} {slot slot' : Slot}

/-- The slots that operations of a catalog have at a place. -/
def HasSlot (c : Catalog) (i : Nat) (slot : Slot) : Prop :=
  ∃ t ∈ c.valueTypes, ∃ o ∈ t.operations, o.slots[i]? = some slot

/-- All slots of a catalog with their places. -/
def placedSlots (c : Catalog) : List (Slot × Nat) :=
  c.valueTypes.flatMap fun t => t.operations.flatMap fun o => o.slots.zipIdx

theorem hasSlot_iff : c.HasSlot i slot ↔ (slot, i) ∈ c.placedSlots := by
  simp only [HasSlot, placedSlots, List.mem_flatMap, List.mem_zipIdx_iff_getElem?]

/-- Slots of one kind at one place recall each other's values. -/
def Steady (c : Catalog) : Prop :=
  ∀ p ∈ c.placedSlots, ∀ q ∈ c.placedSlots, p.2 = q.2 → p.1.kind = q.1.kind → q.1.RecallsAll p.1

instance (c : Catalog) : Decidable c.Steady :=
  inferInstanceAs (Decidable (∀ p ∈ c.placedSlots, _))

/-- In a steady catalog a converted value is recalled by every slot at its place that takes it. -/
theorem recalls_of_steady (hc : c.Steady) (h : c.HasSlot i slot) (h' : c.HasSlot i slot')
    {raw : String} {v : Value} (hv : slot.convert raw = .ok v)
    (hk : slot'.kind.accepts v = true) : slot'.Recalls v := by
  have hkind : slot.kind = slot'.kind := (Slot.kind_convert hv).symm.trans (Kind.accepts_iff.1 hk)
  rcases hc _ (hasSlot_iff.1 h) _ (hasSlot_iff.1 h') rfl hkind with hnone | ⟨hne, hall⟩
  · exact .inl hnone
  · obtain ⟨choice, hmem, hread⟩ := Slot.choice_of_convert hne hv
    exact hall choice hmem v hread

end Catalog

/-- Truth values have one slot, which offers them by their texts; the units of time are the only
strings in a second slot. -/
theorem Stock.steady : Stock.catalog.Steady := by
  decide +kernel

end Segmentation

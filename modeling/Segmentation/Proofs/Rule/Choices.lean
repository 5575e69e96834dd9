import Segmentation.Proofs.Rule.Origin

/-!
# Choices

The choices of a slot restrict the texts that are entered in it. A value that was entered before the
slot took its place is kept if its kind fits, whether or not it is among the choices. Main
statement: `offered_or_carried`, a slot with choices holds the value of one of them or one that was
entered in another slot of its kind.
-/

namespace Segmentation

namespace Slot

variable {slot : Slot} {v : Value}

/-- A value is that of one of the choices of a slot. -/
def Offers (slot : Slot) (v : Value) : Prop :=
  ∃ choice ∈ slot.choices, slot.convert choice.key = .ok v

instance (slot : Slot) (v : Value) : Decidable (slot.Offers v) :=
  inferInstanceAs (Decidable (∃ choice ∈ slot.choices, _))

theorem offers_of_convert {raw : String} (hne : slot.choices ≠ []) (h : slot.convert raw = .ok v) :
    slot.Offers v := by
  obtain ⟨choice, hmem, hread⟩ := choice_of_convert hne h
  exact ⟨choice, hmem, (convert_key hmem).trans (Kind.convert_eq_ok.2 hread)⟩

end Slot

namespace Rule

variable {c : Catalog} {k i : Nat} {v : Value}

theorem kind_of_reachable {r : Rule} (h : Reachable c r) {slot : Slot}
    (hs : r.slot? k i = some slot) (hv : r.argument? k i = some v) : v.kind = slot.kind := by
  obtain ⟨n, hn, hslot⟩ := Option.bind_eq_some_iff.1 hs
  rw [argument?, hn] at hv
  obtain ⟨hsettled, -⟩ := Node.settled_getElem? h.settled.root h.settled.follows hn
  exact Kind.accepts_iff.1
    ((fit_eq_self_iff.1 (Node.fit_arguments hsettled)).2 i slot v hslot hv)

/-- A value in a slot with choices is of the kind of the slot, and it is the value of one of the
choices unless it was entered in another slot of that kind and carried over. -/
theorem offered_or_carried {edits : List Edit} {slot : Slot}
    (hs : (after c edits).slot? k i = some slot) (hne : slot.choices ≠ [])
    (hv : (after c edits).argument? k i = some v) :
    v.kind = slot.kind ∧
      (slot.Offers v ∨ ∃ other, other ≠ slot ∧ other.kind = slot.kind ∧
        EnteredIn c edits k i other v) := by
  obtain ⟨other, horigin⟩ := origin_of_argument hv
  obtain ⟨raw, hconv⟩ := horigin.convert
  have hkind := kind_of_reachable (reachable_after c edits) hs hv
  refine ⟨hkind, ?_⟩
  by_cases ho : other = slot
  · subst ho
    exact .inl (Slot.offers_of_convert hne hconv)
  · exact .inr ⟨other, ho, (Slot.kind_convert hconv).symm.trans hkind, horigin⟩

/-- A slot for one of two colors. -/
def twoColors : Slot :=
  { name := "value", kind := .string, choices := [⟨"Red", "red"⟩, ⟨"Blue", "blue"⟩] }

/-- A catalog in which a color is picked from two or named freely. -/
def palette : Catalog where
  valueTypes := [
    { key := "color"
      name := "Color"
      operations := [
        { key := "named", name := "Named", slots := [{ name := "value", kind := .string }] },
        { key := "picked", name := "Picked", slots := [twoColors] }] }]
  handlers := [{ key := "paint", name := "Paint", fields := [⟨"shade", "Shade", "color"⟩] }]
  wellFormed := Draft.fault?_eq_none_iff.1 (by decide +kernel)

/-- A color is named, and then the operation is one that picks. -/
def repainted : List Edit :=
  [.build
      { head :=
          { field := some "shade"
            operation := some "named"
            arguments := .ofList [(0, "teal")] } },
    .setNegate true,
    .setOperation (some "picked")]

theorem offered_or_carried_repainted :
    (after palette repainted).text = "not shade:picked(teal)" ∧
      (after palette repainted).slot? 0 0 = some twoColors ∧ twoColors.choices ≠ [] ∧
      (after palette repainted).argument? 0 0 = some (.string "teal") ∧
      (Value.string "teal").kind = twoColors.kind ∧
      (twoColors.Offers (.string "teal") ∨ ∃ other, other ≠ twoColors ∧
        other.kind = twoColors.kind ∧
        EnteredIn palette repainted 0 0 other (.string "teal")) := by
  have hs : (after palette repainted).slot? 0 0 = some twoColors := by decide +kernel
  have hne : twoColors.choices ≠ [] := by decide
  have hv : (after palette repainted).argument? 0 0 = some (.string "teal") := by decide +kernel
  exact ⟨by decide +kernel, hs, hne, hv, offered_or_carried hs hne hv⟩

/-- The named color stands where one of two is picked. -/
theorem not_offered_repainted :
    ¬ ∀ (k i : Nat) (slot : Slot) (v : Value), (after palette repainted).slot? k i = some slot →
      slot.choices ≠ [] → (after palette repainted).argument? k i = some v → slot.Offers v := by
  intro h
  have hoffers : twoColors.Offers (.string "teal") :=
    h 0 0 twoColors (.string "teal") (by decide +kernel) (by decide) (by decide +kernel)
  exact absurd hoffers (by decide +kernel)

end Rule

end Segmentation

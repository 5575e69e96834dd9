import Segmentation.Proofs.Expr.Meaning
import Segmentation.Proofs.Value.ReadBack

/-!
# A value as the only argument

An expression in which a value is the only argument is read as one with one argument, at the first
place, whatever the kind and the characters of the value. What is read there is the text that the
value stands for, so a slot of its kind converts it to the value again unless it is a number that is
not finite. Main statements:

* `parse_ofValue`: what is read, under any two identifiers;
* `convert_parsed_iff`: which values come back.
-/

namespace Segmentation

open Segmentation.Expr (Segment Expression)

/-- The segment with a value as its only argument. -/
def Expr.Segment.ofValue (field operation : String) (v : Value) : Segment where
  negated := false
  field := field.toList
  operation := operation.toList
  first := some v.written
  more := []

namespace Value

variable {field operation : String} {v : Value}

theorem text_ofValue (field operation : String) (v : Value) :
    String.ofList (Segment.ofValue field operation v).text =
      field ++ ":" ++ operation ++ "(" ++ v.text ++ ")" := by
  apply String.toList_injective
  simp only [Segment.text, Segment.ofValue, Expr.optionalText, Expr.moreText, text_written, text,
    String.toList_ofList, String.toList_append]
  simp

theorem wellFormed_ofValue (hf : Text.isIdentifier field = true)
    (ho : Text.isIdentifier operation = true) (v : Value) :
    (Segment.ofValue field operation v).WellFormed := by
  refine ⟨?_, ?_, ?_, ?_, ?_⟩
  · show Text.isIdentifier (String.ofList field.toList) = true
    rwa [String.ofList_toList]
  · show Text.isIdentifier (String.ofList operation.toList) = true
    rwa [String.ofList_toList]
  · intro a ha
    obtain rfl := Option.some.inj ha
    exact v.wellFormed_written
  · intro p hp
    cases hp
  · intro p hp
    cases hp

theorem level_ofValue (field operation : String) (v : Value) :
    (Segment.ofValue field operation v).level =
      { field := some field
        operation := some operation
        arguments := .ofList [(0, v.raw)] } := by
  have hraw : String.ofList v.written.value = v.raw := by
    rw [value_written, String.ofList_toList]
  have harguments : (Segment.ofValue field operation v).arguments = .ofList [(0, v.raw)] := by
    rw [← hraw]
    rfl
  rw [Segment.level, harguments]
  simp only [Segment.ofValue, String.ofList_toList, Bool.false_eq_true, if_false]

/-- Between the parentheses of an expression a value is read as one argument, whatever it is. -/
theorem parse_ofValue (hf : Text.isIdentifier field = true)
    (ho : Text.isIdentifier operation = true) (v : Value) :
    Expr.parse (field ++ ":" ++ operation ++ "(" ++ v.text ++ ")") = .ok
      { head :=
          { field := some field
            operation := some operation
            arguments := .ofList [(0, v.raw)] } } := by
  have hw : (⟨Segment.ofValue field operation v, []⟩ : Expression).WellFormed :=
    ⟨wellFormed_ofValue hf ho v, fun p hp => by cases hp⟩
  have htext : (⟨Segment.ofValue field operation v, []⟩ : Expression).text =
      (Segment.ofValue field operation v).text := List.append_nil _
  have hparse := Expr.parse_text hw
  rw [htext, text_ofValue] at hparse
  rw [hparse, ← level_ofValue]
  rfl

/-- A value that is written as the only argument is read as the only argument, at the first place,
and a slot of its kind without choices converts what is read to that value just if it is finite. -/
theorem convert_parsed_iff (v : Value) (name : String) :
    ∃ raw, Expr.parse ("f:o(" ++ v.text ++ ")") = .ok
        { head :=
            { field := some "f"
              operation := some "o"
              arguments := .ofList [(0, raw)] } } ∧
      (({ name, kind := v.kind } : Slot).convert raw = .ok v ↔ v.isFinite = true) := by
  have hparse : Expr.parse ("f" ++ ":" ++ "o" ++ "(" ++ v.text ++ ")") = _ :=
    parse_ofValue (by decide) (by decide) v
  rw [show "f" ++ ":" ++ "o" ++ "(" = "f:o(" by decide] at hparse
  refine ⟨v.raw, hparse, Slot.isFinite_convert, fun hfinite => ?_⟩
  have hrecalls : ({ name, kind := v.kind } : Slot).Recalls v := .inl rfl
  exact (Slot.convert_raw_iff (Kind.accepts_iff.2 rfl) hfinite).2 hrecalls

/-- A point is written as an escape, and what looks like one as itself; zero has a sign. -/
example :
    (Value.string "\\x2e.").text = "\"\\\\x2e\\x2e\"" ∧
      (Value.float (.finite true .zero)).text = "-0" := by
  decide +kernel

end Value

end Segmentation

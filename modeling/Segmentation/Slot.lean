import Segmentation.Value
import Segmentation.Calendar.Pattern

/-!
# Argument slots

An operation takes its arguments in slots. A slot has a kind and may have a list of choices; text
that a user enters for it is converted to a value of its kind, or the conversion fails for a stated
reason.

In a slot with choices the text picks a choice, by its key or else by its label, and the key of the
choice is converted. Main statement: `kind_convert`, a slot converts only to values of its kind.
-/

namespace Segmentation

open Decimal (Binary64)
open Calendar (Date)

/-- An offered value: the label a user sees and the key that stands for it. -/
structure Choice where
  label : String
  key : String
  deriving DecidableEq, Repr

/-- The place of an argument in an operation. -/
structure Slot where
  name : String
  kind : Kind
  choices : List Choice := []
  deriving DecidableEq, Repr

/-- Why a text has no value in a slot. -/
inductive ConversionError
  | malformed (raw : String) (kind : Kind)
  | notAChoice (raw : String)
  deriving DecidableEq, Repr

/-- What a user is told. -/
def ConversionError.message : ConversionError → String
  | malformed raw kind => s!"'{raw}' is not a valid {kind.name}"
  | notAChoice raw => s!"'{raw}' is not one of the allowed choices"

/-- The truth value that a word stands for, in any case. -/
def boolean? (s : String) : Option Bool :=
  match Text.lowercase s with
  | "true" | "yes" | "1" | "on" => some true
  | "false" | "no" | "0" | "off" => some false
  | _ => none

/-- A finite floating-point number. -/
def finite? (cs : List Char) : Option Binary64 :=
  (Binary64.ofText? cs).filter Binary64.isFinite

/-- The value of a kind that a text denotes. Strings are taken as they are; around all other values
blanks do not count. -/
def Kind.read? (kind : Kind) (raw : String) : Option Value :=
  let cs := Text.trimmed raw.toList
  match kind with
  | .string => some (.string raw)
  | .integer => (Text.Numeral.int64? cs).map .integer
  | .float => (finite? cs).map .float
  | .boolean => (boolean? (String.ofList cs)).map .boolean
  | .date => (Date.ofText? cs).map .date

/-- The value of a kind that a text denotes, or the complaint about the text. -/
def Kind.convert (kind : Kind) (raw : String) : Except ConversionError Value :=
  match kind.read? raw with
  | some v => .ok v
  | none => .error (.malformed raw kind)

namespace Slot

/-- The choice that a text picks: the first with this key, or else the first with this label, where
case and blanks around the text do not count. -/
def choice? (slot : Slot) (raw : String) : Option Choice :=
  (slot.choices.find? fun c => c.key = raw).or
    (slot.choices.find? fun c => Text.caselessEq c.label (Text.trim raw))

/-- The value of a text in a slot. -/
def convert (slot : Slot) (raw : String) : Except ConversionError Value :=
  if slot.choices = [] then slot.kind.convert raw
  else match slot.choice? raw with
    | some choice => slot.kind.convert choice.key
    | none => .error (.notAChoice raw)

end Slot

/-! ## Kinds of converted values -/

theorem Kind.kind_read? {kind : Kind} {raw : String} {v : Value} (h : kind.read? raw = some v) :
    v.kind = kind := by
  cases kind <;> simp only [Kind.read?, Option.some.injEq, Option.map_eq_some_iff] at h
  case string => rw [← h, Value.kind]
  all_goals
    obtain ⟨_, _, rfl⟩ := h
    rfl

theorem Kind.convert_eq_ok {kind : Kind} {raw : String} {v : Value} :
    kind.convert raw = .ok v ↔ kind.read? raw = some v := by
  rw [Kind.convert]
  cases kind.read? raw <;> simp

theorem Slot.kind_convert {slot : Slot} {raw : String} {v : Value} (h : slot.convert raw = .ok v) :
    v.kind = slot.kind := by
  unfold Slot.convert at h
  split at h
  · exact Kind.kind_read? (Kind.convert_eq_ok.1 h)
  · split at h
    · exact Kind.kind_read? (Kind.convert_eq_ok.1 h)
    · cases h

end Segmentation

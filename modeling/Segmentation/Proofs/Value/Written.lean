import Segmentation.Expr.Basic
import Segmentation.Value
import Segmentation.Decimal.ReadBack

/-!
# Values as arguments

The text of a value is one argument of an expression: a string stands bare or between quotes, all
other values stand bare. Read as an argument, it stands for the string itself, or for the text of
the value. Main statements:

* `isPlainChar_of_mem_chars`: numbers, truth values and dates are made of a few plain characters;
* `text_written`, `value_written`, `wellFormed_written`: which argument is written for a value.
-/

namespace Segmentation

open Segmentation.Expr (Argument isArgumentChar)

/-! ## Plain characters -/

/-- The characters of values that are no strings. -/
def isPlainChar (c : Char) : Bool :=
  c.isAlphanum || c == '-' || c == '+'

theorem toNat_of_isAlphanum {c : Char} (h : c.isAlphanum = true) :
    48 ≤ c.toNat ∧ c.toNat < 128 := by
  have hc : c.toNat = c.val.toNat := rfl
  have hclass : (c.isUpper || c.isLower || c.isDigit) = true := h
  simp only [Bool.or_eq_true] at hclass
  rcases hclass with (hu | hl) | hd
  · have hrange : c.val ≥ 'A'.val ∧ c.val ≤ 'Z'.val := of_decide_eq_true hu
    have hA : 65 ≤ c.val.toNat := UInt32.le_iff_toNat_le.1 hrange.1
    have hZ : c.val.toNat ≤ 90 := UInt32.le_iff_toNat_le.1 hrange.2
    omega
  · have hrange : (decide (c.val ≥ 'a'.val) && decide (c.val ≤ 'z'.val)) = true := hl
    rw [Bool.and_eq_true, decide_eq_true_eq, decide_eq_true_eq] at hrange
    have ha : 97 ≤ c.val.toNat := UInt32.le_iff_toNat_le.1 hrange.1
    have hz : c.val.toNat ≤ 122 := UInt32.le_iff_toNat_le.1 hrange.2
    omega
  · have hrange : (decide (c.val ≥ '0'.val) && decide (c.val ≤ '9'.val)) = true := hd
    rw [Bool.and_eq_true, decide_eq_true_eq, decide_eq_true_eq] at hrange
    have h₀ : 48 ≤ c.val.toNat := UInt32.le_iff_toNat_le.1 hrange.1
    have h₉ : c.val.toNat ≤ 57 := UInt32.le_iff_toNat_le.1 hrange.2
    omega

theorem isPlainChar_of_isDigit {c : Char} (h : c.isDigit = true) : isPlainChar c = true := by
  simp only [isPlainChar, Char.isAlphanum, h, Bool.or_true, Bool.true_or]

/-- Plain characters may stand in bare arguments. -/
theorem isArgumentChar_of_isPlainChar {c : Char} (h : isPlainChar c = true) :
    isArgumentChar c = true := by
  simp only [isPlainChar, Bool.or_eq_true, beq_iff_eq] at h
  rcases h with (h | rfl) | rfl
  · have hbare : Text.isAlphanumeric c = true := by
      rw [Text.isAlphanumeric_of_ascii (toNat_of_isAlphanum h).2, h]
    simp only [isArgumentChar, Text.Quoted.isBareChar, hbare, Bool.true_or]
  · decide
  · decide

theorem isBlank_of_isPlainChar {c : Char} (h : isPlainChar c = true) : Text.isBlank c = false := by
  simp only [isPlainChar, Bool.or_eq_true, beq_iff_eq] at h
  rcases h with (h | rfl) | rfl
  · have := toNat_of_isAlphanum h
    simp [Text.isBlank]
    omega
  · decide
  · decide

/-! ## The characters of values -/

open Text.Numeral (ofNat ofInt)

theorem isPlainChar_ofNat {n : Nat} {c : Char} (h : c ∈ ofNat n) : isPlainChar c = true :=
  isPlainChar_of_isDigit (Text.Numeral.isDigit_of_mem_ofNat h)

theorem isPlainChar_padded {width n : Nat} {c : Char} (h : c ∈ Calendar.padded width n) :
    isPlainChar c = true := by
  rw [Calendar.padded, List.leftpad, List.mem_append] at h
  rcases h with h | h
  · rw [(List.mem_replicate.1 h).2]
    decide
  · exact isPlainChar_ofNat h

theorem isPlainChar_pointFreeText {d : Decimal} {c : Char} (h : c ∈ d.pointFreeText) :
    isPlainChar c = true := by
  unfold Decimal.pointFreeText at h
  split at h
  · simp only [List.mem_append, List.mem_cons] at h
    rcases h with h | rfl | rfl | h
    · exact isPlainChar_ofNat h
    · decide
    · decide
    · exact isPlainChar_ofNat h
  · rename_i he
    exact isPlainChar_of_isDigit (Decimal.isDigit_of_mem_plainText he h)

theorem isPlainChar_yearText {year : Int} {c : Char} (h : c ∈ Calendar.yearText year) :
    isPlainChar c = true := by
  unfold Calendar.yearText at h
  split at h
  · rcases List.mem_cons.1 h with rfl | h
    · decide
    · exact isPlainChar_padded h
  · split at h
    · rcases List.mem_cons.1 h with rfl | h
      · decide
      · exact isPlainChar_padded h
    · exact isPlainChar_padded h

namespace Value

/-- No character of a value but a string needs quotes. -/
theorem isPlainChar_of_mem_chars {v : Value} (hv : v.kind ≠ .string) {c : Char}
    (h : c ∈ v.chars) : isPlainChar c = true := by
  cases v with
  | string s => exact absurd rfl hv
  | integer n =>
    rw [chars, ofInt] at h
    split at h
    · rcases List.mem_cons.1 h with rfl | h
      · decide
      · exact isPlainChar_ofNat h
    · exact isPlainChar_ofNat h
  | float x =>
    cases x with
    | finite negative m =>
      rw [chars, Decimal.Binary64.pointFreeText_finite] at h
      rcases List.mem_append.1 h with h | h
      · cases negative
        · cases h
        · rw [List.mem_singleton.1 h]
          decide
      · exact isPlainChar_pointFreeText h
    | infinite negative => cases negative <;> exact List.all_eq_true.1 (by decide) c h
    | nan => exact List.all_eq_true.1 (by decide) c h
  | boolean b => cases b <;> exact List.all_eq_true.1 (by decide) c h
  | date d =>
    have h : c ∈ Calendar.yearText d.year ++ '-' ::
      (Calendar.padded 2 d.month ++ '-' :: Calendar.padded 2 d.day) := h
    simp only [List.mem_append, List.mem_cons] at h
    rcases h with h | rfl | h | rfl | h
    · exact isPlainChar_yearText h
    · decide
    · exact isPlainChar_padded h
    · decide
    · exact isPlainChar_padded h

theorem chars_ne_nil (v : Value) : v.chars ≠ [] := by
  cases v with
  | string s =>
    rw [chars, Text.Quoted.write]
    split
    · rename_i h
      intro hs
      rw [hs] at h
      cases h
    · exact List.cons_ne_nil _ _
  | integer n =>
    rw [chars, ofInt]
    split
    · exact List.cons_ne_nil _ _
    · exact Text.Numeral.ofNat_ne_nil _
  | float x =>
    cases x with
    | finite negative m =>
      obtain ⟨c, cs, hcs, -⟩ := Decimal.head_pointFreeText m.shortest
      rw [chars, Decimal.Binary64.pointFreeText_finite, hcs]
      exact List.append_ne_nil_of_right_ne_nil _ (List.cons_ne_nil _ _)
    | infinite negative => cases negative <;> decide
    | nan => decide
  | boolean b => cases b <;> decide
  | date d => simp [chars, Calendar.Date.text]

/-! ## The argument of a value -/

/-- What a value stands for as an argument: a string for itself, any other value for its text. -/
def raw : Value → String
  | string s => s
  | v => v.text

/-- The argument that is written for a value. -/
def written : Value → Argument
  | string s =>
    if Text.Quoted.isBare s.toList then .bare s.toList
    else .quoted (s.toList.map Text.Quoted.Item.escape)
  | v => .bare v.chars

theorem raw_of_kind {v : Value} (hv : v.kind ≠ .string) : v.raw = v.text := by
  cases v with
  | string s => exact absurd rfl hv
  | _ => rfl

theorem written_of_kind {v : Value} (hv : v.kind ≠ .string) : v.written = .bare v.chars := by
  cases v with
  | string s => exact absurd rfl hv
  | _ => rfl

theorem text_written (v : Value) : v.written.text = v.chars := by
  by_cases hv : v.kind = .string
  · cases v with
    | string s =>
      rw [written, chars, Text.Quoted.write]
      split <;> rfl
    | _ => cases hv
  · rw [written_of_kind hv]
    rfl

theorem value_written (v : Value) : v.written.value = v.raw.toList := by
  by_cases hv : v.kind = .string
  · cases v with
    | string s =>
      rw [written, raw]
      split
      · rfl
      · exact Text.Quoted.value_escapes s.toList
    | _ => cases hv
  · rw [written_of_kind hv, raw_of_kind hv, text, String.toList_ofList]
    rfl

theorem wellFormed_written (v : Value) : v.written.WellFormed := by
  by_cases hv : v.kind = .string
  · cases v with
    | string s =>
      rw [written]
      split
      · rename_i h
        obtain ⟨hne, hall⟩ := Bool.and_eq_true_iff.1 h
        refine ⟨?_, fun c hc => ?_⟩
        · intro hnil
          rw [hnil] at hne
          cases hne
        · rw [isArgumentChar, List.all_eq_true.1 hall c hc, Bool.true_or, Bool.true_or]
      · intro i hi
        obtain ⟨c, -, rfl⟩ := List.mem_map.1 hi
        exact Text.Quoted.Item.wellFormed_escape c
    | _ => cases hv
  · rw [written_of_kind hv]
    exact ⟨v.chars_ne_nil, fun c hc =>
      isArgumentChar_of_isPlainChar (isPlainChar_of_mem_chars hv hc)⟩

end Value

end Segmentation

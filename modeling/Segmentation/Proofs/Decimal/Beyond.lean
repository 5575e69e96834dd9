import Segmentation.Proofs.Decimal.Rounding
import Segmentation.Proofs.Text.Spelling

/-!
# Numbers beyond 64 bits

The text of a floating-point number that is too large for the signed numbers of 64 bits is never the
numeral of one of these. The text has the fewest digits that read back, so it may stand for another
number; but as rounding does not cross `2 ^ 63`, the text of a greater number stands for more than
that, and the text of `2 ^ 63` itself is rounded up. Main statements:

* `digits?_plainText`: which texts without an exponent are numerals, and of what;
* `lt_of_digits?_shortest`: texts of numbers from `2 ^ 63` on;
* `int64?_toBinary64`: whole numbers that are read as floating-point numbers.
-/

namespace Segmentation

open Text.Numeral (ofNat digits? integer? int64?)

namespace Decimal

/-- With a fraction there is a point in the text; without one the text is that of a whole number. -/
theorem digits?_plainText (d : Decimal) : digits? d.plainText =
    if d.exponent < 0 then none else some (d.digits * 10 ^ d.exponent.natAbs) := by
  split
  · rename_i he
    refine Text.Numeral.digits?_eq_none_of_mem (c := '.') ?_ (by decide)
    rw [plainText, if_pos he]
    exact List.mem_append_right _ List.mem_cons_self
  · rename_i he
    have hall : d.plainText.all Char.isDigit = true :=
      List.all_eq_true.2 fun _ => isDigit_of_mem_plainText he
    rw [digits?, if_pos ⟨plainText_ne_nil d, hall⟩, ofDigitChars_plainText he]

namespace Magnitude

/-- The least magnitude beyond the signed numbers of 64 bits, `2 ^ 63`. -/
def beyondInt64 : Magnitude :=
  ⟨Nat.pow 2 52, 1085, by decide, by decide, .inr (Nat.le_refl _)⟩

theorem units_beyondInt64 : beyondInt64.units = 2 ^ 63 * 2 ^ 1074 := by
  decide +kernel

theorem shortest_beyondInt64 : beyondInt64.shortest = ⟨9223372036854776, 3⟩ := by
  decide +kernel

/-- The text of a number from `2 ^ 63` on is not the numeral of a number up to `2 ^ 63`. -/
theorem lt_of_digits?_shortest {m : Magnitude} {n : Nat} (h : beyondInt64.units ≤ m.units)
    (hn : digits? m.shortest.plainText = some n) : 2 ^ 63 < n := by
  rw [digits?_plainText] at hn
  split at hn
  · cases hn
  · rename_i he
    obtain rfl := Option.some.inj hn
    rcases Nat.lt_or_eq_of_le h with hlt | heq
    · -- The digits read back as the number, which a number up to the bound would not.
      have hread := m.magnitude?_shortest
      have hshortest : m.shortest = ⟨m.shortest.digits, m.shortest.exponent.natAbs⟩ := by
        rw [Int.natAbs_of_nonneg (Int.not_lt.1 he)]
      rw [hshortest, ← magnitude?_mul_pow] at hread
      refine Nat.lt_of_not_le fun hle => Nat.not_le.2 hlt (units_le_of_magnitude? hread ?_)
      rw [units_beyondInt64]
      exact Nat.mul_le_mul_right _ hle
    · rw [← units_injective heq, shortest_beyondInt64]
      decide

end Magnitude

namespace Binary64

variable {negative : Bool} {n : Nat}

theorem int64?_plainText {m : Magnitude} (h : Magnitude.beyondInt64.units ≤ m.units) :
    int64? (finite negative m).plainText = none := by
  have hunsigned : ∀ c ∈ m.shortest.plainText, c ≠ '-' ∧ c ≠ '+' := by
    intro c hc
    rcases mem_plainText hc with hdigit | rfl
    · exact Text.Numeral.ne_sign_of_isDigit hdigit
    · decide
  have hread : integer? (finite negative m).plainText =
      (digits? m.shortest.plainText).map (Text.Numeral.signed negative) :=
    Text.Numeral.integer?_sign_append negative hunsigned
  rw [int64?, hread]
  cases hn : digits? m.shortest.plainText with
  | none => rfl
  | some n =>
    have hbeyond := Magnitude.lt_of_digits?_shortest h hn
    have habs := Text.Numeral.natAbs_signed negative n
    exact Text.Numeral.toInt64?_eq_none_iff.2 (by omega)

/-- A whole number beyond the signed numbers of 64 bits that is read as a floating-point number has
no text that is read as one of them. -/
theorem int64?_toBinary64 (h : 2 ^ 63 ≤ n) :
    int64? ((Decimal.mk n 0).toBinary64 negative).plainText = none := by
  rw [toBinary64]
  split
  · rename_i m hm
    refine int64?_plainText (le_units_of_magnitude? hm ?_)
    rw [Magnitude.units_beyondInt64]
    exact Nat.mul_le_mul_right _ h
  · cases negative <;> decide

end Binary64

end Decimal

end Segmentation

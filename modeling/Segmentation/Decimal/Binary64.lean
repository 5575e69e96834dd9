/-!
# Binary floating-point numbers of 64 bits

A finite number is a sign and a magnitude `mantissa · 2 ^ (exponent - 1074)`; the bounds on mantissa
and exponent make the representation unique, so two magnitudes are equal exactly when they denote
one number. Zero has a sign too, and there is one NaN.

`Magnitude.nearest?` rounds a fraction to the nearest magnitude, a half to the even mantissa, in
exact arithmetic on natural numbers.
-/

namespace Segmentation.Decimal

/-- The absolute value of a finite number: `mantissa · 2 ^ (exponent - 1074)`. -/
structure Magnitude where
  mantissa : Nat
  exponent : Nat
  mantissa_lt : mantissa < Nat.pow 2 53
  exponent_le : exponent ≤ 2045
  normal : exponent = 0 ∨ Nat.pow 2 52 ≤ mantissa
  deriving DecidableEq, Repr

/-- A binary floating-point number of 64 bits. -/
inductive Binary64
  | finite (negative : Bool) (magnitude : Magnitude)
  | infinite (negative : Bool)
  | nan
  deriving DecidableEq, Repr

/-- The quotient `n / d` as a whole number, a half rounded to the even one. -/
def roundHalfEven (n d : Nat) : Nat :=
  let q := n / d
  let r := n % d
  if 2 * r < d ∨ (2 * r = d ∧ q % 2 = 0) then q else q + 1

namespace Magnitude

/-- The magnitude zero. -/
def zero : Magnitude :=
  ⟨0, 0, by decide, by decide, .inl rfl⟩

/-- The magnitude as a multiple of the smallest positive one, `2 ^ (-1074)`. -/
def units (m : Magnitude) : Nat :=
  m.mantissa * Nat.pow 2 m.exponent

/-- The magnitude of a mantissa and an exponent; none if it is too large. A mantissa that was
rounded up to the next power of two counts as half of it under the next exponent. -/
def ofParts? (mantissa exponent : Nat) : Option Magnitude :=
  if mantissa = Nat.pow 2 53 then make? (Nat.pow 2 52) (exponent + 1) else make? mantissa exponent
where
  make? (mantissa exponent : Nat) : Option Magnitude :=
    if h : mantissa < Nat.pow 2 53 ∧ exponent ≤ 2045 ∧
        (exponent = 0 ∨ Nat.pow 2 52 ≤ mantissa) then
      some ⟨mantissa, exponent, h.1, h.2.1, h.2.2⟩
    else none

/-- The magnitude nearest to a fraction; none if the fraction rounds beyond the largest one. -/
def nearest? (numerator denominator : Nat) : Option Magnitude :=
  let scaled := numerator * Nat.pow 2 1074
  let exponent := (scaled / denominator).log2 - 52
  ofParts? (roundHalfEven scaled (denominator * Nat.pow 2 exponent)) exponent

theorem ofParts?_self (m : Magnitude) : ofParts? m.mantissa m.exponent = some m := by
  have h := m.mantissa_lt
  rw [ofParts?, if_neg (by omega), ofParts?.make?,
    dif_pos ⟨m.mantissa_lt, m.exponent_le, m.normal⟩]

end Magnitude

/-- Neither infinite nor NaN. -/
def Binary64.isFinite : Binary64 → Bool
  | finite _ _ => true
  | _ => false

theorem roundHalfEven_mul (q d : Nat) (hd : 0 < d) : roundHalfEven (q * d) d = q := by
  simp only [roundHalfEven, Nat.mul_div_cancel q hd, Nat.mul_mod_left, Nat.mul_zero,
    if_pos (Or.inl hd)]

end Segmentation.Decimal

import Segmentation.Decimal.Literal

/-!
# Writing floating-point numbers

A finite number is written with the fewest decimal digits that read back as the same number; of
several such decimals with that many digits, the nearest one, and of two equally near the larger.

For each count of digits the two neighbours of the number among the decimals of that many digits
are tried, in exact arithmetic, from one digit on. Seventeen always suffice; were none found, the
exact decimal would be written, so that the result reads back whatever happens.

There are two layouts. The plain text has no exponent. The text for expressions has no point, which
would connect rules there: the digits before and behind the point of the plain text are joined, and
an exponent counts those behind it.
-/

namespace Segmentation.Decimal

/-- The decimal without zeros at the end of its digits. -/
def withoutTrailingZeros (d : Decimal) : Decimal :=
  if h : d.digits = 0 ∨ d.digits % 10 ≠ 0 then d
  else withoutTrailingZeros ⟨d.digits / 10, d.exponent + 1⟩
termination_by d.digits
decreasing_by
  simp only [not_or, Decidable.not_not] at h
  omega

namespace Magnitude

/-- The decimal of exactly this value. -/
def exactDecimal (m : Magnitude) : Decimal :=
  if m.exponent < 1074 then
    ⟨m.mantissa * Nat.pow 5 (1074 - m.exponent), -(1074 - m.exponent : Nat)⟩
  else ⟨m.mantissa * Nat.pow 2 (m.exponent - 1074), 0⟩

/-- The value in units of `10 ^ exponent`, as a fraction. -/
def fraction (m : Magnitude) (exponent : Int) : Nat × Nat :=
  if exponent < 0 then (m.units * Nat.pow 10 exponent.natAbs, Nat.pow 2 1074)
  else (m.units, Nat.pow 2 1074 * Nat.pow 10 exponent.natAbs)

/-- The nearer of the two neighbours among the multiples of `10 ^ exponent` that read back as this
magnitude; the upper one if they are equally near. -/
def neighbour? (m : Magnitude) (exponent : Int) : Option Decimal :=
  let (n, d) := m.fraction exponent
  let below := (Decimal.mk (n / d) exponent).withoutTrailingZeros
  let above := (Decimal.mk (n / d + 1) exponent).withoutTrailingZeros
  let nearerFirst := if 2 * (n % d) < d then [below, above] else [above, below]
  nearerFirst.find? fun decimal => decimal.magnitude? = some m

/-- The place of the first digit: `10 ^ place` is at most the value and `10 ^ (place + 1)` is
greater. -/
def place (m : Magnitude) : Int :=
  (Text.Numeral.ofNat (m.units * Nat.pow 10 400 / Nat.pow 2 1074)).length - 401

/-- The shortest decimal that reads back as this magnitude. -/
def shortest (m : Magnitude) : Decimal :=
  if m.mantissa = 0 then ⟨0, 0⟩
  else ((List.range 17).findSome? fun (k : Nat) => m.neighbour? (m.place - k)).getD m.exactDecimal

end Magnitude

/-! ## Layouts -/

/-- A decimal without an exponent: the digits followed by zeros, or with a point among them. -/
def plainText (d : Decimal) : List Char :=
  let digits := Text.Numeral.ofNat d.digits
  if d.exponent < 0 then
    let places := d.exponent.natAbs
    let padded := digits.leftpad (places + 1) '0'
    padded.take (padded.length - places) ++ '.' :: padded.drop (padded.length - places)
  else digits ++ List.replicate d.exponent.natAbs '0'

/-- The minus sign in front of a text, if there is one, and what follows. -/
def splitMinus : List Char → List Char × List Char
  | '-' :: cs => (['-'], cs)
  | cs => ([], cs)

/-- A text without an exponent, restated without its point: the digits before and behind the point,
less the zeros in front, and how many stood behind it. A text without a point stays as it is. -/
def withoutPoint (cs : List Char) : List Char :=
  match cs.dropWhile (· != '.') with
  | [] => cs
  | _ :: fraction =>
    let (minus, whole) := splitMinus (cs.takeWhile (· != '.'))
    let digits := (whole ++ fraction).dropWhile (· == '0')
    minus ++ (digits ++ 'e' :: '-' :: Text.Numeral.ofNat fraction.length)

namespace Binary64

/-- The text of a number, with a layout for the decimals of finite ones. -/
def textWith (layout : Decimal → List Char) : Binary64 → List Char
  | finite negative m => (if negative then ['-'] else []) ++ layout m.shortest
  | infinite negative => (if negative then ['-'] else []) ++ ['i', 'n', 'f']
  | nan => ['N', 'a', 'N']

/-- The text without an exponent. -/
def plainText : Binary64 → List Char :=
  textWith Decimal.plainText

/-- The text without a point. -/
def pointFreeText (x : Binary64) : List Char :=
  if x.isFinite then withoutPoint x.plainText else x.plainText

end Binary64

end Segmentation.Decimal

import Segmentation.Decimal.Binary64
import Segmentation.Text.Numeral
import Segmentation.Text.Caseless

/-!
# Reading floating-point numbers

A decimal is `digits · 10 ^ exponent`. The text of a number is an optional sign and then one of

* digits with at most one point among them, at least one digit, and optionally `e` or `E` with an
  exponent, which may have a sign of its own;
* `inf`, `infinity` or `nan`, in any case.

A number denotes the binary number nearest to its decimal.
-/

namespace Segmentation

/-- The number `digits · 10 ^ exponent`. -/
structure Decimal where
  digits : Nat
  exponent : Int
  deriving DecidableEq, Repr

namespace Decimal

/-- How many digits stand before the point, counted from the first that is not zero; negative if
zeros follow the point. -/
def scale (d : Decimal) : Int :=
  (Text.Numeral.ofNat d.digits).length + d.exponent

/-- The magnitude nearest to a decimal; none if it rounds beyond the largest one. Far outside the
range of the magnitudes the scale decides alone. -/
def magnitude? (d : Decimal) : Option Magnitude :=
  if d.digits = 0 ∨ d.scale < -330 then some Magnitude.zero
  else if 310 < d.scale then none
  else if d.exponent < 0 then Magnitude.nearest? d.digits (Nat.pow 10 d.exponent.natAbs)
  else Magnitude.nearest? (d.digits * Nat.pow 10 d.exponent.natAbs) 1

/-- The binary number nearest to a decimal with a sign. -/
def toBinary64 (negative : Bool) (d : Decimal) : Binary64 :=
  match d.magnitude? with
  | some m => .finite negative m
  | none => .infinite negative

/-- The exponent behind the digits of a decimal. -/
def exponent? : List Char → Option Int
  | [] => some 0
  | c :: cs => if c = 'e' ∨ c = 'E' then Text.Numeral.integer? cs else none

/-- The digits of a fraction, if a point stands first, and what follows. -/
def fraction : List Char → List Char × List Char
  | '.' :: cs => (cs.takeWhile Char.isDigit, cs.dropWhile Char.isDigit)
  | cs => ([], cs)

/-- A decimal without a sign. -/
def ofText? (cs : List Char) : Option Decimal :=
  let whole := cs.takeWhile Char.isDigit
  let (fraction, rest) := fraction (cs.dropWhile Char.isDigit)
  if whole ++ fraction = [] then none
  else (exponent? rest).map fun e =>
    ⟨Nat.ofDigitChars 10 (whole ++ fraction) 0, e - fraction.length⟩

end Decimal

namespace Decimal.Binary64

/-- A number without its sign. -/
def unsigned? (negative : Bool) (cs : List Char) : Option Binary64 :=
  match String.ofList (cs.map Char.toLower) with
  | "inf" | "infinity" => some (.infinite negative)
  | "nan" => some .nan
  | _ => (Decimal.ofText? cs).map (·.toBinary64 negative)

/-- A floating-point number. -/
def ofText? : List Char → Option Binary64
  | '-' :: cs => unsigned? true cs
  | '+' :: cs => unsigned? false cs
  | cs => unsigned? false cs

/-- The binary number nearest to a whole number. -/
def ofInt (n : Int) : Binary64 :=
  (Decimal.mk n.natAbs 0).toBinary64 (n < 0)

end Decimal.Binary64

end Segmentation

/-!
# Decimal numerals

Whole numbers in ASCII decimal digits. Numbers are written without a plus sign and without leading
zeros; when they are read, both are allowed. Main statements:

* `digits?_ofNat`, `integer?_ofInt`: what is written reads back;
* `int64?_ofInt`: so do all numbers of 64 bits with a sign.
-/

namespace Segmentation.Text.Numeral

/-- The decimal digits of a natural number. -/
def ofNat (n : Nat) : List Char :=
  Nat.toDigits 10 n

/-- The decimal digits of a whole number, behind a minus sign if it is negative. -/
def ofInt (n : Int) : List Char :=
  if n < 0 then '-' :: ofNat n.natAbs else ofNat n.natAbs

/-- The number that a nonempty run of digits denotes. -/
def digits? (cs : List Char) : Option Nat :=
  if cs ≠ [] ∧ cs.all Char.isDigit then some (Nat.ofDigitChars 10 cs 0) else none

/-- A natural number, which may have a plus sign. -/
def natural? : List Char → Option Nat
  | '+' :: cs => digits? cs
  | cs => digits? cs

/-- A whole number, which may have a sign. -/
def integer? : List Char → Option Int
  | '-' :: cs => (digits? cs).map fun n : Nat => -(n : Int)
  | '+' :: cs => (digits? cs).map Int.ofNat
  | cs => (digits? cs).map Int.ofNat

/-- The 64-bit number of a given value, if there is one. -/
def toInt64? (n : Int) : Option Int64 :=
  if Int64.minValue.toInt ≤ n ∧ n ≤ Int64.maxValue.toInt then some (Int64.ofInt n) else none

/-- A signed number of 64 bits; a numeral beyond them is refused. -/
def int64? (cs : List Char) : Option Int64 :=
  (integer? cs).bind toInt64?

/-! ## Reading back -/

theorem isDigit_of_mem_ofNat {n : Nat} {c : Char} (h : c ∈ ofNat n) : c.isDigit = true :=
  Nat.isDigit_of_mem_toDigits (by decide) (by decide) h

theorem ofNat_ne_nil (n : Nat) : ofNat n ≠ [] :=
  Nat.toDigits_ne_nil

theorem digits?_ofNat (n : Nat) : digits? (ofNat n) = some n := by
  have h : (ofNat n).all Char.isDigit = true :=
    List.all_eq_true.2 fun _ hc => isDigit_of_mem_ofNat hc
  rw [digits?, if_pos ⟨ofNat_ne_nil n, h⟩, ofNat, Nat.ofDigitChars_ten_toDigits]

theorem natural?_ofNat (n : Nat) : natural? (ofNat n) = some n := by
  have hd : ∀ c ∈ ofNat n, c.isDigit = true := fun _ hc => isDigit_of_mem_ofNat hc
  have hr := digits?_ofNat n
  unfold natural?
  split
  · rename_i h
    rw [h] at hd
    exact absurd (hd '+' List.mem_cons_self) (by decide)
  · exact hr

/-- Digits have no sign in front of them. -/
theorem integer?_ofNat (n : Nat) : integer? (ofNat n) = some (n : Int) := by
  have hd : ∀ c ∈ ofNat n, c.isDigit = true := fun _ hc => isDigit_of_mem_ofNat hc
  have hr := digits?_ofNat n
  cases hcs : ofNat n with
  | nil => exact absurd hcs (ofNat_ne_nil n)
  | cons c cs =>
    rw [hcs] at hd hr
    have hc := hd c (List.mem_cons_self)
    unfold integer?
    split
    · rename_i h; cases h; exact absurd hc (by decide)
    · rename_i h; cases h; exact absurd hc (by decide)
    · rw [hr]; rfl

theorem integer?_ofInt (n : Int) : integer? (ofInt n) = some n := by
  by_cases h : n < 0
  · rw [ofInt, if_pos h, integer?, digits?_ofNat, Option.map_some]
    exact congrArg some (by omega)
  · rw [ofInt, if_neg h, integer?_ofNat, Int.natAbs_of_nonneg (by omega)]

theorem toInt64?_toInt (n : Int64) : toInt64? n.toInt = some n := by
  rw [toInt64?, if_pos, Int64.ofInt_toInt]
  exact ⟨Int64.le_iff_toInt_le.1 (Int64.minValue_le n),
    Int64.le_iff_toInt_le.1 (Int64.le_maxValue n)⟩

theorem int64?_ofInt (n : Int64) : int64? (ofInt n.toInt) = some n := by
  rw [int64?, integer?_ofInt, Option.bind_some, toInt64?_toInt]

end Segmentation.Text.Numeral

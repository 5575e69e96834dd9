import Mathlib.Algebra.Field.Basic
import Mathlib.Algebra.Field.Rat
import Segmentation.Proofs.Value.Written

/-!
# Numbers restated without a point

Into an expression a number is written without a point: as digits, or as digits and how many of them
stood behind the point. That text denotes the number that the plain text denotes, with its sign. What
a text denotes is told apart from how texts are read and written. Main statements:

* `Denotes.denotes_iff`: a text denotes one number, with one sign;
* `Denotes.withoutPoint`: whatever the plain text, taking its point out keeps the number;
* `exists_denotes_plainText`, `isPlainText_plainText`: the plain texts of finite numbers;
* `plain_and_pointFree_denote`: what is written into an expression denotes the same.
-/

namespace Segmentation.Decimal

open Text.Numeral (ofNat sign mem_sign_append_iff)

/-- The number with a sign and an absolute value. -/
def withSign (negative : Bool) (q : ℚ) : ℚ :=
  if negative then -q else q

/-- A text denotes a number with a sign: digits, at least one, a whole number; digits on both sides
of a point, also a fraction of as many decimal places; digits and an exponent `e-k`, the whole number
divided by `10 ^ k`. -/
inductive Denotes (negative : Bool) : List Char → ℚ → Prop
  | whole {digits : List Char} (hne : digits ≠ []) (hdigit : ∀ c ∈ digits, c.isDigit = true) :
    Denotes negative (sign negative ++ digits) (withSign negative (Nat.ofDigitChars 10 digits 0))
  | fraction {whole fraction : List Char} (hwhole : whole ≠ []) (hfraction : fraction ≠ [])
      (hdigit : ∀ c ∈ whole ++ fraction, c.isDigit = true) :
    Denotes negative (sign negative ++ (whole ++ '.' :: fraction)) (withSign negative
      (Nat.ofDigitChars 10 whole 0 + Nat.ofDigitChars 10 fraction 0 / 10 ^ fraction.length))
  | scaled {mantissa : List Char} (hne : mantissa ≠ [])
      (hdigit : ∀ c ∈ mantissa, c.isDigit = true) (places : ℕ) :
    Denotes negative (sign negative ++ (mantissa ++ 'e' :: '-' :: ofNat places))
      (withSign negative (Nat.ofDigitChars 10 mantissa 0 / 10 ^ places))

/-- A plain text has no exponent, and if it has a point, its digits are not all zeros. -/
structure IsPlainText (cs : List Char) : Prop where
  exponent_notMem : 'e' ∉ cs
  nonzero : '.' ∈ cs → ∃ c ∈ cs, c.isDigit = true ∧ c ≠ '0'

/-! ## Denoted numbers -/

/-- The number that a decimal stands for. -/
def toRat (d : Decimal) : ℚ :=
  d.digits * 10 ^ d.exponent

theorem toRat_neg (n places : ℕ) : toRat ⟨n, -(places : ℤ)⟩ = n / 10 ^ places := by
  rw [toRat, zpow_neg, zpow_natCast, div_eq_mul_inv]

/-- The digits on both sides of a point, joined, count as many decimal places as the fraction has. -/
theorem ofDigitChars_append_div (whole fraction : List Char) :
    (Nat.ofDigitChars 10 (whole ++ fraction) 0 : ℚ) / 10 ^ fraction.length =
      Nat.ofDigitChars 10 whole 0 + Nat.ofDigitChars 10 fraction 0 / 10 ^ fraction.length := by
  have hpow : (10 : ℚ) ^ fraction.length ≠ 0 := pow_ne_zero _ (by decide)
  rw [Nat.ofDigitChars_append, Nat.ofDigitChars_eq_ofDigitChars_zero, Nat.cast_add, Nat.cast_mul,
    Nat.cast_pow, Nat.cast_ofNat, add_div, mul_div_cancel_left₀ _ hpow]

variable {negative : Bool} {cs : List Char} {q : ℚ}

/-- Reading finds the number that a text denotes behind its sign, before any rounding. -/
theorem Denotes.read (h : Denotes negative cs q) :
    ∃ c rest d, cs = sign negative ++ c :: rest ∧ c.isDigit = true ∧
      ofText? (c :: rest) = some d ∧ q = withSign negative d.toRat := by
  cases h with
  | @whole digits hne hdigit =>
    have hread := ofText?_digits hne hdigit
    obtain ⟨c, rest, rfl⟩ := List.exists_cons_of_ne_nil hne
    refine ⟨c, rest, _, rfl, hdigit c List.mem_cons_self, hread, ?_⟩
    rw [toRat, zpow_zero, mul_one]
  | @fraction whole fraction hwhole _ hdigit =>
    have hread := ofText?_fraction hwhole hdigit
    obtain ⟨c, rest, rfl⟩ := List.exists_cons_of_ne_nil hwhole
    refine ⟨c, _, _, rfl, hdigit c List.mem_cons_self, hread, ?_⟩
    rw [toRat_neg, ofDigitChars_append_div]
  | @scaled mantissa hne hdigit places =>
    have hread := ofText?_exponent hne hdigit places
    obtain ⟨c, rest, rfl⟩ := List.exists_cons_of_ne_nil hne
    exact ⟨c, _, _, rfl, hdigit c List.mem_cons_self, hread, by rw [toRat_neg]⟩

/-- A digit behind a sign shows what the sign is. -/
theorem sign_cons_inj {n₁ n₂ : Bool} {c₁ c₂ : Char} {rest₁ rest₂ : List Char}
    (h₁ : c₁.isDigit = true) (h₂ : c₂.isDigit = true)
    (h : sign n₁ ++ c₁ :: rest₁ = sign n₂ ++ c₂ :: rest₂) :
    n₁ = n₂ ∧ c₁ :: rest₁ = c₂ :: rest₂ := by
  have hminus : ¬ '-'.isDigit = true := by decide
  cases n₁ <;> cases n₂
  · exact ⟨rfl, h⟩
  · exact absurd ((List.cons.inj h).1 ▸ h₁) hminus
  · exact absurd ((List.cons.inj h).1 ▸ h₂) hminus
  · exact ⟨rfl, (List.cons.inj h).2⟩

/-- A text denotes one number, with one sign. -/
theorem Denotes.denotes_iff (h : Denotes negative cs q) {b : Bool} {p : ℚ} :
    Denotes b cs p ↔ b = negative ∧ p = q := by
  constructor
  · intro hp
    obtain ⟨c, rest, d, hcs, hc, hread, rfl⟩ := h.read
    obtain ⟨c', rest', d', hcs', hc', hread', rfl⟩ := hp.read
    obtain ⟨rfl, hsame⟩ := sign_cons_inj hc' hc (hcs'.symm.trans hcs)
    rw [hsame, hread] at hread'
    exact ⟨rfl, by rw [Option.some.inj hread']⟩
  · rintro ⟨rfl, rfl⟩
    exact h

/-! ## Taking the point out -/

/-- Whatever the plain text, without its point it denotes the same number. -/
theorem Denotes.withoutPoint (h : Denotes negative cs q) (hplain : IsPlainText cs) :
    Denotes negative (withoutPoint cs) q := by
  cases h with
  | @whole digits hne hdigit =>
    have hpoint : '.' ∉ sign negative ++ digits := by
      rw [mem_sign_append_iff (by decide)]
      exact fun hmem => absurd (hdigit _ hmem) (by decide)
    rw [withoutPoint_of_notMem hpoint]
    exact .whole hne hdigit
  | @fraction whole fraction _ _ hdigit =>
    have hzero : ∃ c ∈ whole ++ fraction, c ≠ '0' := by
      obtain ⟨c, hc, hcdigit, hne⟩ := hplain.nonzero (by simp)
      rw [mem_sign_append_iff (Text.Numeral.ne_sign_of_isDigit hcdigit).1] at hc
      have hpoint : c ≠ '.' := by
        rintro rfl
        cases hcdigit
      refine ⟨c, ?_, hne⟩
      simpa [hpoint] using hc
    rw [withoutPoint_fraction negative hdigit hzero, ← ofDigitChars_append_div]
    have hdigits := Text.Numeral.ofNat_ne_nil (Nat.ofDigitChars 10 (whole ++ fraction) 0)
    have hscaled := @Denotes.scaled negative _ hdigits
      (fun _ => Text.Numeral.isDigit_of_mem_ofNat) fraction.length
    rwa [ofNat, Nat.ofDigitChars_ten_toDigits] at hscaled
  | scaled => exact absurd (by simp) hplain.exponent_notMem

/-- Zeros in front are left out, zeros at the end are not. -/
example : withoutPoint ['-', '0', '.', '0', '3', '7', '0'] = ['-', '3', '7', '0', 'e', '-', '4'] := by
  decide

/-! ## Finite numbers -/

/-- A text without a point: behind the sign a mantissa, and perhaps an exponent `e-k`, all of it
characters that may stand in a bare argument. -/
structure IsPointFreeText (negative : Bool) (cs : List Char) : Prop where
  point_notMem : '.' ∉ cs
  mantissa : ∃ mantissa exponent, cs = sign negative ++ (mantissa ++ exponent) ∧ mantissa ≠ [] ∧
    (∀ c ∈ mantissa, c.isDigit = true) ∧ (exponent = [] ∨ ∃ k : ℕ, exponent = 'e' :: '-' :: ofNat k)
  isArgumentChar : ∀ c ∈ cs, Expr.isArgumentChar c = true

theorem Denotes.isPointFreeText (h : Denotes negative cs q)
    (hplain : ∀ c ∈ cs, isPlainChar c = true) : IsPointFreeText negative cs where
  point_notMem hmem := absurd (hplain _ hmem) (by decide)
  mantissa := by
    cases h with
    | @whole digits hne hdigit => exact ⟨digits, [], by rw [List.append_nil], hne, hdigit, .inl rfl⟩
    | fraction => exact absurd (hplain '.' (by simp)) (by decide)
    | @scaled mantissa hne hdigit places => exact ⟨mantissa, _, rfl, hne, hdigit, .inr ⟨places, rfl⟩⟩
  isArgumentChar c hc := isArgumentChar_of_isPlainChar (hplain c hc)

variable (negative) (m : Magnitude)

theorem exists_denotes_plainText : ∃ q, Denotes negative (Binary64.finite negative m).plainText q := by
  rw [Binary64.plainText_finite]
  by_cases he : m.shortest.exponent < 0
  · obtain ⟨whole, fraction, zeros, htext, hwhole, hspelled, hlength⟩ := plainText_fraction he
    have hfraction : fraction ≠ [] := by
      rw [← List.length_pos_iff]
      omega
    have hdigit : ∀ c ∈ whole ++ fraction, c.isDigit = true :=
      hspelled ▸ fun _ => Text.Numeral.isDigit_of_mem_spelled
    exact htext ▸ ⟨_, .fraction hwhole hfraction hdigit⟩
  · exact ⟨_, .whole (plainText_ne_nil _) fun _ => isDigit_of_mem_plainText he⟩

theorem isPlainText_plainText : IsPlainText (Binary64.finite negative m).plainText where
  exponent_notMem hmem := by
    rw [Binary64.plainText_finite, mem_sign_append_iff (by decide)] at hmem
    rcases mem_plainText hmem with hdigit | hpoint
    · cases hdigit
    · cases hpoint
  nonzero hpoint := by
    rw [Binary64.plainText_finite] at hpoint ⊢
    rw [mem_sign_append_iff (by decide)] at hpoint
    have he : m.shortest.exponent < 0 := by
      refine Decidable.byContradiction fun he => ?_
      exact absurd (isDigit_of_mem_plainText he hpoint) (by decide)
    obtain ⟨whole, fraction, zeros, htext, -, hspelled, -⟩ := plainText_fraction he
    obtain ⟨c, hc, hne⟩ := Text.Numeral.exists_mem_spelled zeros
      (Nat.pos_of_ne_zero (Magnitude.digits_shortest_ne_zero he))
    refine ⟨c, List.mem_append_right _ ?_, Text.Numeral.isDigit_of_mem_spelled hc, hne⟩
    rw [← hspelled, List.mem_append] at hc
    rw [htext, List.mem_append]
    exact hc.imp_right (List.mem_cons_of_mem _)

/-- A finite number is written into an expression without a point, and denotes there exactly what
its plain text denotes; zero too has a sign. -/
theorem plain_and_pointFree_denote :
    IsPlainText (Binary64.finite negative m).plainText ∧
      IsPointFreeText negative (Value.float (.finite negative m)).chars ∧
      ∃ q, ∀ b p, (Denotes b (Binary64.finite negative m).plainText p ↔ b = negative ∧ p = q) ∧
        (Denotes b (Value.float (.finite negative m)).chars p ↔ b = negative ∧ p = q) := by
  obtain ⟨q, hdenotes⟩ := exists_denotes_plainText negative m
  have hplain := isPlainText_plainText negative m
  have hwritten : Denotes negative (Value.float (.finite negative m)).chars q :=
    hdenotes.withoutPoint hplain
  have hchars : ∀ c ∈ (Value.float (.finite negative m)).chars, isPlainChar c = true :=
    fun _ => Value.isPlainChar_of_mem_chars (v := .float (.finite negative m))
      (show Kind.float ≠ .string by decide)
  refine ⟨hplain, hwritten.isPointFreeText hchars, q, fun b p => ?_⟩
  exact ⟨hdenotes.denotes_iff, hwritten.denotes_iff⟩

end Segmentation.Decimal

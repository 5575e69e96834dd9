import Mathlib.Algebra.GroupWithZero.Nat
import Segmentation.Decimal.Shortest
import Segmentation.Proofs.Text.Spelling

/-!
# Written numbers read back

Rounding leaves a fraction alone that is a magnitude already, so the exact decimal of a magnitude
reads back as it. The shortest decimal was chosen among those that read back. Main statements:

* `nearest?_of_mul_eq`: a fraction that equals a magnitude rounds to it;
* `magnitude?_exactDecimal` and `magnitude?_shortest`: decimals that read back;
* `withoutPoint_fraction`, `pointFreeText_finite`: what is written without a point;
* `ofText?_pointFreeText`: numbers that read back.
-/

namespace Segmentation.Decimal

/-! ## Powers

The definitions name the power of natural numbers; from here on it is written with its operator. -/

namespace Magnitude

theorem mantissa_lt_pow (m : Magnitude) : m.mantissa < 2 ^ 53 :=
  m.mantissa_lt

theorem normal_pow (m : Magnitude) : m.exponent = 0 ∨ 2 ^ 52 ≤ m.mantissa :=
  m.normal

theorem units_eq (m : Magnitude) : m.units = m.mantissa * 2 ^ m.exponent :=
  rfl

theorem nearest?_eq (n d : Nat) :
    nearest? n d = ofParts?
      (roundHalfEven (n * 2 ^ 1074) (d * 2 ^ ((n * 2 ^ 1074 / d).log2 - 52)))
      ((n * 2 ^ 1074 / d).log2 - 52) :=
  rfl

theorem exactDecimal_eq (m : Magnitude) :
    m.exactDecimal =
      if m.exponent < 1074 then
        ⟨m.mantissa * 5 ^ (1074 - m.exponent), -(1074 - m.exponent : Nat)⟩
      else ⟨m.mantissa * 2 ^ (m.exponent - 1074), 0⟩ :=
  rfl

end Magnitude

theorem magnitude?_eq (d : Decimal) :
    d.magnitude? =
      if d.digits = 0 ∨ d.scale < -330 then some Magnitude.zero
      else if 310 < d.scale then none
      else if d.exponent < 0 then Magnitude.nearest? d.digits (10 ^ d.exponent.natAbs)
      else Magnitude.nearest? (d.digits * 10 ^ d.exponent.natAbs) 1 :=
  rfl

/-! ## Magnitudes -/

namespace Magnitude

/-- The place of the first binary digit decides the exponent. -/
theorem log2_units (m : Magnitude) : m.units.log2 - 52 = m.exponent := by
  by_cases hm : m.mantissa = 0
  · have : m.exponent = 0 := m.normal_pow.resolve_right (by omega)
    rw [units_eq, hm, this, Nat.zero_mul, Nat.log2_zero]
  · have hu : m.units ≠ 0 := Nat.mul_ne_zero hm (Nat.ne_of_gt (Nat.two_pow_pos _))
    rcases m.normal_pow with he | hn
    · have hlt : m.units < 2 ^ 53 := by
        rw [units_eq, he, Nat.pow_zero, Nat.mul_one]
        exact m.mantissa_lt_pow
      have := (Nat.log2_lt hu).2 hlt
      omega
    · have h : m.units.log2 = 52 + m.exponent := by
        refine (Nat.log2_eq_iff hu).2 ⟨?_, ?_⟩
        · rw [Nat.pow_add]
          exact Nat.mul_le_mul_right _ hn
        · rw [show 52 + m.exponent + 1 = 53 + m.exponent by omega, Nat.pow_add]
          exact Nat.mul_lt_mul_of_pos_right m.mantissa_lt_pow (Nat.two_pow_pos _)
      omega

/-- A fraction that is a magnitude rounds to it. -/
theorem nearest?_of_mul_eq (m : Magnitude) {n d : Nat} (hd : 0 < d)
    (h : n * 2 ^ 1074 = m.units * d) : nearest? n d = some m := by
  have he : (n * 2 ^ 1074 / d).log2 - 52 = m.exponent := by
    rw [h, Nat.mul_div_cancel _ hd, log2_units]
  have hr : roundHalfEven (n * 2 ^ 1074) (d * 2 ^ m.exponent) = m.mantissa := by
    rw [h, units_eq, Nat.mul_assoc, Nat.mul_comm (2 ^ m.exponent) d]
    exact roundHalfEven_mul _ _ (Nat.mul_pos hd (Nat.two_pow_pos _))
  rw [nearest?_eq, he, hr, ofParts?_self]

theorem eq_zero_of_mantissa (m : Magnitude) (h : m.mantissa = 0) : m = zero := by
  have he : m.exponent = 0 := m.normal_pow.resolve_right (by omega)
  obtain ⟨mantissa, exponent, _, _, _⟩ := m
  cases h
  cases he
  rfl

/-- The first digit of the exact decimal is near the point. -/
theorem scale_exactDecimal (m : Magnitude) (hm : m.mantissa ≠ 0) :
    -330 ≤ m.exactDecimal.scale ∧ m.exactDecimal.scale ≤ 310 := by
  have hlt := m.mantissa_lt_pow
  rw [exactDecimal_eq]
  unfold Decimal.scale Text.Numeral.ofNat
  split
  · rename_i he
    have hk : 1074 - m.exponent ≤ 1074 := Nat.sub_le _ _
    have hk₀ : 0 < 1074 - m.exponent := by omega
    generalize 1074 - m.exponent = k at hk hk₀
    have hup : (Nat.toDigits 10 (m.mantissa * 5 ^ k)).length ≤ 16 + k := by
      refine (Nat.length_toDigits_le_iff (by decide) (by omega)).2 ?_
      rw [Nat.pow_add]
      exact Nat.lt_of_le_of_lt (Nat.mul_le_mul_left _ (Nat.pow_le_pow_left (by decide) k))
        (Nat.mul_lt_mul_of_pos_right (Nat.lt_of_lt_of_le hlt (by decide)) (Nat.pow_pos (by decide)))
    have hlow : k ≤ (Nat.toDigits 10 (m.mantissa * 5 ^ k)).length + 330 := by
      refine Decidable.byContradiction fun hc => ?_
      have hlen : (Nat.toDigits 10 (m.mantissa * 5 ^ k)).length ≤ k - 331 := by omega
      have hpos : 0 < k - 331 := by
        have := Nat.length_toDigits_pos (b := 10) (n := m.mantissa * 5 ^ k)
        omega
      have h₁ := (Nat.length_toDigits_le_iff (by decide) hpos).1 hlen
      have h₂ : 5 ^ k ≤ m.mantissa * 5 ^ k := Nat.le_mul_of_pos_left _ (Nat.pos_of_ne_zero hm)
      have h₃ : 5 ^ k * 10 ^ 331 < 10 ^ k := by
        calc 5 ^ k * 10 ^ 331 < 10 ^ (k - 331) * 10 ^ 331 :=
              Nat.mul_lt_mul_of_pos_right (Nat.lt_of_le_of_lt h₂ h₁) (Nat.pow_pos (by decide))
          _ = 10 ^ k := Nat.pow_sub_mul_pow 10 (by omega)
      rw [show (10 : Nat) ^ k = 5 ^ k * 2 ^ k by rw [← Nat.mul_pow]] at h₃
      have h₄ : (10 : Nat) ^ 331 < 2 ^ k := Nat.lt_of_mul_lt_mul_left h₃
      have h₅ (n : Nat) (hn : k ≤ n) : (2 : Nat) ^ k ≤ 2 ^ n := Nat.pow_le_pow_right (by decide) hn
      exact absurd (Nat.lt_of_lt_of_le h₄ (h₅ 1074 hk)) (by decide +kernel)
    simp only
    omega
  · rename_i he
    have hup : (Nat.toDigits 10 (m.mantissa * 2 ^ (m.exponent - 1074))).length ≤ 310 := by
      refine (Nat.length_toDigits_le_iff (by decide) (by decide)).2 ?_
      have h₁ (n : Nat) (hn : m.exponent - 1074 ≤ n) :
          m.mantissa * 2 ^ (m.exponent - 1074) < 2 ^ 53 * 2 ^ n :=
        Nat.lt_of_le_of_lt (Nat.mul_le_mul_left _ (Nat.pow_le_pow_right (by decide) hn))
          (Nat.mul_lt_mul_of_pos_right hlt (Nat.two_pow_pos _))
      exact Nat.lt_trans (h₁ 971 (by have := m.exponent_le; omega)) (by decide +kernel)
    simp only
    omega

theorem exactDecimal_digits_ne_zero (m : Magnitude) (hm : m.mantissa ≠ 0) :
    m.exactDecimal.digits ≠ 0 := by
  rw [exactDecimal_eq]
  split
  · exact Nat.mul_ne_zero hm (Nat.ne_of_gt (Nat.pow_pos (by decide)))
  · exact Nat.mul_ne_zero hm (Nat.ne_of_gt (Nat.two_pow_pos _))

theorem magnitude?_exactDecimal (m : Magnitude) (hm : m.mantissa ≠ 0) :
    m.exactDecimal.magnitude? = some m := by
  obtain ⟨hlow, hup⟩ := m.scale_exactDecimal hm
  have hne := m.exactDecimal_digits_ne_zero hm
  rw [Decimal.magnitude?_eq, if_neg (by omega), if_neg (by omega)]
  rw [exactDecimal_eq]
  split
  · rename_i he
    rw [if_pos (by simp only; omega)]
    refine nearest?_of_mul_eq m (Nat.pow_pos (by decide)) ?_
    simp only [Int.natAbs_neg, Int.natAbs_natCast, units_eq]
    calc m.mantissa * 5 ^ (1074 - m.exponent) * 2 ^ 1074
        = m.mantissa * 5 ^ (1074 - m.exponent) * (2 ^ m.exponent * 2 ^ (1074 - m.exponent)) :=
          congrArg _ ((Nat.pow_sub_mul_pow 2 (Nat.le_of_lt he)).symm.trans (Nat.mul_comm _ _))
      _ = m.mantissa * 2 ^ m.exponent * (5 ^ (1074 - m.exponent) * 2 ^ (1074 - m.exponent)) := by
          ac_rfl
      _ = m.mantissa * 2 ^ m.exponent * 10 ^ (1074 - m.exponent) := by rw [← Nat.mul_pow]
  · rename_i he
    rw [if_neg (by simp only; omega)]
    refine nearest?_of_mul_eq m (by decide) ?_
    simp only [Int.natAbs_zero, Nat.pow_zero, Nat.mul_one, units_eq]
    have hpow (n : Nat) (hn : n ≤ m.exponent) :
        m.mantissa * 2 ^ (m.exponent - n) * 2 ^ n = m.mantissa * 2 ^ m.exponent := by
      rw [Nat.mul_assoc, Nat.pow_sub_mul_pow 2 hn]
    exact hpow 1074 (Nat.le_of_not_lt he)

theorem magnitude?_of_neighbour? {m : Magnitude} {exponent : Int} {d : Decimal}
    (h : m.neighbour? exponent = some d) : d.magnitude? = some m := by
  have := List.find?_some h
  exact of_decide_eq_true this

/-- The shortest decimal reads back. -/
theorem magnitude?_shortest (m : Magnitude) : m.shortest.magnitude? = some m := by
  unfold shortest
  split
  · rename_i hm
    rw [eq_zero_of_mantissa m hm, Decimal.magnitude?, if_pos (Or.inl rfl)]
  · rename_i hm
    cases h : (List.range 17).findSome? fun (k : Nat) => m.neighbour? (m.place - k) with
    | none => exact m.magnitude?_exactDecimal hm
    | some d =>
      obtain ⟨k, -, hk⟩ := List.exists_of_findSome?_eq_some h
      exact magnitude?_of_neighbour? hk

/-- Zero is written without a fraction. -/
theorem digits_shortest_ne_zero {m : Magnitude} (h : m.shortest.exponent < 0) :
    m.shortest.digits ≠ 0 := by
  intro hdigits
  have hzero := m.magnitude?_shortest
  rw [Decimal.magnitude?, if_pos (Or.inl hdigits)] at hzero
  rw [← Option.some.inj hzero] at h
  exact absurd h (by decide)

end Magnitude

end Segmentation.Decimal

/-! ## Texts -/

namespace Segmentation

namespace Text.Numeral

theorem ofNat_mul_ten {n : Nat} (hn : 0 < n) : ofNat (n * 10) = ofNat n ++ ['0'] := by
  have h := @Nat.toDigits_append_toDigits 10 n 0 (by decide) hn (by decide)
  rw [Nat.add_zero, Nat.mul_comm] at h
  exact h.symm

theorem length_ofNat_mul_pow {n : Nat} (hn : 0 < n) (k : Nat) :
    (ofNat (n * 10 ^ k)).length = (ofNat n).length + k := by
  induction k with
  | zero => rw [Nat.pow_zero, Nat.mul_one, Nat.add_zero]
  | succ k ih =>
    rw [Nat.pow_succ, ← Nat.mul_assoc, ofNat_mul_ten (Nat.mul_pos hn (Nat.pow_pos (by decide))),
      List.length_append, ih, List.length_singleton]
    omega

end Text.Numeral

namespace Decimal

open Text.Numeral (ofNat sign spelled)

/-- Zeros moved from the exponent into the digits change nothing. -/
theorem magnitude?_mul_pow (n k : Nat) :
    (Decimal.mk (n * 10 ^ k) 0).magnitude? = (Decimal.mk n k).magnitude? := by
  by_cases hn : n = 0
  · simp [magnitude?, hn]
  · have hs : (Decimal.mk (n * 10 ^ k) 0).scale = (Decimal.mk n k).scale := by
      simp only [scale, Text.Numeral.length_ofNat_mul_pow (Nat.pos_of_ne_zero hn)]
      omega
    have hz : n * 10 ^ k ≠ 0 := Nat.mul_ne_zero hn (Nat.ne_of_gt (Nat.pow_pos (by decide)))
    have h₁ : ¬ (0 : Int) < 0 := by decide
    have h₂ : ¬ (k : Int) < 0 := by omega
    simp only [magnitude?_eq, hs, hz, hn, h₁, h₂, if_false, false_or, Int.natAbs_zero, Nat.pow_zero,
      Nat.mul_one, Int.natAbs_natCast]

/-! ### Layouts -/

/-- A decimal without a point: the digits and zeros of a whole number, or the digits and how many
of them form the fraction. -/
def pointFreeText (d : Decimal) : List Char :=
  if d.exponent < 0 then ofNat d.digits ++ 'e' :: '-' :: ofNat d.exponent.natAbs
  else d.plainText

theorem bne_point {cs : List Char} (h : '.' ∉ cs) : ∀ c ∈ cs, (c != '.') = true :=
  fun _ hc => bne_iff_ne.2 fun heq => h (heq ▸ hc)

theorem takeWhile_point {whole fraction : List Char} (h : '.' ∉ whole) :
    (whole ++ '.' :: fraction).takeWhile (· != '.') = whole :=
  Text.takeWhile_run (bne_point h) (Text.stopsAt_cons.2 (by decide))

theorem dropWhile_point {whole fraction : List Char} (h : '.' ∉ whole) :
    (whole ++ '.' :: fraction).dropWhile (· != '.') = '.' :: fraction :=
  Text.dropWhile_run (bne_point h) (Text.stopsAt_cons.2 (by decide))

theorem withoutPoint_of_notMem {cs : List Char} (h : '.' ∉ cs) : withoutPoint cs = cs := by
  have hdrop : (cs ++ []).dropWhile (· != '.') = [] :=
    Text.dropWhile_run (bne_point h) (Text.stopsAt_nil _)
  rw [List.append_nil] at hdrop
  rw [withoutPoint, hdrop]

theorem splitMinus_sign_append (negative : Bool) {cs : List Char} (h : '-' ∉ cs) :
    splitMinus (sign negative ++ cs) = (sign negative, cs) := by
  cases negative with
  | true => rfl
  | false =>
    show splitMinus cs = ([], cs)
    unfold splitMinus
    split
    · exact absurd List.mem_cons_self h
    · rfl

/-- The digits of a text without its point are those of the number on both sides of the point. -/
theorem withoutPoint_fraction (negative : Bool) {whole fraction : List Char}
    (hdigit : ∀ c ∈ whole ++ fraction, c.isDigit = true) (hzero : ∃ c ∈ whole ++ fraction, c ≠ '0') :
    withoutPoint (sign negative ++ (whole ++ '.' :: fraction)) =
      sign negative ++ (ofNat (Nat.ofDigitChars 10 (whole ++ fraction) 0) ++
        'e' :: '-' :: ofNat fraction.length) := by
  have hwhole {c : Char} (hc : c.isDigit = false) : c ∉ whole := fun hmem => by
    rw [hdigit c (List.mem_append_left _ hmem)] at hc
    cases hc
  have hpoint : '.' ∉ sign negative ++ whole := by
    rw [Text.Numeral.mem_sign_append_iff (by decide)]
    exact hwhole (by decide)
  rw [← List.append_assoc, withoutPoint, dropWhile_point hpoint]
  simp only [takeWhile_point hpoint, splitMinus_sign_append negative (hwhole (by decide)),
    Text.Numeral.dropWhile_zeros hdigit hzero]

/-- A decimal with a fraction has its digits, behind zeros if it needs some, around the point. -/
theorem plainText_fraction {d : Decimal} (h : d.exponent < 0) :
    ∃ whole fraction zeros, d.plainText = whole ++ '.' :: fraction ∧ whole ≠ [] ∧
      whole ++ fraction = spelled zeros d.digits ∧ fraction.length = d.exponent.natAbs := by
  have hlength : d.exponent.natAbs < ((ofNat d.digits).leftpad (d.exponent.natAbs + 1) '0').length := by
    rw [List.length_leftpad]
    omega
  rw [plainText, if_pos h]
  refine ⟨_, _, d.exponent.natAbs + 1 - (ofNat d.digits).length, rfl, ?_, ?_, ?_⟩
  · rw [ne_eq, ← List.length_eq_zero_iff, List.length_take]
    omega
  · exact List.take_append_drop _ _
  · rw [List.length_drop]
    omega

/-- A decimal without a fraction has digits only. -/
theorem isDigit_of_mem_plainText {d : Decimal} (h : ¬ d.exponent < 0) {c : Char}
    (hc : c ∈ d.plainText) : c.isDigit = true := by
  rw [plainText, if_neg h] at hc
  exact (List.mem_append.1 hc).elim Text.Numeral.isDigit_of_mem_ofNat
    Text.Numeral.isDigit_of_mem_zeros

theorem mem_plainText {d : Decimal} {c : Char} (h : c ∈ d.plainText) :
    c.isDigit = true ∨ c = '.' := by
  by_cases he : d.exponent < 0
  · obtain ⟨whole, fraction, zeros, htext, -, hspelled, -⟩ := plainText_fraction he
    rw [htext, List.mem_append, List.mem_cons, or_left_comm, ← List.mem_append, hspelled] at h
    exact h.symm.imp_left Text.Numeral.isDigit_of_mem_spelled
  · exact .inl (isDigit_of_mem_plainText he h)

theorem plainText_ne_nil (d : Decimal) : d.plainText ≠ [] := by
  by_cases he : d.exponent < 0
  · obtain ⟨whole, fraction, _, htext, -⟩ := plainText_fraction he
    rw [htext]
    exact List.append_ne_nil_of_right_ne_nil _ (List.cons_ne_nil _ _)
  · rw [plainText, if_neg he]
    exact List.append_ne_nil_of_left_ne_nil (Text.Numeral.ofNat_ne_nil _) _

theorem ofDigitChars_plainText {d : Decimal} (h : ¬ d.exponent < 0) :
    Nat.ofDigitChars 10 d.plainText 0 = d.digits * 10 ^ d.exponent.natAbs := by
  rw [plainText, if_neg h, Nat.ofDigitChars_append, ofNat, Nat.ofDigitChars_ten_toDigits,
    Nat.ofDigitChars_replicate_zero, Nat.mul_comm]

/-! ### Reading -/

/-- Digits alone are a whole number. -/
theorem ofText?_digits {cs : List Char} (hne : cs ≠ []) (h : ∀ c ∈ cs, c.isDigit = true) :
    ofText? cs = some ⟨Nat.ofDigitChars 10 cs 0, 0⟩ := by
  have ht := Text.takeWhile_run h (Text.stopsAt_nil _)
  have hd := Text.dropWhile_run h (Text.stopsAt_nil _)
  rw [List.append_nil] at ht hd
  simp only [ofText?, ht, hd, fraction, List.append_nil, hne, if_false, exponent?, Option.map_some]
  rfl

/-- Digits on both sides of a point. -/
theorem ofText?_fraction {whole fraction : List Char} (hne : whole ≠ [])
    (h : ∀ c ∈ whole ++ fraction, c.isDigit = true) :
    ofText? (whole ++ '.' :: fraction) =
      some ⟨Nat.ofDigitChars 10 (whole ++ fraction) 0, -(fraction.length : Int)⟩ := by
  obtain ⟨hwhole, hfraction⟩ := List.forall_mem_append.1 h
  have hstop : Text.StopsAt Char.isDigit ('.' :: fraction) := Text.stopsAt_cons.2 (by decide)
  have ht := Text.takeWhile_run hfraction (Text.stopsAt_nil _)
  have hd := Text.dropWhile_run hfraction (Text.stopsAt_nil _)
  rw [List.append_nil] at ht hd
  have hsplit : Decimal.fraction ('.' :: fraction) = (fraction, []) := by
    rw [Decimal.fraction, ht, hd]
  simp only [ofText?, Text.takeWhile_run hwhole hstop, Text.dropWhile_run hwhole hstop, hsplit,
    List.append_eq_nil_iff, hne, false_and, if_false, exponent?, Option.map_some, Int.zero_sub]

/-- Digits with a negative exponent. -/
theorem ofText?_exponent {cs : List Char} (hne : cs ≠ []) (h : ∀ c ∈ cs, c.isDigit = true) (k : Nat) :
    ofText? (cs ++ 'e' :: '-' :: ofNat k) = some ⟨Nat.ofDigitChars 10 cs 0, -(k : Int)⟩ := by
  have hstop : Text.StopsAt Char.isDigit ('e' :: '-' :: ofNat k) := Text.stopsAt_cons.2 (by decide)
  have hk : Text.Numeral.integer? ('-' :: ofNat k) = some (-(k : Int)) := by
    rw [Text.Numeral.integer?, Text.Numeral.digits?_ofNat, Option.map_some]
  have hf : fraction ('e' :: '-' :: ofNat k) = ([], 'e' :: '-' :: ofNat k) := rfl
  simp only [ofText?, Text.takeWhile_run h hstop, Text.dropWhile_run h hstop, hf,
    List.append_nil, hne, if_false, exponent?, true_or, if_true, hk, Option.map_some,
    List.length_nil, Int.natCast_zero, Int.sub_zero]

/-- The text without a point denotes a decimal with the same magnitude. -/
theorem ofText?_pointFreeText (d : Decimal) :
    ∃ d', ofText? d.pointFreeText = some d' ∧ d'.magnitude? = d.magnitude? := by
  obtain ⟨n, e⟩ := d
  by_cases h : e < 0
  · refine ⟨⟨n, e⟩, ?_, rfl⟩
    rw [pointFreeText, if_pos h, ofText?_exponent (Text.Numeral.ofNat_ne_nil n)
      (fun _ => Text.Numeral.isDigit_of_mem_ofNat), ofNat, Nat.ofDigitChars_ten_toDigits]
    simp only [Option.some.injEq, Decimal.mk.injEq, true_and]
    omega
  · refine ⟨⟨n * 10 ^ e.natAbs, 0⟩, ?_, ?_⟩
    · rw [pointFreeText, if_neg h, ofText?_digits (plainText_ne_nil _)
        (fun _ => isDigit_of_mem_plainText h), ofDigitChars_plainText h]
    · rw [magnitude?_mul_pow]
      congr 2
      omega

/-- The first character of the text of a decimal is a digit. -/
theorem head_pointFreeText (d : Decimal) :
    ∃ c cs, d.pointFreeText = c :: cs ∧ c.isDigit = true := by
  have hdigit : ∀ c ∈ ofNat d.digits, c.isDigit = true :=
    fun _ hc => Text.Numeral.isDigit_of_mem_ofNat hc
  cases h : ofNat d.digits with
  | nil => exact absurd h (Text.Numeral.ofNat_ne_nil _)
  | cons c cs =>
    rw [h] at hdigit
    rw [pointFreeText, plainText, h]
    split
    · exact ⟨c, _, rfl, hdigit c List.mem_cons_self⟩
    · exact ⟨c, _, rfl, hdigit c List.mem_cons_self⟩

namespace Binary64

/-- Digits have no case. -/
theorem toLower_digit {c : Char} (h : c.isDigit = true) : c.toLower = c := by
  simp only [Char.isDigit, Bool.and_eq_true, decide_eq_true_eq, ge_iff_le,
    UInt32.le_iff_toNat_le] at h
  have h₀ : '9'.val.toNat = 57 := rfl
  have h₁ : 'A'.val.toNat = 65 := rfl
  refine dif_neg fun hu => ?_
  have hA := UInt32.le_iff_toNat_le.1 hu.1
  omega

theorem unsigned?_digit (negative : Bool) {c : Char} {cs : List Char} (hc : c.isDigit = true) :
    unsigned? negative (c :: cs) = (Decimal.ofText? (c :: cs)).map (·.toBinary64 negative) := by
  have hlow : c.toLower.isDigit = true := by
    rw [toLower_digit hc]
    exact hc
  have hword {w : String} {d : Char} {ds : List Char} (hw : w.toList = d :: ds)
      (hd : d.isDigit = false) : String.ofList ((c :: cs).map Char.toLower) ≠ w := by
    intro h
    rw [← h, String.toList_ofList, List.map_cons] at hw
    rw [(List.cons.inj hw).1, hd] at hlow
    exact absurd hlow (by decide)
  unfold unsigned?
  split
  · exact absurd ‹_› (hword (w := "inf") rfl (by decide))
  · exact absurd ‹_› (hword (w := "infinity") rfl (by decide))
  · exact absurd ‹_› (hword (w := "nan") rfl (by decide))
  · rfl

/-- A sign in front of a text that begins with a digit. -/
theorem ofText?_sign_append (negative : Bool) {c : Char} {cs : List Char} (hc : c.isDigit = true) :
    ofText? (sign negative ++ c :: cs) = (Decimal.ofText? (c :: cs)).map (·.toBinary64 negative) := by
  rw [← unsigned?_digit negative hc]
  obtain ⟨hminus, hplus⟩ := Text.Numeral.ne_sign_of_isDigit hc
  cases negative with
  | true => rfl
  | false =>
    show ofText? (c :: cs) = _
    unfold ofText?
    split
    · exact absurd (List.cons.inj ‹_›).1 hminus
    · exact absurd (List.cons.inj ‹_›).1 hplus
    · rfl

theorem plainText_finite (negative : Bool) (m : Magnitude) :
    (finite negative m).plainText = sign negative ++ m.shortest.plainText :=
  rfl

/-- Without its point the plain text of a finite number is the text of its decimal without one. -/
theorem pointFreeText_finite (negative : Bool) (m : Magnitude) :
    (finite negative m).pointFreeText = sign negative ++ m.shortest.pointFreeText := by
  show withoutPoint (finite negative m).plainText = _
  rw [plainText_finite, Decimal.pointFreeText]
  split
  · rename_i he
    obtain ⟨whole, fraction, zeros, htext, -, hspelled, hlength⟩ := plainText_fraction he
    have hpos := Nat.pos_of_ne_zero (Magnitude.digits_shortest_ne_zero he)
    have hdigit : ∀ c ∈ whole ++ fraction, c.isDigit = true :=
      hspelled ▸ fun _ => Text.Numeral.isDigit_of_mem_spelled
    have hzero : ∃ c ∈ whole ++ fraction, c ≠ '0' :=
      hspelled ▸ Text.Numeral.exists_mem_spelled zeros hpos
    rw [htext, withoutPoint_fraction negative hdigit hzero, hspelled,
      Text.Numeral.ofDigitChars_spelled, hlength]
  · rename_i he
    refine withoutPoint_of_notMem fun hmem => ?_
    rw [Text.Numeral.mem_sign_append_iff (by decide)] at hmem
    exact absurd (isDigit_of_mem_plainText he hmem) (by decide)

/-- A finite number reads back from its text for expressions. -/
theorem ofText?_pointFreeText (negative : Bool) (m : Magnitude) :
    ofText? (finite negative m).pointFreeText = some (finite negative m) := by
  obtain ⟨d, hd, hm⟩ := Decimal.ofText?_pointFreeText m.shortest
  obtain ⟨c, cs, hcs, hc⟩ := Decimal.head_pointFreeText m.shortest
  rw [m.magnitude?_shortest] at hm
  rw [pointFreeText_finite, hcs, ofText?_sign_append negative hc, ← hcs, hd, Option.map_some,
    toBinary64, hm]

end Binary64

end Decimal

end Segmentation

import Segmentation.Text.Numeral
import Segmentation.Text.Run

/-!
# Spellings of numbers

A natural number is read from its digits, from its digits behind zeros, and from either of these
behind a plus sign. There are no other spellings. In the order of texts the plain digits of a number
come last among its spellings, unless the number is zero: of that the longest run of zeros comes
last. Main statements:

* `digits?_eq_some_iff`, `natural?_eq_some_iff`: the spellings of a number;
* `dropWhile_zeros`: digits without the zeros in front;
* `spelled_lt_ofNat`, `spelled_zero_lt`: their order;
* `integer?_sign_append`: whole numbers behind a sign;
* `toInt64?_eq_some_iff`, `toInt64?_eq_none_iff`: the range of the signed numbers of 64 bits.
-/

namespace Segmentation.Text.Numeral

/-- The digits of a number behind zeros. -/
def spelled (zeros n : Nat) : List Char :=
  List.replicate zeros '0' ++ ofNat n

theorem spelled_succ (zeros n : Nat) : spelled (zeros + 1) n = '0' :: spelled zeros n := by
  rw [spelled, List.replicate_succ, List.cons_append, ← spelled]

theorem digitChar_sub {c : Char} (hc : c.isDigit = true) : Nat.digitChar (c.toNat - '0'.toNat) = c := by
  obtain ⟨h₀, h₉⟩ := Char.isDigit_iff_toNat.1 hc
  have hzero : '0'.toNat = 48 := rfl
  have hnine : '9'.toNat = 57 := rfl
  rw [← Char.toNat_inj, Nat.toNat_digitChar_of_lt_ten (by omega)]
  omega

/-- Digits behind the digits of a number that is not zero prolong them. -/
theorem ofNat_append {n : Nat} (hn : 0 < n) {cs : List Char} (h : ∀ c ∈ cs, c.isDigit = true) :
    ofNat n ++ cs = ofNat (Nat.ofDigitChars 10 cs n) := by
  induction cs generalizing n with
  | nil => exact List.append_nil _
  | cons c cs ih =>
    obtain ⟨hc, hcs⟩ := List.forall_mem_cons.1 h
    have hlt : c.toNat - '0'.toNat < 10 := by
      have h₉ : c.toNat ≤ 57 := (Char.isDigit_iff_toNat.1 hc).2
      have hzero : '0'.toNat = 48 := rfl
      omega
    have hnext := @Nat.toDigits_append_toDigits 10 n _ (by decide) hn hlt
    rw [Nat.toDigits_of_lt_base hlt, digitChar_sub hc] at hnext
    rw [Nat.ofDigitChars_cons, ← ih (by omega) hcs, ofNat, ofNat, ← hnext, List.append_assoc,
      List.singleton_append]

/-- Digits are zeros with the digits of a number behind them. -/
theorem eq_spelled {cs : List Char} (hne : cs ≠ []) (h : ∀ c ∈ cs, c.isDigit = true) :
    ∃ zeros, cs = spelled zeros (Nat.ofDigitChars 10 cs 0) := by
  induction cs with
  | nil => exact absurd rfl hne
  | cons c cs ih =>
    obtain ⟨hc, hcs⟩ := List.forall_mem_cons.1 h
    rw [Nat.ofDigitChars_cons, Nat.mul_zero, Nat.zero_add]
    by_cases hzero : c = '0'
    · subst hzero
      rw [Nat.sub_self]
      by_cases hnil : cs = []
      · subst hnil
        exact ⟨0, by decide⟩
      · obtain ⟨zeros, hcs⟩ := ih hnil hcs
        exact ⟨zeros + 1, by rw [spelled_succ, ← hcs]⟩
    · obtain ⟨h₀, h₉⟩ := Char.isDigit_iff_toNat.1 hc
      have hnine : '9'.toNat = 57 := rfl
      have h₁ : '0'.toNat = 48 := rfl
      have hvalue : 0 < c.toNat - '0'.toNat := by
        have hne : c.toNat ≠ '0'.toNat := fun heq => hzero (Char.toNat_inj.1 heq)
        omega
      have hprolong := ofNat_append hvalue hcs
      rw [ofNat, Nat.toDigits_of_lt_base (by omega), digitChar_sub hc] at hprolong
      exact ⟨0, hprolong⟩

theorem spelled_ne_nil (zeros n : Nat) : spelled zeros n ≠ [] :=
  List.append_ne_nil_of_right_ne_nil _ (ofNat_ne_nil n)

theorem isDigit_of_mem_zeros {k : Nat} {c : Char} (h : c ∈ List.replicate k '0') :
    c.isDigit = true := by
  rw [(List.mem_replicate.1 h).2]
  decide

theorem isDigit_of_mem_spelled {zeros n : Nat} {c : Char} (h : c ∈ spelled zeros n) :
    c.isDigit = true :=
  (List.mem_append.1 h).elim isDigit_of_mem_zeros isDigit_of_mem_ofNat

theorem ofDigitChars_spelled (zeros n : Nat) : Nat.ofDigitChars 10 (spelled zeros n) 0 = n := by
  rw [spelled, Nat.ofDigitChars_append, Nat.ofDigitChars_replicate_zero, Nat.mul_zero, ofNat,
    Nat.ofDigitChars_ten_toDigits]

theorem digits?_spelled (zeros n : Nat) : digits? (spelled zeros n) = some n := by
  have hdigits : (spelled zeros n).all Char.isDigit = true :=
    List.all_eq_true.2 fun _ => isDigit_of_mem_spelled
  rw [digits?, if_pos ⟨spelled_ne_nil zeros n, hdigits⟩, ofDigitChars_spelled]

theorem digits?_eq_some_iff {cs : List Char} {n : Nat} :
    digits? cs = some n ↔ ∃ zeros, cs = spelled zeros n := by
  constructor
  · intro h
    unfold digits? at h
    split at h
    · rename_i hcs
      rw [← Option.some.inj h]
      exact eq_spelled hcs.1 (List.all_eq_true.1 hcs.2)
    · cases h
  · rintro ⟨zeros, rfl⟩
    exact digits?_spelled zeros n

theorem digits?_eq_none_of_mem {cs : List Char} {c : Char} (hc : c ∈ cs)
    (hdigit : c.isDigit = false) : digits? cs = none := by
  refine if_neg fun h => ?_
  rw [List.all_eq_true.1 h.2 c hc] at hdigit
  cases hdigit

/-- A plus sign is no digit. -/
theorem plus_ne_spelled (cs : List Char) (zeros n : Nat) : '+' :: cs ≠ spelled zeros n := by
  intro h
  have hplus : '+'.isDigit = true := isDigit_of_mem_spelled (h ▸ List.mem_cons_self)
  exact absurd hplus (by decide)

theorem natural?_eq_some_iff {cs : List Char} {n : Nat} :
    natural? cs = some n ↔ ∃ zeros, cs = spelled zeros n ∨ cs = '+' :: spelled zeros n := by
  unfold natural?
  split
  · simp only [digits?_eq_some_iff, plus_ne_spelled, List.cons.injEq, true_and, false_or]
  · rename_i hsign
    have hplain (zeros : Nat) : cs ≠ '+' :: spelled zeros n := hsign _
    simp only [digits?_eq_some_iff, hplain, or_false]

/-- The first of the digits of a number that is not zero is not zero. -/
theorem head_ofNat {n : Nat} (hn : 0 < n) : ∃ c cs, ofNat n = c :: cs ∧ '0' < c := by
  cases hcs : ofNat n with
  | nil => exact absurd hcs (ofNat_ne_nil n)
  | cons c cs =>
    have hread := digits?_ofNat n
    have hdigits : ∀ d ∈ c :: cs, d.isDigit = true := fun d hd =>
      isDigit_of_mem_ofNat (hcs ▸ hd : d ∈ ofNat n)
    refine ⟨c, cs, rfl, ?_⟩
    by_cases hzero : c = '0'
    · -- The rest of the digits would spell the number already, and be as long as all of them.
      subst hzero
      rw [hcs] at hread
      by_cases hnil : cs = []
      · subst hnil
        exact absurd (Option.some.inj hread) (Nat.ne_of_lt hn)
      · obtain ⟨zeros, hrest⟩ := eq_spelled hnil (List.forall_mem_cons.1 hdigits).2
        rw [hrest, ← spelled_succ, digits?_spelled] at hread
        rw [Option.some.inj hread] at hrest
        have hlength := congrArg List.length hcs
        rw [hrest, spelled, List.length_cons, List.length_append] at hlength
        omega
    · obtain ⟨h₀, -⟩ := Char.isDigit_iff_toNat.1 (hdigits c List.mem_cons_self)
      refine Char.not_le.1 fun hle => hzero (Char.toNat_inj.1 ?_)
      exact Nat.le_antisymm (UInt32.le_iff_toNat_le.1 hle) h₀

/-! ## Zeros in front -/

theorem spelled_zero (zeros : Nat) : spelled zeros 0 = List.replicate (zeros + 1) '0' := by
  rw [List.replicate_succ']
  rfl

/-- A spelling of a number that is not zero is not all zeros. -/
theorem exists_mem_spelled (zeros : Nat) {n : Nat} (hn : 0 < n) : ∃ c ∈ spelled zeros n, c ≠ '0' := by
  obtain ⟨c, cs, hcs, hc⟩ := head_ofNat hn
  refine ⟨c, List.mem_append_right _ (hcs ▸ List.mem_cons_self), ?_⟩
  rintro rfl
  exact absurd hc (by decide)

theorem dropWhile_spelled (zeros : Nat) {n : Nat} (hn : 0 < n) :
    (spelled zeros n).dropWhile (· == '0') = ofNat n := by
  obtain ⟨c, cs, hcs, hc⟩ := head_ofNat hn
  have hstop : StopsAt (· == '0') (ofNat n) := by
    rw [hcs, stopsAt_cons, beq_eq_false_iff_ne]
    rintro rfl
    exact absurd hc (by decide)
  exact dropWhile_run (fun d hd => beq_iff_eq.2 (List.mem_replicate.1 hd).2) hstop

/-- Less the zeros in front, digits that are not all zeros are those of the number they denote. -/
theorem dropWhile_zeros {cs : List Char} (hdigit : ∀ c ∈ cs, c.isDigit = true)
    (hzero : ∃ c ∈ cs, c ≠ '0') :
    cs.dropWhile (· == '0') = ofNat (Nat.ofDigitChars 10 cs 0) := by
  obtain ⟨c, hc, hne⟩ := hzero
  obtain ⟨zeros, hcs⟩ := eq_spelled (List.ne_nil_of_mem hc) hdigit
  generalize Nat.ofDigitChars 10 cs 0 = n at hcs
  have hn : 0 < n := by
    refine Nat.pos_of_ne_zero fun h => hne ?_
    rw [hcs, h, spelled_zero] at hc
    exact (List.mem_replicate.1 hc).2
  rw [hcs, dropWhile_spelled zeros hn]

/-! ## Order -/

/-- The digits of a number come after the same digits behind zeros. -/
theorem spelled_lt_ofNat {zeros n : Nat} (hz : 0 < zeros) (hn : 0 < n) :
    spelled zeros n < ofNat n := by
  obtain ⟨c, cs, hcs, hc⟩ := head_ofNat hn
  obtain ⟨zeros, rfl⟩ := Nat.exists_eq_succ_of_ne_zero (Nat.ne_of_gt hz)
  rw [spelled, List.replicate_succ, List.cons_append, hcs]
  exact List.cons_lt_cons_iff.2 (.inl hc)

/-- Of the spellings of zero the longer one comes later. -/
theorem spelled_zero_lt {zeros more : Nat} (h : zeros < more) : spelled zeros 0 < spelled more 0 := by
  obtain ⟨k, rfl⟩ : ∃ k, more = zeros + (k + 1) := ⟨more - zeros - 1, by omega⟩
  have hlt : List.replicate (zeros + 1) '0' ++ [] <
      List.replicate (zeros + 1) '0' ++ '0' :: List.replicate k '0' :=
    List.append_left_lt (List.nil_lt_cons _ _)
  rw [List.append_nil, ← List.replicate_succ, List.replicate_append_replicate] at hlt
  rw [spelled_zero, spelled_zero, show zeros + (k + 1) + 1 = zeros + 1 + (k + 1) by omega]
  exact hlt

/-- A plus sign comes before all digits. -/
theorem plus_lt_spelled (cs : List Char) (zeros n : Nat) : '+' :: cs < spelled zeros n := by
  cases hcs : spelled zeros n with
  | nil => exact absurd hcs (spelled_ne_nil zeros n)
  | cons c rest =>
    have hc : c.isDigit = true := isDigit_of_mem_spelled (hcs ▸ List.mem_cons_self)
    have hlt : '+' < '0' := by decide
    refine List.cons_lt_cons_iff.2 (.inl (UInt32.lt_of_lt_of_le hlt ?_))
    exact UInt32.le_iff_toNat_le.2 (Char.isDigit_iff_toNat.1 hc).1

/-! ## Signs -/

/-- The sign in front of a number. -/
def sign (negative : Bool) : List Char :=
  if negative then ['-'] else []

/-- The whole number with a sign and an absolute value. -/
def signed (negative : Bool) (n : Nat) : Int :=
  if negative then -(n : Int) else n

theorem natAbs_signed (negative : Bool) (n : Nat) : (signed negative n).natAbs = n := by
  cases negative
  · exact Int.natAbs_natCast n
  · exact (Int.natAbs_neg n).trans (Int.natAbs_natCast n)

/-- A sign adds no character but its own. -/
theorem mem_sign_append_iff {negative : Bool} {c : Char} {cs : List Char} (hc : c ≠ '-') :
    c ∈ sign negative ++ cs ↔ c ∈ cs := by
  cases negative with
  | true =>
    show c ∈ '-' :: cs ↔ c ∈ cs
    rw [List.mem_cons, or_iff_right hc]
  | false => exact Iff.rfl

/-- A sign in front of a numeral without a sign. -/
theorem integer?_sign_append (negative : Bool) {cs : List Char}
    (h : ∀ c ∈ cs, c ≠ '-' ∧ c ≠ '+') :
    integer? (sign negative ++ cs) = (digits? cs).map (signed negative) := by
  cases negative with
  | true => rfl
  | false =>
    show integer? cs = _
    unfold integer?
    split
    · exact absurd rfl (h '-' List.mem_cons_self).1
    · exact absurd rfl (h '+' List.mem_cons_self).2
    · rfl

theorem ne_sign_of_isDigit {c : Char} (h : c.isDigit = true) : c ≠ '-' ∧ c ≠ '+' := by
  constructor
  · rintro rfl
    cases h
  · rintro rfl
    cases h

/-! ## Ranges -/

theorem toInt64?_eq_some_iff {n : Int} {k : Int64} : toInt64? n = some k ↔ k.toInt = n := by
  constructor
  · intro h
    unfold toInt64? at h
    split at h
    · rename_i hrange
      rw [← Option.some.inj h]
      exact Int64.toInt_ofInt_of_le hrange.1 (Int.lt_of_le_of_lt hrange.2 (by decide))
    · cases h
  · rintro rfl
    exact toInt64?_toInt k

/-- The signed numbers of 64 bits reach from `-2 ^ 63` to below `2 ^ 63`. -/
theorem toInt64?_eq_none_iff {n : Int} :
    toInt64? n = none ↔ n < -9223372036854775808 ∨ 9223372036854775808 ≤ n := by
  have hmin : Int64.minValue.toInt = -9223372036854775808 := rfl
  have hmax : Int64.maxValue.toInt = 9223372036854775807 := rfl
  unfold toInt64?
  split
  · simp only [reduceCtorEq, false_iff]
    omega
  · simp only [true_iff]
    omega

end Segmentation.Text.Numeral

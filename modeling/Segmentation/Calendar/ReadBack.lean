import Mathlib.Algebra.GroupWithZero.Nat
import Segmentation.Calendar.Pattern
import Segmentation.Text.Run

/-!
# Written dates read back

Every date of the calendar reads back from its text, also those before the year 0 and after the year
9999: `Date.ofText?_text`.
-/

namespace Segmentation.Calendar

open Text (StopsAt)

theorem digits?_run {width : Nat} {run rest : List Char} (hne : run ≠ [])
    (hrun : ∀ c ∈ run, c.isDigit = true) (hlen : run.length ≤ width)
    (hrest : StopsAt Char.isDigit rest) :
    digits? width (run ++ rest) = some (Nat.ofDigitChars 10 run 0, rest) := by
  have hstop : StopsAt Char.isDigit (rest.take (width - run.length)) := by
    cases rest with
    | nil => simpa using Text.stopsAt_nil _
    | cons c cs =>
      cases width - run.length with
      | zero => exact Text.stopsAt_nil _
      | succ k => exact Text.stopsAt_cons.2 (Text.stopsAt_cons.1 hrest)
  have ht : ((run ++ rest).take width).takeWhile Char.isDigit = run := by
    rw [List.take_append, List.take_of_length_le hlen, Text.takeWhile_run hrun hstop]
  simp only [digits?, ht, hne, if_false, List.drop_left]

theorem padded_eq (width n : Nat) :
    padded width n =
      List.replicate (width - (Text.Numeral.ofNat n).length) '0' ++ Text.Numeral.ofNat n :=
  rfl

theorem padded_ne_nil (width n : Nat) : padded width n ≠ [] := by
  rw [padded_eq]
  simp [Text.Numeral.ofNat_ne_nil]

theorem isDigit_of_mem_padded {width n : Nat} {c : Char} (h : c ∈ padded width n) :
    c.isDigit = true := by
  rw [padded_eq] at h
  rcases List.mem_append.1 h with h | h
  · rw [(List.mem_replicate.1 h).2]
    decide
  · exact Text.Numeral.isDigit_of_mem_ofNat h

theorem value_padded (width n : Nat) : Nat.ofDigitChars 10 (padded width n) 0 = n := by
  rw [padded_eq, Nat.ofDigitChars_append, Nat.ofDigitChars_replicate_zero, Nat.mul_zero]
  exact Nat.ofDigitChars_ten_toDigits

theorem length_padded_le {width n : Nat} (hw : 0 < width) (h : n < 10 ^ width) :
    (padded width n).length ≤ width := by
  have := (Nat.length_toDigits_le_iff (b := 10) (by decide) hw).2 h
  rw [padded_eq, List.length_append, List.length_replicate, Text.Numeral.ofNat]
  omega

theorem digits?_padded {width n : Nat} {rest : List Char} (hw : 0 < width) (h : n < 10 ^ width)
    (hrest : StopsAt Char.isDigit rest) :
    digits? width (padded width n ++ rest) = some (n, rest) := by
  rw [digits?_run (padded_ne_nil _ _) (fun _ hc => isDigit_of_mem_padded hc)
    (length_padded_le hw h) hrest, value_padded]

/-- A year reads back in front of a hyphen. -/
theorem year?_yearText (year : Int) (rest : List Char) :
    year? (yearText year ++ '-' :: rest) = some (year, '-' :: rest) := by
  have hstop : StopsAt Char.isDigit ('-' :: rest) := Text.stopsAt_cons.2 (by decide)
  have hsigned : digits? (padded 4 year.natAbs ++ '-' :: rest).length
      (padded 4 year.natAbs ++ '-' :: rest) = some (year.natAbs, '-' :: rest) := by
    rw [digits?_run (padded_ne_nil _ _) (fun _ hc => isDigit_of_mem_padded hc)
      (by rw [List.length_append]; omega) hstop, value_padded]
  unfold yearText
  split
  · rw [List.cons_append, year?, hsigned, Option.map_some]
    simp only [Option.some.injEq, Prod.mk.injEq, and_true]
    omega
  · split
    · rw [List.cons_append, year?, hsigned, Option.map_some]
      simp only [Option.some.injEq, Prod.mk.injEq, and_true]
      omega
    · have hread : digits? 4 (padded 4 year.natAbs ++ '-' :: rest) =
          some (year.natAbs, '-' :: rest) :=
        digits?_padded (by decide) (by omega) hstop
      have hdigit : ∀ c ∈ padded 4 year.natAbs, c.isDigit = true :=
        fun _ hc => isDigit_of_mem_padded hc
      cases hp : padded 4 year.natAbs with
      | nil => exact absurd hp (padded_ne_nil _ _)
      | cons c cs =>
        rw [hp] at hread hdigit
        have hc := hdigit c List.mem_cons_self
        rw [List.cons_append] at hread ⊢
        unfold year?
        split
        · rename_i h
          cases (List.cons.inj h).1
          exact absurd hc (by decide)
        · rename_i h
          cases (List.cons.inj h).1
          exact absurd hc (by decide)
        · rw [hread, Option.map_some]
          simp only [Option.some.injEq, Prod.mk.injEq, and_true]
          omega

/-- Signs and digits are no blanks. -/
theorem dropWhile_isBlank_of_digit {c : Char} {cs : List Char} (h : c.isDigit = true) :
    (c :: cs).dropWhile Text.isBlank = c :: cs := by
  refine List.dropWhile_cons_of_neg ?_
  simp only [Char.isDigit, Bool.and_eq_true, decide_eq_true_eq, ge_iff_le,
    UInt32.le_iff_toNat_le] at h
  have h₀ : '0'.val.toNat = 48 := rfl
  have h₁ : '9'.val.toNat = 57 := rfl
  have h₂ : c.toNat = c.val.toNat := rfl
  simp [Text.isBlank]
  omega

theorem dropWhile_isBlank_padded (width n : Nat) (rest : List Char) :
    (padded width n ++ rest).dropWhile Text.isBlank = padded width n ++ rest := by
  have hdigit : ∀ c ∈ padded width n, c.isDigit = true := fun _ hc => isDigit_of_mem_padded hc
  cases hp : padded width n with
  | nil => exact absurd hp (padded_ne_nil _ _)
  | cons c cs =>
    rw [hp] at hdigit
    exact dropWhile_isBlank_of_digit (hdigit c List.mem_cons_self)

theorem dropWhile_isBlank_yearText (year : Int) (rest : List Char) :
    (yearText year ++ rest).dropWhile Text.isBlank = yearText year ++ rest := by
  unfold yearText
  split
  · exact List.dropWhile_cons_of_neg (by decide)
  · split
    · exact List.dropWhile_cons_of_neg (by decide)
    · exact dropWhile_isBlank_padded _ _ _

theorem daysInMonth_le (year : Int) (month : Nat) : daysInMonth year month ≤ 31 := by
  unfold daysInMonth
  split
  · split <;> omega
  all_goals omega

theorem month_le_of_daysInMonth {year : Int} {month : Nat} (h : 0 < daysInMonth year month) :
    month ≤ 12 := by
  unfold daysInMonth at h
  split at h <;> omega

/-- A day of the calendar has a month and a day number of two digits. -/
theorem Date.bounds (d : Date) : d.month < 100 ∧ d.day < 100 := by
  obtain ⟨-, -, h₁, h₂⟩ := d.isDay
  have hdays := daysInMonth_le d.year d.month
  have hmonth := month_le_of_daysInMonth (Nat.lt_of_lt_of_le h₁ h₂)
  omega

/-- A date reads back from its text. -/
theorem Date.ofText?_text (d : Date) : Date.ofText? d.text = some d := by
  obtain ⟨hm, hd⟩ := d.bounds
  have hmonth (rest : List Char) :
      digits? 2 (padded 2 d.month ++ '-' :: rest) = some (d.month, '-' :: rest) :=
    digits?_padded (by decide) hm (Text.stopsAt_cons.2 (by decide))
  have hday : digits? 2 (padded 2 d.day) = some (d.day, []) := by
    have h : digits? 2 (padded 2 d.day ++ []) = some (d.day, []) :=
      digits?_padded (by decide) hd (Text.stopsAt_nil _)
    rwa [List.append_nil] at h
  have hblank : (padded 2 d.day).dropWhile Text.isBlank = padded 2 d.day := by
    have := dropWhile_isBlank_padded 2 d.day []
    rwa [List.append_nil] at this
  have hread : Reading.of? {} hyphenated d.text = some ⟨d.year, d.month, d.day⟩ := by
    simp only [hyphenated, Date.text, Reading.of?, dropWhile_isBlank_yearText, year?_yearText,
      Option.bind_some, if_true, dropWhile_isBlank_padded, hmonth, hblank, hday]
  rw [Date.ofText?, Date.read?, hread, Option.bind_some, Date.of?_self]
  rfl

end Segmentation.Calendar

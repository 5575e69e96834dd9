import Segmentation.Calendar.Date
import Segmentation.Text.Blank

/-!
# Reading dates

A pattern says in which order the parts of a date stand in a text. A number may have blanks in front
of it. Months and days have one or two digits. A year has up to four digits, or a sign and then any
number of digits.
-/

namespace Segmentation.Calendar

/-- One part of a pattern. -/
inductive Part
  | year
  | month
  | day
  | blanks
  | literal (c : Char)
  deriving DecidableEq, Repr

/-- `YYYY-MM-DD`. -/
def hyphenated : List Part :=
  [.year, .literal '-', .month, .literal '-', .day]

/-- `MM/DD/YYYY`. -/
def slashed : List Part :=
  [.month, .literal '/', .day, .literal '/', .year]

/-- `YYYY-MM-DD` with blanks allowed between its parts and at its end. -/
def spaced : List Part :=
  [.year, .blanks, .literal '-', .month, .blanks, .literal '-', .day, .blanks]

/-- The number in the leading digits of a text, of which there must be one and at most `width` are
taken, and what follows them. -/
def digits? (width : Nat) (cs : List Char) : Option (Nat × List Char) :=
  let digits := (cs.take width).takeWhile Char.isDigit
  if digits = [] then none
  else some (Nat.ofDigitChars 10 digits 0, cs.drop digits.length)

/-- A year: a sign and digits, or up to four digits. -/
def year? : List Char → Option (Int × List Char)
  | '-' :: cs => (digits? cs.length cs).map fun (n, rest) => (-(n : Int), rest)
  | '+' :: cs => (digits? cs.length cs).map fun (n, rest) => ((n : Int), rest)
  | cs => (digits? 4 cs).map fun (n, rest) => ((n : Int), rest)

/-- The numbers read so far. -/
structure Reading where
  year : Int := 0
  month : Nat := 0
  day : Nat := 0

/-- The numbers of a text that consists of the parts of a pattern and nothing else. -/
def Reading.of? (reading : Reading) : List Part → List Char → Option Reading
  | [], cs => if cs = [] then some reading else none
  | .year :: parts, cs =>
    (year? (cs.dropWhile Text.isBlank)).bind fun (n, rest) =>
      { reading with year := n }.of? parts rest
  | .month :: parts, cs =>
    (digits? 2 (cs.dropWhile Text.isBlank)).bind fun (n, rest) =>
      { reading with month := n }.of? parts rest
  | .day :: parts, cs =>
    (digits? 2 (cs.dropWhile Text.isBlank)).bind fun (n, rest) =>
      { reading with day := n }.of? parts rest
  | .blanks :: parts, cs => reading.of? parts (cs.dropWhile Text.isBlank)
  | .literal c :: parts, cs =>
    match cs with
    | d :: rest => if c = d then reading.of? parts rest else none
    | [] => none

/-- The date in a text of the given pattern, if the calendar has it. -/
def Date.read? (pattern : List Part) (cs : List Char) : Option Date :=
  (Reading.of? {} pattern cs).bind fun r => Date.of? r.year r.month r.day

/-- A date typed by a user: hyphenated, or else slashed. -/
def Date.ofText? (cs : List Char) : Option Date :=
  (Date.read? hyphenated cs).or (Date.read? slashed cs)

end Segmentation.Calendar

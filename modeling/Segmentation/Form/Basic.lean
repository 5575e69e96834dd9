import Segmentation.Decimal.Shortest

/-!
# Forms

A form is the nested data that a web page sends for a rule: texts, numbers, truth values, lists and
objects with named entries. A number that is written without a point and an exponent is a whole
number if it fits into 64 bits, with a sign or without; any other number is the nearest
floating-point number.
-/

namespace Segmentation

open Decimal (Binary64)

/-- A number of a form: a whole number of 64 bits, with a sign or without, or a floating-point
number. -/
inductive Number
  | whole (n : Int)
  | real (x : Binary64)
  deriving DecidableEq, Repr

namespace Number

/-- Whether a whole number fits into 64 bits, with a sign or without. -/
def fits (n : Int) : Bool :=
  Int64.minValue.toInt ≤ n && n < UInt64.size

/-- The finite floating-point number of a text. -/
def real? (cs : List Char) : Option Number :=
  ((Binary64.ofText? cs).filter Binary64.isFinite).map real

/-- The number that a literal denotes; none if it is too large for a floating-point number. Zero
with a minus sign is a floating-point number, as whole numbers have no negative zero. -/
def ofLiteral? (cs : List Char) : Option Number :=
  match Text.Numeral.integer? cs with
  | some n => if fits n ∧ cs ≠ ['-', '0'] then some (whole n) else real? cs
  | none => real? cs

/-- The floating-point number nearest to a number. -/
def toBinary64 : Number → Binary64
  | whole n => Binary64.ofInt n
  | real x => x

/-- The text of a number: whole numbers of 64 bits with a sign are written exactly, all others as
floating-point numbers without an exponent. -/
def text : Number → List Char
  | whole n =>
    match Text.Numeral.toInt64? n with
    | some _ => Text.Numeral.ofInt n
    | none => (Binary64.ofInt n).plainText
  | real x => x.plainText

end Number

/-- Nested data, as sent by a web page. -/
inductive Form
  | null
  | boolean (b : Bool)
  | number (n : Number)
  | text (s : String)
  | list (items : List Form)
  | object (entries : List (String × Form))

/-- The text that a form stands for as an argument; lists, objects and null stand for none. -/
def Form.argument? : Form → Option String
  | text s => some s
  | number n => some (String.ofList n.text)
  | boolean true => some "true"
  | boolean false => some "false"
  | _ => none

end Segmentation

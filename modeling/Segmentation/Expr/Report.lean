import Segmentation.Expr.Reader
import Segmentation.Text.Numeral

/-!
# Reports of reading errors

What a user is told about an input that is no expression: the line in question with a mark under the
place where reading gave up, and what was expected there. An input of several lines is reported with
the number of the line and of the column.

The mark stands behind as many blanks as there are bytes before the place in an input of one line.
In an input of several lines it stands behind as many as there are characters before the place in
its line, or bytes if the character at the place is not of ASCII.
-/

namespace Segmentation.Expr

/-- What was expected. -/
def Expectation.text : Expectation → List Char
  | field => "expected field".toList
  | operation => "expected operation".toList
  | comma => "expected `,`".toList
  | other => []

/-- How many bytes characters have in UTF-8. -/
def byteSize (cs : List Char) : Nat :=
  cs.foldl (fun n c => n + c.utf8Size) 0

/-- Blanks. -/
def blanks (n : Nat) : List Char :=
  List.replicate n ' '

namespace Error

/-- The place where reading gave up, as a number of bytes from the beginning of the input. -/
def offset (e : Error) : Nat :=
  byteSize e.before

/-- The part of the line in question before the place. -/
def lineBefore (e : Error) : List Char :=
  (e.before.reverse.takeWhile (· ≠ '\n')).reverse

/-- The line in question. -/
def line (e : Error) : List Char :=
  e.lineBefore ++ e.rest.takeWhile (· ≠ '\n')

/-- The number of the line, counted from one. -/
def lineNumber (e : Error) : Nat :=
  e.before.count '\n' + 1

/-- The number of blanks before the mark in an input of several lines. -/
def column (e : Error) : Nat :=
  match e.rest with
  | c :: _ => if c.toNat < 128 then e.lineBefore.length else byteSize e.lineBefore
  | [] => e.lineBefore.length

/-- The report on an input of one line. -/
def shortReport (e : Error) : List Char :=
  e.before ++ e.rest ++ '\n' :: (blanks e.offset ++ '^' :: '\n' :: e.expected.text)

/-- The report on an input of several lines. -/
def longReport (e : Error) : List Char :=
  let number := Text.Numeral.ofNat e.lineNumber
  let margin := blanks number.length
  "parse error at line ".toList ++ number ++ ", column ".toList ++
    Text.Numeral.ofNat (e.column + 1) ++ '\n' ::
    (margin ++ " |\n".toList ++ number ++ " | ".toList ++ e.line ++ '\n' ::
    (margin ++ " | ".toList ++ blanks e.column ++ '^' :: '\n' :: e.expected.text))

/-- What a user is told. -/
def message (e : Error) : String :=
  "expression parse error: " ++
    String.ofList (if '\n' ∈ e.before ++ e.rest then e.longReport else e.shortReport)

end Error

end Segmentation.Expr

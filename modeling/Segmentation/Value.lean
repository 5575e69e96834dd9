import Segmentation.Text.Quoted
import Segmentation.Decimal.Shortest
import Segmentation.Calendar.Date

/-!
# Values

The typed arguments of operations, and their text in an expression. The text of every value is a
single bare or quoted argument, in which the characters that connect rules do not show.
-/

namespace Segmentation

open Decimal (Binary64)
open Calendar (Date)

/-- The kinds of values. -/
inductive Kind
  | string
  | integer
  | float
  | boolean
  | date
  deriving DecidableEq, Repr

namespace Kind

/-- All kinds. -/
def all : List Kind :=
  [string, integer, float, boolean, date]

/-- The name of a kind. -/
def name : Kind → String
  | string => "string"
  | integer => "integer"
  | float => "float"
  | boolean => "boolean"
  | date => "date"

end Kind

/-- A typed argument. -/
inductive Value
  | string (s : String)
  | integer (n : Int64)
  | float (x : Binary64)
  | boolean (b : Bool)
  | date (d : Date)
  deriving DecidableEq, Repr

namespace Value

/-- The kind of a value. -/
def kind : Value → Kind
  | string _ => .string
  | integer _ => .integer
  | float _ => .float
  | boolean _ => .boolean
  | date _ => .date

/-- The characters of a value in an expression. -/
def chars : Value → List Char
  | string s => Text.Quoted.write s.toList
  | integer n => Text.Numeral.ofInt n.toInt
  | float x => x.pointFreeText
  | boolean true => ['t', 'r', 'u', 'e']
  | boolean false => ['f', 'a', 'l', 's', 'e']
  | date d => d.text

/-- The text of a value in an expression. -/
def text (v : Value) : String :=
  String.ofList v.chars

end Value

/-- Whether a slot of a kind takes a value. -/
def Kind.accepts (k : Kind) (v : Value) : Bool :=
  k = v.kind

theorem Kind.accepts_iff {k : Kind} {v : Value} : k.accepts v = true ↔ v.kind = k := by
  rw [Kind.accepts, decide_eq_true_eq, eq_comm]

end Segmentation

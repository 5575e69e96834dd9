import Segmentation.Form.Basic
import Segmentation.Value
import Segmentation.Calendar.Pattern

/-!
# Values as forms

A value is sent as an object with a single entry, whose name tells its kind.
-/

namespace Segmentation

namespace Value

open Calendar (Date)

/-- The value that a form holds. -/
def ofForm? : Form → Option Value
  | .object [("Int", .number (.whole n))] => (Text.Numeral.toInt64? n).map integer
  | .object [("Float", .number n)] => some (float n.toBinary64)
  | .object [("Bool", .boolean b)] => some (boolean b)
  | .object [("String", .text s)] => some (string s)
  | .object [("Date", .text s)] => (Date.read? Calendar.spaced s.toList).map date
  | _ => none

/-- The form of a value. A number that is not finite has no form but null. -/
def toForm : Value → Form
  | integer n => .object [("Int", .number (.whole n.toInt))]
  | float x => .object [("Float", if x.isFinite then .number (.real x) else .null)]
  | boolean b => .object [("Bool", .boolean b)]
  | string s => .object [("String", .text s)]
  | date d => .object [("Date", .text (String.ofList d.text))]

end Value

end Segmentation

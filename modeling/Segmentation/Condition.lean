import Segmentation.Text.Blank
import Segmentation.Text.Caseless

/-!
# Conditions

How a rule goes on: not at all, or with another rule that is joined to it. A rule joined by `and`
narrows the one before it inside the same handler; rules joined by `or` are alternatives; rules
joined by `with` stand beside each other. Each way to go on has a connector, the text between the
two rules in an expression.
-/

namespace Segmentation

/-- How the next rule of a chain is joined, if there is one. -/
inductive Condition
  | none
  | and
  | or
  | beside
  deriving DecidableEq, Repr

/-- A text that is no condition. -/
structure UnknownCondition where
  text : String
  deriving DecidableEq, Repr

/-- What a user is told. -/
def UnknownCondition.message (e : UnknownCondition) : String :=
  s!"unknown condition '{e.text}'"

namespace Condition

/-- The word for a condition. -/
def word : Condition → String
  | none => ""
  | and => "and"
  | or => "or"
  | beside => "with"

/-- The characters between two rules. -/
def connector? : Condition → Option (List Char)
  | none => .none
  | and => some ['.']
  | or => some [' ', '+', ' ']
  | beside => some ['\n']

/-- The condition that a word stands for, in any case and with blanks around it. -/
def ofText (s : String) : Except UnknownCondition Condition :=
  match Text.lowercase (Text.trim s) with
  | "" => .ok none
  | "and" => .ok and
  | "or" => .ok or
  | "with" => .ok beside
  | _ => .error ⟨s⟩

/-- The condition of an optional text: none if the text is absent. -/
def ofText? (s : Option String) : Except UnknownCondition Condition :=
  match s with
  | .none => .ok none
  | some s => ofText s

/-- Labels and words of the conditions, as offered to a user. -/
def options : List (String × String) :=
  [("", ""), ("And", "and"), ("Or", "or"), ("With", "with")]

theorem ofText_word (c : Condition) : ofText c.word = .ok c := by
  cases c <;> rfl

end Condition

end Segmentation

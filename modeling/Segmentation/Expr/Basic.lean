import Segmentation.Text.Identifier
import Segmentation.Text.Quoted
import Segmentation.Config

/-!
# Expressions

An expression is the written form of a chain of rules:

    rule       := ["not "] identifier ":" identifier "(" arguments ")" [connector rule]
    arguments  := [argument] ("," {space or tab} [argument])*
    argument   := bare text | quoted text
    connector  := "." | " + " | line feed | carriage return, line feed

The types below keep every choice that the grammar leaves to the writer, so an expression has
exactly one text, `Expression.text`, and a text is an expression when it is the text of a
well-formed one. What an expression says is its configuration, `Expression.config`.
-/

namespace Segmentation.Expr

/-- An argument as written. -/
inductive Argument
  | bare (cs : List Char)
  | quoted (items : List Text.Quoted.Item)
  deriving DecidableEq, Repr

/-- What stands between two rules. -/
inductive Connector
  | point
  | plus
  | lineFeed
  | carriageReturnLineFeed
  deriving DecidableEq, Repr

/-- The part of an expression for one rule: the first argument, if it is there, and after each comma
the blanks and the argument, if it is there. -/
structure Segment where
  negated : Bool
  field : List Char
  operation : List Char
  first : Option Argument
  more : List (List Char × Option Argument)
  deriving DecidableEq, Repr

/-- A chain of rules as written. -/
structure Expression where
  head : Segment
  tail : List (Connector × Segment)
  deriving DecidableEq, Repr

/-- The characters of a bare argument. More are read than are ever written bare. -/
def isArgumentChar (c : Char) : Bool :=
  Text.Quoted.isBareChar c || c == '.' || c == '+'

/-- The blanks allowed after a comma. -/
def isGap (c : Char) : Bool :=
  c == ' ' || c == '\t'

/-! ## Texts -/

/-- The characters of an argument. -/
def Argument.text : Argument → List Char
  | bare cs => cs
  | quoted items => '"' :: (Text.Quoted.text items ++ ['"'])

/-- The characters of an argument that may be missing. -/
def optionalText : Option Argument → List Char
  | some a => a.text
  | none => []

/-- The characters of a connector. -/
def Connector.text : Connector → List Char
  | point => ['.']
  | plus => [' ', '+', ' ']
  | lineFeed => ['\n']
  | carriageReturnLineFeed => ['\r', '\n']

/-- The characters of the arguments after the first, each behind a comma. -/
def moreText (more : List (List Char × Option Argument)) : List Char :=
  more.flatMap fun (gap, argument) => ',' :: (gap ++ optionalText argument)

/-- The characters in front of a negated rule. -/
def negation : List Char :=
  ['n', 'o', 't', ' ']

/-- The characters of a segment. -/
def Segment.text (s : Segment) : List Char :=
  (if s.negated then negation else []) ++ (s.field ++ ':' :: (s.operation ++
    '(' :: (optionalText s.first ++ (moreText s.more ++ [')']))))

/-- The characters of an expression. -/
def Expression.text (e : Expression) : List Char :=
  e.head.text ++ e.tail.flatMap fun (connector, segment) => connector.text ++ segment.text

/-! ## Meaning -/

/-- The text that an argument stands for. -/
def Argument.value : Argument → List Char
  | bare cs => cs
  | quoted items => Text.Quoted.value items

/-- The condition that a connector stands for. -/
def Connector.condition : Connector → Condition
  | point => .and
  | plus => .or
  | lineFeed | carriageReturnLineFeed => .beside

/-- The arguments by position; a missing one leaves its position empty. -/
def Segment.places (s : Segment) : List (Option Argument) :=
  s.first :: s.more.map Prod.snd

/-- The arguments that are there, by index. -/
def Segment.arguments (s : Segment) : Arguments :=
  .ofList <| s.places.zipIdx.filterMap fun (argument, i) =>
    argument.map fun a => (i, String.ofList a.value)

/-- The level that a segment stands for, before the connector behind it. -/
def Segment.level (s : Segment) : Level where
  operator := if s.negated then some "not" else none
  field := some (String.ofList s.field)
  operation := some (String.ofList s.operation)
  arguments := s.arguments

/-- The configuration of a segment and what follows it. -/
def configFrom (s : Segment) : List (Connector × Segment) → Config
  | [] => { head := s.level }
  | (connector, next) :: rest =>
    Config.chain { head := s.level } connector.condition (configFrom next rest)

/-- The configuration that an expression stands for. -/
def Expression.config (e : Expression) : Config :=
  configFrom e.head e.tail

/-! ## Well-formed expressions -/

/-- A nonempty run of identifier characters that begins with one that may. -/
def IsIdentifier (cs : List Char) : Prop :=
  Text.isIdentifier (String.ofList cs) = true

/-- A nonempty run of bare characters, or items that can be told apart. -/
def Argument.WellFormed : Argument → Prop
  | bare cs => cs ≠ [] ∧ ∀ c ∈ cs, isArgumentChar c = true
  | quoted items => ∀ i ∈ items, i.WellFormed

/-- A segment of the grammar. -/
structure Segment.WellFormed (s : Segment) : Prop where
  field : IsIdentifier s.field
  operation : IsIdentifier s.operation
  first : ∀ a ∈ s.first, a.WellFormed
  gaps : ∀ p ∈ s.more, ∀ c ∈ p.1, isGap c = true
  more : ∀ p ∈ s.more, ∀ a ∈ p.2, a.WellFormed

/-- An expression of the grammar. -/
structure Expression.WellFormed (e : Expression) : Prop where
  head : e.head.WellFormed
  tail : ∀ p ∈ e.tail, p.2.WellFormed

end Segmentation.Expr

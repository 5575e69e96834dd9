import Segmentation.Rule.Basic

/-!
# Validity and text of rules

A rule is valid when every node that its conditions ask for is there and is resolved. A valid rule
has a text: for each node `not ` if it is negated, its predicate and the connector of its
condition. A rule that is not valid has the empty text.
-/

namespace Segmentation

/-- What is wrong with a rule: its root has no resolution, or what follows its root is not valid. -/
inductive RuleFault
  | field
  | condition
  deriving DecidableEq, Repr

namespace RuleFault

/-- The part of the rule that is wrong. -/
def part : RuleFault → String
  | field => "field"
  | condition => "condition"

/-- What is wrong with the part. -/
def complaint (_ : RuleFault) : String :=
  "is invalid"

/-- What a user is told. -/
def message (f : RuleFault) : String :=
  s!"{f.part} {f.complaint}"

end RuleFault

namespace Node

/-- Whether a node and the nodes below it that its condition asks for are all resolved. -/
def isValid (n : Node) : List Node → Bool
  | [] => n.resolution.isSome && n.condition = .none
  | child :: rest => n.resolution.isSome && (n.condition = .none || child.isValid rest)

/-- The characters of a node alone. -/
def segment (n : Node) : List Char :=
  (if n.negate then ['n', 'o', 't', ' '] else []) ++
    match n.resolution with
    | some r => r.chars
    | none => []

/-- The characters of a node and the nodes below it. -/
def chainChars (n : Node) : List Node → List Char
  | [] => n.segment ++ n.condition.connector?.getD []
  | child :: rest =>
    match n.condition.connector? with
    | some connector => n.segment ++ (connector ++ child.chainChars rest)
    | none => n.segment

end Node

namespace Rule

/-- Whether the rule is valid. -/
def isValid (r : Rule) : Bool :=
  r.root.isValid r.rest

/-- What is wrong with the rule, the field first. -/
def faults (r : Rule) : List RuleFault :=
  (if r.root.resolution.isSome then [] else [.field]) ++
    (if r.root.condition = .none || r.child?.any isValid then [] else [.condition])

/-- The characters of the rule. -/
def chars (r : Rule) : List Char :=
  if r.isValid then r.root.chainChars r.rest else []

/-- The text of the rule in an expression. -/
def text (r : Rule) : String :=
  String.ofList r.chars

theorem faults_eq_nil_iff (r : Rule) : r.faults = [] ↔ r.isValid = true := by
  obtain ⟨n, rest⟩ := r
  cases rest with
  | nil =>
    by_cases h : n.condition = .none <;>
      simp [faults, isValid, child?, Node.isValid, h, Option.isSome_iff_ne_none]
  | cons m ms =>
    by_cases h : n.condition = .none <;>
      simp [faults, isValid, child?, Node.isValid, h, Option.isSome_iff_ne_none]

end Rule

end Segmentation

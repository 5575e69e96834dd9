import Segmentation.Rule.Reachable

/-!
# Runs of edits

What a user does to a rule, one edit after the other, from the empty rule on. A run keeps the order
of the edits, so it can be told when an argument was entered and what became of it since.
-/

namespace Segmentation

/-- A change of a rule. -/
inductive Edit
  | build (config : Config)
  | setNegate (negate : Bool)
  | setField (field : Option String)
  | setOperation (operation : Option String)
  | setArgument (i : Nat) (raw : String)
  deriving DecidableEq, Repr

/-- The text that an edit enters for an argument of a node, if any. Only building reaches the nodes
below the root. -/
def Edit.text? (e : Edit) (k i : Nat) : Option String :=
  match e with
  | build config => config.levels[k]?.bind fun level => level.arguments.get? i
  | setArgument j raw => if k = 0 ∧ j = i then some raw else none
  | _ => none

namespace Rule

/-- The slot for an argument of a node. -/
def slot? (r : Rule) (k i : Nat) : Option Slot :=
  r.nodes[k]?.bind fun n => n.slots[i]?

/-- An argument of a node. -/
def argument? (r : Rule) (k i : Nat) : Option Value :=
  r.nodes[k]?.bind fun n => n.argument? i

/-- The rule after an edit. -/
def edit (c : Catalog) (r : Rule) : Edit → Rule
  | .build config => r.build c config
  | .setNegate negate => r.setNegate negate
  | .setField field => r.setField c field
  | .setOperation operation => r.setOperation c operation
  | .setArgument i raw => (r.setArgument c i raw).1

/-- The rule after a run of edits. -/
def after (c : Catalog) (edits : List Edit) : Rule :=
  edits.foldl (edit c) {}

theorem after_concat (c : Catalog) (edits : List Edit) (e : Edit) :
    after c (edits ++ [e]) = (after c edits).edit c e := by
  rw [after, List.foldl_append]
  rfl

theorem Reachable.edit {c : Catalog} {r : Rule} (h : Reachable c r) (e : Edit) :
    Reachable c (r.edit c e) := by
  cases e with
  | build config => exact .build config h
  | setNegate negate => exact .setNegate negate h
  | setField field => exact .setField field h
  | setOperation operation => exact .setOperation operation h
  | setArgument i raw => exact .setArgument i raw h

end Rule

end Segmentation

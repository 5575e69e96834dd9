import Segmentation.Resolution
import Segmentation.Config

/-!
# Rules

A rule is a chain of nodes. Each node has what a user entered for it (negation, field, operation,
arguments, and the condition under which the next node follows), the scope in which its field is
looked up, and the resolution found there. A node joined by `and` is looked up in the handler of the
node before it; all other nodes are looked up everywhere.

Arguments are kept in a node and once more in its resolution. A resolution is found without arguments
(`resolveBlank`), a text goes into the resolution first and into the node from there (`store`), and in
the end the resolution gets what the node has (`sync`).

A rule is made from a configuration by `build` and changed at its root by the functions `set…`. Each
of them brings the nodes in line with the catalog again: an operation that the field does not have
is replaced by the first one that it has, arguments that do not fit their slots are dropped, and a
change of handler is passed down the chain as far as it reaches.
-/

namespace Segmentation

/-- One node of a rule. -/
structure Node where
  negate : Bool := false
  field : Option String := none
  operation : Option String := none
  arguments : List (Option Value) := []
  condition : Condition := .none
  scope : Scope := .global
  resolution : Option Resolution := none
  deriving DecidableEq, Repr

/-- A text that is not empty. -/
def nonempty? (s : Option String) : Option String :=
  s.filter fun s => s ≠ ""

namespace Node

/-- The slots for arguments; a node without a resolution has none. -/
def slots (n : Node) : List Slot :=
  match n.resolution with
  | some r => r.slots
  | none => []

/-- The argument in a slot. -/
def argument? (n : Node) (i : Nat) : Option Value :=
  n.arguments[i]?.join

/-- The scope of the next node. -/
def childScope (n : Node) : Scope :=
  match n.condition with
  | .and =>
    match n.resolution with
    | some r => .handler r.handler.key
    | none => .unresolved
  | _ => .global

/-- The node with the resolution of its field, in which no argument is set yet. The operation becomes
the one that was found, and each slot keeps its argument if it fits. Without a resolution there are
no arguments. -/
def resolveBlank (c : Catalog) (n : Node) : Node :=
  match n.field.bind fun field => c.resolveField? n.scope field n.operation with
  | some p =>
    { n with
      operation := some p.operation.key
      arguments := fit p.slots n.arguments
      resolution := some { toPredicate := p } }
  | none => { n with arguments := [], resolution := none }

/-- The node with its arguments in its resolution as well, as far as they fit there. -/
def sync (n : Node) : Node :=
  { n with
    resolution := n.resolution.map fun r =>
      { r with toPredicate := r.setArguments n.arguments } }

/-- The node with the resolution of its field, arguments included. -/
def resolve (c : Catalog) (n : Node) : Node :=
  (n.resolveBlank c).sync

/-- The node with the value of a text in a slot, or with nothing there if the text has no value in
it. The text is converted in the resolution, and the node takes over what is in the slot then. -/
def store (n : Node) (i : Nat) (raw : String) : Node :=
  match n.resolution with
  | some r =>
    let p := r.convertArgument i raw
    { n with
      arguments := n.arguments.set i (p.argument? i)
      resolution := some { r with toPredicate := p } }
  | none => n

/-- The node with negation, field, operation and condition of a level. -/
def entered (level : Level) (n : Node) : Node :=
  { n with
    negate := level.isNegated
    field := nonempty? level.field
    operation := nonempty? level.operation
    condition := (Condition.ofText? level.condition).toOption.getD .none }

/-- The node with what was entered for a level. Texts for slots that the node does not have are
ignored, and arguments that the level does not mention stay if they fit. -/
def load (c : Catalog) (level : Level) (n : Node) : Node :=
  let blank := (n.entered level).resolveBlank c
  let texts := level.arguments.entries.filter fun (i, _) => i < blank.slots.length
  (texts.foldl (fun n (i, raw) => n.store i raw) blank).sync

/-- The node with the path that narrows it: that of the next node, if it is joined by `and`. -/
def narrowedBy (n : Node) (below : List Node) : Node :=
  let narrowing :=
    match n.condition, below with
    | .and, child :: _ => (child.resolution.map Resolution.path).getD []
    | _, _ => []
  { n with resolution := n.resolution.map fun r => { r with narrowing } }

/-- The nodes below a node for the levels below its level. A condition without a level under it
still has a node, which nothing was entered for. -/
def below (c : Catalog) (n : Node) : List Level → List Node
  | [] => if n.condition = .none then [] else [load c {} { scope := n.childScope }]
  | level :: levels =>
    if n.condition = .none then []
    else
      let child := load c level { scope := n.childScope }
      let rest := child.below c levels
      child.narrowedBy rest :: rest

/-- The nodes below a node after a change of it: if the scope of the next node changes, that node is
resolved again, and so on down the chain. -/
def rescope (c : Catalog) (n : Node) : List Node → List Node
  | [] => []
  | child :: rest =>
    if n.condition = .none ∨ child.scope = n.childScope then child :: rest
    else
      let moved := ({ child with scope := n.childScope } : Node).resolve c
      let rest := moved.rescope c rest
      moved.narrowedBy rest :: rest

end Node

/-- A chain of nodes, outermost first. -/
structure Rule where
  root : Node := {}
  rest : List Node := []
  deriving DecidableEq, Repr

namespace Rule

/-- All nodes, outermost first. -/
def nodes (r : Rule) : List Node :=
  r.root :: r.rest

/-- How many nodes there are. -/
def depth (r : Rule) : Nat :=
  r.nodes.length

/-- The rule without its outermost node. -/
def child? (r : Rule) : Option Rule :=
  match r.rest with
  | [] => none
  | n :: rest => some ⟨n, rest⟩

/-- The rule that begins a number of nodes further down. -/
def descend? (r : Rule) : Nat → Option Rule
  | 0 => some r
  | k + 1 => r.child?.bind fun child => child.descend? k

/-- The rule of a configuration. Of the rule that was there before, the arguments of the root stay
where the configuration does not mention them and they still fit. -/
def build (c : Catalog) (config : Config) (r : Rule) : Rule :=
  let root := r.root.load c config.head
  let rest := root.below c config.tail
  ⟨root.narrowedBy rest, rest⟩

/-- The rule after a change of its root, in line with the catalog again. -/
def refresh (c : Catalog) (r : Rule) : Rule :=
  let root := r.root.resolve c
  let rest := root.rescope c r.rest
  ⟨root.narrowedBy rest, rest⟩

/-- The rule negated or not. -/
def setNegate (negate : Bool) (r : Rule) : Rule :=
  { r with root.negate := negate }

/-- The rule with another field. -/
def setField (c : Catalog) (field : Option String) (r : Rule) : Rule :=
  { r with root.field := nonempty? field }.refresh c

/-- The rule with another operation. -/
def setOperation (c : Catalog) (operation : Option String) (r : Rule) : Rule :=
  { r with root.operation := nonempty? operation }.refresh c

/-- The rule with the value of a text as an argument, and whether there is such a value. -/
def setArgument (c : Catalog) (i : Nat) (raw : String) (r : Rule) : Rule × Bool :=
  if i < r.root.slots.length then
    let stored := { r with root := r.root.store i raw }
    (stored.refresh c, (stored.root.argument? i).isSome)
  else (r, false)

/-! ## What a user may choose -/

/-- Labels and keys of the fields that the root may have. -/
def fieldOptions (c : Catalog) (r : Rule) : List (String × String) :=
  c.fieldOptions r.root.scope

/-- The same behind an invitation to choose. -/
def fieldOptionsWithPrompt (c : Catalog) (r : Rule) : List (String × String) :=
  ("Select a field", "") :: r.fieldOptions c

/-- Labels and keys of the operations that the root may have. -/
def operationOptions (r : Rule) : List (String × String) :=
  match r.root.resolution with
  | some resolution => resolution.valueType.operationsByName.map fun o => (o.name, o.key)
  | none => []

end Rule

end Segmentation

import Segmentation.Catalog.Lookup

/-!
# Resolutions

A predicate is a rule that was found in a catalog: a field with its handler and its value type, one
of the operations of the type, and a value or nothing for each slot of the operation. The operation
is the requested one, or the first by name if that is absent or unknown.

A resolution is a predicate together with the predicates of the rules that narrow it, outermost
first.
-/

namespace Segmentation

/-- A field with an operation and its arguments, as found in a catalog. -/
structure Predicate extends Binding where
  operation : Operation
  arguments : List (Option Value)
  deriving DecidableEq, Repr

/-- Values for slots: each slot keeps the value at its place if its kind takes it. -/
def fit (slots : List Slot) (arguments : List (Option Value)) : List (Option Value) :=
  slots.mapIdx fun i slot => (arguments[i]?.join).filter slot.kind.accepts

namespace Predicate

/-- The slots of the operation. -/
def slots (p : Predicate) : List Slot :=
  p.operation.slots

/-- The argument in a slot. -/
def argument? (p : Predicate) (i : Nat) : Option Value :=
  p.arguments[i]?.join

/-- The predicate with the value of a text in a slot, or with nothing there if the text has no value
in it. There is no change if the predicate has no such slot. -/
def convertArgument (p : Predicate) (i : Nat) (raw : String) : Predicate :=
  match p.slots[i]? with
  | some slot => { p with arguments := p.arguments.set i (slot.convert raw).toOption }
  | none => p

/-- The predicate with other arguments, as far as they fit. -/
def setArguments (p : Predicate) (arguments : List (Option Value)) : Predicate :=
  { p with arguments := fit p.slots arguments }

/-- The characters of an argument in an expression; none if it is unset. -/
def argumentChars : Option Value → List Char
  | some v => v.chars
  | none => []

/-- The characters of a predicate: field, operation and arguments. -/
def chars (p : Predicate) : List Char :=
  p.field.key.toList ++ ':' :: (p.operation.key.toList ++
    '(' :: ([',', ' '].intercalate (p.arguments.map argumentChars) ++ [')']))

/-- The text of a predicate. -/
def text (p : Predicate) : String :=
  String.ofList p.chars

end Predicate

/-- A predicate and the predicates that narrow it. -/
structure Resolution extends Predicate where
  narrowing : List Predicate := []
  deriving DecidableEq, Repr

namespace Resolution

/-- The predicate and those that narrow it. -/
def path (r : Resolution) : List Predicate :=
  r.toPredicate :: r.narrowing

/-- The text of the path: its predicates joined by points. -/
def text (r : Resolution) : String :=
  String.ofList (['.'].intercalate (r.path.map Predicate.chars))

end Resolution

namespace Catalog

/-- The predicate of a field and a requested operation in a scope, with all its arguments unset. -/
def resolveField? (c : Catalog) (scope : Scope) (field : String) (operation : Option String) :
    Option Predicate :=
  (c.lookup? scope field).bind fun b => (b.valueType.operationOrFirst? operation).map fun o =>
    { toBinding := b, operation := o, arguments := List.replicate o.slots.length none }

/-- The predicate of a field and a requested operation with arguments from texts. -/
def resolve? (c : Catalog) (scope : Scope) (field : String) (operation : Option String)
    (raw : List (Option String)) : Option Predicate :=
  (c.resolveField? scope field operation).map fun p =>
    raw.zipIdx.foldl (fun p (s, i) => match s with
      | some s => p.convertArgument i s
      | none => p) p

end Catalog

end Segmentation

import Segmentation.Slot
import Segmentation.Text.Order

/-!
# Value types, handlers and scopes

A value type lists the operations that apply to its values. A handler lists fields, each bound to a
value type by its key. A scope says which handlers a field may come from.

An operation is looked up by its key, and the first one with the key counts. The operations of a
value type are offered in the order of their names, and the first of that order stands in for an
operation that the value type does not have. Main statement: `firstOperation?_mem`.
-/

namespace Segmentation

/-- A test that can be made on a value, with slots for its arguments. -/
structure Operation where
  key : String
  name : String
  slots : List Slot := []
  deriving DecidableEq, Repr

/-- A type of values and the operations on it. -/
structure ValueType where
  key : String
  name : String
  operations : List Operation := []
  deriving DecidableEq, Repr

/-- A field and the key of its value type. -/
structure Field where
  key : String
  name : String
  valueType : String
  deriving DecidableEq, Repr

/-- A source of fields. -/
structure Handler where
  key : String
  name : String
  fields : List Field := []
  deriving DecidableEq, Repr

namespace ValueType

/-- The operation with a key. -/
def operation? (t : ValueType) (key : String) : Option Operation :=
  t.operations.find? fun o => o.key = key

/-- The operations in the order of their names. -/
def operationsByName (t : ValueType) : List Operation :=
  Text.sortBy Operation.name t.operations

/-- The earlier of two operations by name; the former if they have one name. -/
def earlier (o p : Operation) : Operation :=
  if Text.before o.name p.name then o else p

/-- The operation with the least name; of several, the one declared first. -/
def firstOperation? (t : ValueType) : Option Operation :=
  match t.operations with
  | [] => none
  | o :: os => some (os.foldl earlier o)

/-- The operation with a key, or the first one if the key is absent or unknown. -/
def operationOrFirst? (t : ValueType) (key : Option String) : Option Operation :=
  (key.bind t.operation?).or t.firstOperation?

/-- The slots of an operation; none if there is no such operation. -/
def slots (t : ValueType) (operation : String) : List Slot :=
  match t.operation? operation with
  | some o => o.slots
  | none => []

/-- One of a list of operations is the earliest of them. -/
theorem foldl_earlier_mem (o : Operation) (os : List Operation) :
    os.foldl earlier o ∈ o :: os := by
  induction os generalizing o with
  | nil => exact List.mem_singleton.2 rfl
  | cons p os ih =>
    rw [List.foldl_cons]
    have h := ih (earlier o p)
    have he : earlier o p = o ∨ earlier o p = p := by
      unfold earlier
      split
      · exact .inl rfl
      · exact .inr rfl
    rcases he with he | he <;> rw [he] at h ⊢ <;> simp only [List.mem_cons] at h ⊢ <;>
      rcases h with h | h <;> simp [h]

theorem firstOperation?_mem {t : ValueType} {o : Operation} (h : t.firstOperation? = some o) :
    o ∈ t.operations := by
  unfold firstOperation? at h
  split at h
  · cases h
  · rename_i p os hops
    obtain rfl := Option.some.inj h
    rw [hops]
    exact foldl_earlier_mem p os

end ValueType

/-- The field of a handler with a key. -/
def Handler.field? (h : Handler) (key : String) : Option Field :=
  h.fields.find? fun f => f.key = key

/-- Which handlers a field may come from: all of them, the one with a key, or none because the rule
that decides has no handler itself. -/
inductive Scope
  | global
  | handler (key : String)
  | unresolved
  deriving DecidableEq, Repr

/-- Whether the fields of a handler are in scope. -/
def Scope.includes : Scope → Handler → Bool
  | global, _ => true
  | handler key, h => h.key = key
  | unresolved, _ => false

end Segmentation

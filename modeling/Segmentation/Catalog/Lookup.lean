import Segmentation.Catalog.Validation

/-!
# Finding fields

A field is found by its key in the handlers of a scope, in the order of their declaration; the first
handler that declares the key counts. The fields offered to a user are all those that can be found,
each once, in the order of their names.
-/

namespace Segmentation

/-- A field with its handler and its value type. -/
structure Binding where
  handler : Handler
  field : Field
  valueType : ValueType
  deriving DecidableEq, Repr

namespace Catalog

/-- The value type with a key. -/
def valueType? (c : Catalog) (key : String) : Option ValueType :=
  c.valueTypes.find? fun t => t.key = key

/-- The handler with a key. -/
def handler? (c : Catalog) (key : String) : Option Handler :=
  c.handlers.find? fun h => h.key = key

/-- Keys and names of the operations of a value type, in the order of declaration. -/
def operations (c : Catalog) (valueType : String) : List (String × String) :=
  match c.valueType? valueType with
  | some t => t.operations.map fun o => (o.key, o.name)
  | none => []

/-- The slots of an operation of a value type. -/
def slots (c : Catalog) (valueType operation : String) : List Slot :=
  match c.valueType? valueType with
  | some t => t.slots operation
  | none => []

/-- The fields of a handler, in the order of declaration. -/
def fields (c : Catalog) (handler : String) : List Field :=
  match c.handler? handler with
  | some h => h.fields
  | none => []

/-- The handlers of a scope. -/
def handlersIn (c : Catalog) (scope : Scope) : List Handler :=
  c.handlers.filter scope.includes

/-- The field of a handler with a key, with its value type. -/
def bindingIn? (c : Catalog) (key : String) (h : Handler) : Option Binding :=
  (h.field? key).bind fun f => (c.valueType? f.valueType).map fun t => ⟨h, f, t⟩

/-- The field with a key in the first handler of a scope that has it. -/
def lookup? (c : Catalog) (scope : Scope) (key : String) : Option Binding :=
  (c.handlersIn scope).findSome? (c.bindingIn? key)

/-- Of fields with one key only the first; `used` lists the keys that are left out. -/
def firstFields (used : List String) : List Field → List Field
  | [] => []
  | f :: fs =>
    if f.key ∈ used then firstFields used fs else f :: firstFields (f.key :: used) fs

/-- Labels and keys of the fields offered in a scope, in the order of the labels. -/
def fieldOptions (c : Catalog) (scope : Scope) : List (String × String) :=
  Text.sortBy Prod.fst <|
    (firstFields [] ((c.handlersIn scope).flatMap Handler.fields)).map fun f => (f.name, f.key)

end Catalog

end Segmentation

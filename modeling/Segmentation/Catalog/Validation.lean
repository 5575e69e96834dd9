import Segmentation.Catalog.Basic
import Segmentation.Text.Identifier

/-!
# Checked catalogs

A draft is a list of value types and a list of handlers as declared. A catalog is a draft in which
every key stands for one thing and every field has its value type; keys that appear in expressions
are identifiers. Checking a draft yields the catalog or the first fault found, value types before
handlers, each in the order of declaration.

Main statements:

* `scan_eq_none_iff`: what it means that a list of keyed declarations has no fault;
* `fault?_eq_none_iff`: a draft has no fault exactly when it is well formed.
-/

namespace Segmentation

/-- What a key that is no identifier was given for. -/
inductive KeyRole
  | operation
  | field
  deriving DecidableEq, Repr

/-- The word for a role. -/
def KeyRole.name : KeyRole → String
  | operation => "operation"
  | field => "field"

/-- What can be wrong with a draft. -/
inductive Fault
  | duplicateValueType (key : String)
  | duplicateOperation (valueType operation : String)
  | noOperations (key : String)
  | duplicateHandler (key : String)
  | duplicateField (handler field : String)
  | undefinedValueType (handler field valueType : String)
  | invalidKey (role : KeyRole) (key : String)
  deriving DecidableEq, Repr

/-- What the author of the draft is told. -/
def Fault.message : Fault → String
  | duplicateValueType key => s!"duplicate value type '{key}'"
  | duplicateOperation valueType operation =>
    s!"duplicate operation '{operation}' in value type '{valueType}'"
  | noOperations key => s!"value type '{key}' declares no operations"
  | duplicateHandler key => s!"duplicate handler '{key}'"
  | duplicateField handler field => s!"duplicate field '{field}' in handler '{handler}'"
  | undefinedValueType handler field valueType =>
    s!"field '{field}' in handler '{handler}' references undefined value type '{valueType}'"
  | invalidKey role key =>
    s!"invalid {role.name} key '{key}': expected a letter or '_' followed by letters, digits or '_'"

/-- A catalog as declared, not yet checked. -/
structure Draft where
  valueTypes : List ValueType := []
  handlers : List Handler := []
  deriving DecidableEq, Repr

/-- A value type that can be used: it has operations, and their keys are identifiers that differ. -/
structure ValueType.WellFormed (t : ValueType) : Prop where
  operations_ne_nil : t.operations ≠ []
  isIdentifier : ∀ o ∈ t.operations, Text.isIdentifier o.key = true
  nodup : (t.operations.map Operation.key).Nodup

/-- A handler that can be used: the keys of its fields are identifiers that differ, and each field
is bound to one of the value types. -/
structure Handler.WellFormed (valueTypes : List ValueType) (h : Handler) : Prop where
  isIdentifier : ∀ f ∈ h.fields, Text.isIdentifier f.key = true
  nodup : (h.fields.map Field.key).Nodup
  valueType_mem : ∀ f ∈ h.fields, f.valueType ∈ valueTypes.map ValueType.key

/-- A draft in which every key stands for one thing and all parts can be used. -/
structure Draft.WellFormed (d : Draft) : Prop where
  nodup_valueTypes : (d.valueTypes.map ValueType.key).Nodup
  valueTypes : ∀ t ∈ d.valueTypes, t.WellFormed
  nodup_handlers : (d.handlers.map Handler.key).Nodup
  handlers : ∀ h ∈ d.handlers, h.WellFormed d.valueTypes

/-! ## Finding the first fault -/

/-- The first fault among declarations: for each in turn, what is found by looking at it alone, a
key that was used already, and what is found in its parts. -/
def scan {α : Type} (key : α → String) (alone : α → Option Fault) (duplicate : α → Fault)
    (parts : α → Option Fault) : List String → List α → Option Fault
  | _, [] => none
  | used, x :: xs =>
    (alone x).or <| (if key x ∈ used then some (duplicate x) else none).or <|
      (parts x).or <| scan key alone duplicate parts (key x :: used) xs

/-- A key that is no identifier. -/
def invalidKey? (role : KeyRole) (key : String) : Option Fault :=
  if Text.isIdentifier key then none else some (.invalidKey role key)

/-- The first fault of the operations of a value type. -/
def ValueType.fault? (t : ValueType) : Option Fault :=
  if t.operations = [] then some (.noOperations t.key)
  else scan Operation.key (fun o => invalidKey? .operation o.key)
    (fun o => .duplicateOperation t.key o.key) (fun _ => none) [] t.operations

/-- The first fault of the fields of a handler. -/
def Handler.fault? (valueTypes : List ValueType) (h : Handler) : Option Fault :=
  scan Field.key (fun f => invalidKey? .field f.key) (fun f => .duplicateField h.key f.key)
    (fun f =>
      if f.valueType ∈ valueTypes.map ValueType.key then none
      else some (.undefinedValueType h.key f.key f.valueType))
    [] h.fields

/-- The first fault of a draft. -/
def Draft.fault? (d : Draft) : Option Fault :=
  (scan ValueType.key (fun _ => none) (fun t => .duplicateValueType t.key) ValueType.fault? []
    d.valueTypes).or
  (scan Handler.key (fun _ => none) (fun h => .duplicateHandler h.key)
    (Handler.fault? d.valueTypes) [] d.handlers)

theorem scan_eq_none_iff {α : Type} {key : α → String} {alone : α → Option Fault}
    {duplicate : α → Fault} {parts : α → Option Fault} {used : List String} {xs : List α} :
    scan key alone duplicate parts used xs = none ↔
      (∀ x ∈ xs, alone x = none ∧ parts x = none) ∧ (xs.map key).Nodup ∧
        ∀ x ∈ xs, key x ∉ used := by
  induction xs generalizing used with
  | nil => simp [scan]
  | cons x xs ih =>
    rw [scan, Option.or_eq_none_iff, Option.or_eq_none_iff, Option.or_eq_none_iff, ih,
      List.forall_mem_cons, List.forall_mem_cons, List.map_cons, List.nodup_cons]
    by_cases hx : key x ∈ used
    · simp [hx]
    · simp only [if_neg hx, List.mem_cons, not_or, List.mem_map, not_exists, not_and]
      constructor
      · rintro ⟨ha, -, hp, hall, hnd, hu⟩
        exact ⟨⟨⟨ha, hp⟩, hall⟩, ⟨fun y hy => (hu y hy).1, hnd⟩, hx, fun y hy => (hu y hy).2⟩
      · rintro ⟨⟨⟨ha, hp⟩, hall⟩, ⟨hne, hnd⟩, -, hu⟩
        exact ⟨ha, trivial, hp, hall, hnd, fun y hy => ⟨hne y hy, hu y hy⟩⟩

theorem invalidKey?_eq_none_iff {role : KeyRole} {key : String} :
    invalidKey? role key = none ↔ Text.isIdentifier key = true := by
  simp [invalidKey?]

theorem ValueType.fault?_eq_none_iff {t : ValueType} : t.fault? = none ↔ t.WellFormed := by
  by_cases h : t.operations = []
  · simp only [ValueType.fault?, h, if_true, reduceCtorEq, false_iff]
    exact fun hw => hw.operations_ne_nil h
  · simp only [ValueType.fault?, if_neg h, scan_eq_none_iff, invalidKey?_eq_none_iff]
    constructor
    · rintro ⟨hid, hnd, -⟩
      exact ⟨h, fun o ho => (hid o ho).1, hnd⟩
    · rintro ⟨-, hid, hnd⟩
      exact ⟨fun o ho => ⟨hid o ho, trivial⟩, hnd, fun _ _ => List.not_mem_nil⟩

theorem Handler.fault?_eq_none_iff {valueTypes : List ValueType} {h : Handler} :
    h.fault? valueTypes = none ↔ h.WellFormed valueTypes := by
  simp only [Handler.fault?, scan_eq_none_iff, invalidKey?_eq_none_iff]
  constructor
  · rintro ⟨hf, hnd, -⟩
    refine ⟨fun f hm => (hf f hm).1, hnd, fun f hm => ?_⟩
    have := (hf f hm).2
    split at this
    · assumption
    · cases this
  · rintro ⟨hid, hnd, hty⟩
    exact ⟨fun f hm => ⟨hid f hm, if_pos (hty f hm)⟩, hnd, fun _ _ => List.not_mem_nil⟩

theorem Draft.fault?_eq_none_iff {d : Draft} : d.fault? = none ↔ d.WellFormed := by
  simp only [Draft.fault?, Option.or_eq_none_iff, scan_eq_none_iff,
    ValueType.fault?_eq_none_iff, Handler.fault?_eq_none_iff]
  constructor
  · rintro ⟨⟨ht, hnt, -⟩, hh, hnh, -⟩
    exact ⟨hnt, fun t hm => (ht t hm).2, hnh, fun h hm => (hh h hm).2⟩
  · rintro ⟨hnt, ht, hnh, hh⟩
    exact ⟨⟨fun t hm => ⟨trivial, ht t hm⟩, hnt, fun _ _ => List.not_mem_nil⟩,
      fun h hm => ⟨trivial, hh h hm⟩, hnh, fun _ _ => List.not_mem_nil⟩

/-! ## Catalogs -/

/-- A draft that was checked. -/
structure Catalog extends Draft where
  wellFormed : toDraft.WellFormed

/-- The catalog of a draft, or the first fault of the draft. -/
def Draft.check (d : Draft) : Except Fault Catalog :=
  match h : d.fault? with
  | none => .ok ⟨d, Draft.fault?_eq_none_iff.1 h⟩
  | some fault => .error fault

/-- Checking adds nothing to a draft and takes nothing away. -/
theorem Draft.check_eq_ok_iff {d : Draft} {c : Catalog} : d.check = .ok c ↔ c.toDraft = d := by
  unfold Draft.check
  split
  · rw [Except.ok.injEq]
    constructor
    · rintro rfl
      rfl
    · rintro rfl
      rfl
  · rename_i fault h
    refine ⟨nofun, ?_⟩
    rintro rfl
    rw [Draft.fault?_eq_none_iff.2 c.wellFormed] at h
    cases h

end Segmentation

import Segmentation.Resolution

/-!
# What is found in a catalog

Whatever is found comes from the declarations: a field from a handler of the scope, its value type
from the value types, its operation from those of the value type. As keys stand for one thing each,
asking again for what was found finds the same: `resolveField?_again`.
-/

namespace Segmentation

/-- In a list of things with different keys, the first with the key of a thing is that thing. -/
theorem find?_key {α : Type} {key : α → String} {xs : List α} {x : α} (hnd : (xs.map key).Nodup)
    (hx : x ∈ xs) : (xs.find? fun y => key y = key x) = some x := by
  induction xs with
  | nil => cases hx
  | cons y ys ih =>
    rw [List.map_cons, List.nodup_cons] at hnd
    rcases List.mem_cons.1 hx with rfl | hx
    · exact List.find?_cons_of_pos (by simp)
    · have hne : key y ≠ key x := by
        intro h
        exact hnd.1 (h ▸ List.mem_map_of_mem hx)
      rw [List.find?_cons_of_neg (by simpa using hne), ih hnd.2 hx]

namespace ValueType

theorem operation?_key {t : ValueType} (h : t.WellFormed) {o : Operation} (ho : o ∈ t.operations) :
    t.operation? o.key = some o :=
  find?_key h.nodup ho

theorem operationOrFirst?_mem {t : ValueType} {key : Option String} {o : Operation}
    (h : t.operationOrFirst? key = some o) : o ∈ t.operations := by
  rw [operationOrFirst?, Option.or_eq_some_iff] at h
  rcases h with h | ⟨-, h⟩
  · obtain ⟨k, -, hk⟩ := Option.bind_eq_some_iff.1 h
    exact List.mem_of_find?_eq_some hk
  · exact firstOperation?_mem h

/-- An operation that was found is found again by its own key. -/
theorem operationOrFirst?_again {t : ValueType} (ht : t.WellFormed) {key : Option String}
    {o : Operation} (h : t.operationOrFirst? key = some o) :
    t.operationOrFirst? (some o.key) = some o := by
  rw [operationOrFirst?, Option.bind_some, operation?_key ht (operationOrFirst?_mem h)]
  rfl

end ValueType

namespace Catalog

/-- Where the parts of a binding come from. -/
structure Declares (c : Catalog) (scope : Scope) (key : String) (b : Binding) : Prop where
  handler : b.handler ∈ c.handlers
  includes : scope.includes b.handler = true
  field : b.field ∈ b.handler.fields
  key : b.field.key = key
  valueType : b.valueType ∈ c.valueTypes
  valueType_key : b.valueType.key = b.field.valueType

theorem declares_of_lookup? {c : Catalog} {scope : Scope} {key : String} {b : Binding}
    (h : c.lookup? scope key = some b) : c.Declares scope key b := by
  obtain ⟨g, hg, hb⟩ := List.exists_of_findSome?_eq_some h
  obtain ⟨hmem, hscope⟩ := List.mem_filter.1 hg
  obtain ⟨f, hf, hm⟩ := Option.bind_eq_some_iff.1 hb
  obtain ⟨t, ht, rfl⟩ := Option.map_eq_some_iff.1 hm
  have hkey := List.find?_some hf
  have htkey := List.find?_some ht
  rw [decide_eq_true_eq] at hkey htkey
  exact ⟨hmem, hscope, List.mem_of_find?_eq_some hf, hkey, List.mem_of_find?_eq_some ht, htkey⟩

theorem bindingIn?_eq_some_iff {c : Catalog} {key : String} {g : Handler} {b : Binding} :
    c.bindingIn? key g = some b ↔ b.handler = g ∧ g.field? key = some b.field ∧
      c.valueType? b.field.valueType = some b.valueType := by
  rw [bindingIn?, Option.bind_eq_some_iff]
  constructor
  · rintro ⟨f, hf, hm⟩
    obtain ⟨t, ht, rfl⟩ := Option.map_eq_some_iff.1 hm
    exact ⟨rfl, hf, ht⟩
  · rintro ⟨rfl, hf, ht⟩
    exact ⟨b.field, hf, Option.map_eq_some_iff.2 ⟨b.valueType, ht, rfl⟩⟩

/-- Each field of a handler has its value type, so only a missing field keeps a handler back. -/
theorem bindingIn?_eq_none_iff {c : Catalog} {key : String} {g : Handler} (hg : g ∈ c.handlers) :
    c.bindingIn? key g = none ↔ ∀ f ∈ g.fields, f.key ≠ key := by
  have hfield : g.field? key = none ↔ ∀ f ∈ g.fields, f.key ≠ key := by
    simp [Handler.field?, List.find?_eq_none]
  rw [← hfield, bindingIn?, Option.bind_eq_none_iff]
  constructor
  · intro h
    refine Option.eq_none_iff_forall_ne_some.2 fun f hf => ?_
    have ht : c.valueType? f.valueType = none := Option.map_eq_none_iff.1 (h f hf)
    obtain ⟨t, hmem, hkey⟩ := List.mem_map.1
      ((c.wellFormed.handlers g hg).valueType_mem f (List.mem_of_find?_eq_some hf))
    exact List.find?_eq_none.1 ht t hmem (decide_eq_true hkey)
  · intro h f hf
    rw [h] at hf
    cases hf

/-- A field is found in the first handler of the scope that declares its key. -/
theorem lookup?_eq_some_iff {c : Catalog} {scope : Scope} {key : String} {b : Binding} :
    c.lookup? scope key = some b ↔ ∃ before after,
      c.handlersIn scope = before ++ b.handler :: after ∧ c.bindingIn? key b.handler = some b ∧
        ∀ g ∈ before, ∀ f ∈ g.fields, f.key ≠ key := by
  have hmem {g : Handler} (hg : g ∈ c.handlersIn scope) : g ∈ c.handlers :=
    (List.mem_filter.1 hg).1
  rw [lookup?, List.findSome?_eq_some_iff]
  constructor
  · rintro ⟨before, g, after, hsplit, hb, hnone⟩
    obtain ⟨rfl, -⟩ := bindingIn?_eq_some_iff.1 hb
    refine ⟨before, after, hsplit, hb, fun g hg => ?_⟩
    exact (bindingIn?_eq_none_iff (hmem (hsplit ▸ List.mem_append_left _ hg))).1 (hnone g hg)
  · rintro ⟨before, after, hsplit, hb, hother⟩
    refine ⟨before, b.handler, after, hsplit, hb, fun g hg => ?_⟩
    exact (bindingIn?_eq_none_iff (hmem (hsplit ▸ List.mem_append_left _ hg))).2 (hother g hg)

variable {c : Catalog} {scope : Scope} {field : String} {operation : Option String} {p : Predicate}

theorem resolveField?_eq_some_iff :
    c.resolveField? scope field operation = some p ↔
      c.lookup? scope field = some p.toBinding ∧
        p.valueType.operationOrFirst? operation = some p.operation ∧
        p.arguments = List.replicate p.operation.slots.length none := by
  obtain ⟨b, o, arguments⟩ := p
  rw [resolveField?, Option.bind_eq_some_iff]
  constructor
  · rintro ⟨b', hb, hm⟩
    obtain ⟨o', ho, heq⟩ := Option.map_eq_some_iff.1 hm
    obtain ⟨rfl, rfl, rfl⟩ := Predicate.mk.inj heq
    exact ⟨hb, ho, rfl⟩
  · intro ⟨hb, ho, ha⟩
    exact ⟨b, hb, Option.map_eq_some_iff.2 ⟨o, ho, by rw [← ha]⟩⟩

theorem declares_of_resolveField? (h : c.resolveField? scope field operation = some p) :
    c.Declares scope field p.toBinding :=
  declares_of_lookup? (resolveField?_eq_some_iff.1 h).1

theorem operation_mem_of_resolveField? (h : c.resolveField? scope field operation = some p) :
    p.operation ∈ p.valueType.operations :=
  ValueType.operationOrFirst?_mem (resolveField?_eq_some_iff.1 h).2.1

/-- The value type of a field has an operation for every request, so the field alone decides. -/
theorem resolveField?_eq_none_iff :
    c.resolveField? scope field operation = none ↔ c.lookup? scope field = none := by
  rw [resolveField?, Option.bind_eq_none_iff]
  constructor
  · intro h
    refine Option.eq_none_iff_forall_ne_some.2 fun b hb => ?_
    have hfirst : b.valueType.firstOperation? = none := by
      have hnone := Option.map_eq_none_iff.1 (h b hb)
      exact (Option.or_eq_none_iff.1 hnone).2
    have hne := (c.wellFormed.valueTypes _ (declares_of_lookup? hb).valueType).operations_ne_nil
    rw [ValueType.firstOperation?] at hfirst
    split at hfirst
    · exact hne ‹_›
    · cases hfirst
  · intro h b hb
    rw [h] at hb
    cases hb

/-- What was found for a request is found again for its own operation. -/
theorem resolveField?_again (h : c.resolveField? scope field operation = some p) :
    c.resolveField? scope field (some p.operation.key) = some p := by
  obtain ⟨hb, ho, ha⟩ := resolveField?_eq_some_iff.1 h
  have ht := c.wellFormed.valueTypes _ (declares_of_lookup? hb).valueType
  exact resolveField?_eq_some_iff.2 ⟨hb, ValueType.operationOrFirst?_again ht ho, ha⟩

end Catalog

end Segmentation

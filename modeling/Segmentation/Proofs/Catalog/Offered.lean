import Segmentation.Proofs.Catalog.Lookup

/-!
# Operations that are offered

A value type offers its operations in the order of their names. An operation that is not among them,
or none at all, is replaced by the first of the offer; that one is found without sorting, by one
pass over the declarations. Main statements:

* `offersAll`: the offer is the stable sort of the operations, and the pass finds its head;
* `answers_of_operationOrFirst?`, `answers_of_resolveField?`: what a request for an operation is
  answered with.
-/

namespace Segmentation

/-- How a request for the key of an operation is answered when there is an offer of labels and keys:
with the key itself just if it is offered, and otherwise with the key of the first offer. -/
structure Answers (options : List (String × String)) (request used : Option String) : Prop where
  met_iff : ∀ key, request = some key → (used = some key ↔ key ∈ options.map Prod.snd)
  replaced : (∀ key, request = some key → key ∉ options.map Prod.snd) →
    ∃ first others, options = first :: others ∧ used = some first.2

namespace ValueType

/-! ## The head of the offer -/

/-- Of three operations the earliest is the same however they are compared. -/
theorem earlier_assoc (o p q : Operation) :
    earlier (earlier o p) q = earlier o (earlier p q) := by
  unfold earlier
  by_cases hop : Text.before o.name p.name = true
  · rw [if_pos hop]
    by_cases hpq : Text.before p.name q.name = true
    · rw [if_pos hpq, if_pos hop, if_pos (Text.before_trans hop hpq)]
    · rw [if_neg hpq]
  · rw [if_neg hop]
    by_cases hpq : Text.before p.name q.name = true
    · rw [if_pos hpq, if_neg hop]
    · -- Both are behind the next one, so the first is behind the last.
      have hpo : Text.before p.name o.name = true := by
        have htotal := Text.before_total o.name p.name
        simpa [hop] using htotal
      have hoq : ¬ Text.before o.name q.name = true := fun h => hpq (Text.before_trans hpo h)
      rw [if_neg hpq, if_neg hoq]

instance : Std.Associative earlier :=
  ⟨earlier_assoc⟩

/-- The pass over the operations finds the head of their stable sort. -/
theorem firstOperation?_eq_head? (t : ValueType) :
    t.firstOperation? = t.operationsByName.head? := by
  have hhead (o : Operation) (os : List Operation) :
      (Text.sortBy Operation.name (o :: os)).head? = some (os.foldl earlier o) := by
    induction os generalizing o with
    | nil =>
      rw [Text.sortBy, List.mergeSort_singleton]
      rfl
    | cons p os ih =>
      rw [Text.head?_sortBy_cons, ih, List.foldl_cons, List.foldl_assoc]
      rfl
  obtain ⟨key, name, operations⟩ := t
  cases operations with
  | nil =>
    rw [operationsByName, Text.sortBy, List.mergeSort_nil]
    rfl
  | cons o os => exact (hhead o os).symm

theorem firstOperation?_eq_none_iff {t : ValueType} :
    t.firstOperation? = none ↔ t.operations = [] := by
  obtain ⟨key, name, operations⟩ := t
  cases operations <;> simp [firstOperation?]

/-- A value type offers all its operations, in the order of their names and, where these are equal,
in the order of declaration. The operation that stands in for others is the first one offered. -/
structure OffersAll (t : ValueType) : Prop where
  perm : t.operationsByName.Perm t.operations
  ordered : t.operationsByName.Pairwise fun o p => o.name ≤ p.name
  stable : ∀ name, t.operationsByName.filter (fun o => o.name = name) =
    t.operations.filter fun o => o.name = name
  first : t.firstOperation? = t.operationsByName.head?
  first_eq_none_iff : t.firstOperation? = none ↔ t.operations = []

theorem offersAll (t : ValueType) : t.OffersAll where
  perm := Text.sortBy_perm Operation.name t.operations
  ordered := (Text.pairwise_sortBy Operation.name t.operations).imp of_decide_eq_true
  stable := Text.filter_sortBy Operation.name t.operations
  first := t.firstOperation?_eq_head?
  first_eq_none_iff := firstOperation?_eq_none_iff

/-! ## Requests -/

variable {t : ValueType} {request : Option String} {o : Operation}

/-- Labels and keys of the operations, as they are offered. -/
def options (t : ValueType) : List (String × String) :=
  t.operationsByName.map fun o => (o.name, o.key)

theorem mem_keys_options {key : String} :
    key ∈ t.options.map Prod.snd ↔ ∃ o ∈ t.operations, o.key = key := by
  simp only [options, List.map_map, List.mem_map, Function.comp_apply, t.offersAll.perm.mem_iff]

theorem answers_of_operationOrFirst? (ht : t.WellFormed)
    (h : t.operationOrFirst? request = some o) : Answers t.options request (some o.key) := by
  refine ⟨fun key hrequest => ?_, fun hunknown => ?_⟩
  · subst hrequest
    rw [Option.some.injEq, mem_keys_options]
    constructor
    · rintro rfl
      exact ⟨o, operationOrFirst?_mem h, rfl⟩
    · rintro ⟨p, hp, rfl⟩
      rw [operationOrFirst?, Option.bind_some, operation?_key ht hp, Option.some_or] at h
      rw [Option.some.inj h]
  · have hnone : request.bind t.operation? = none := by
      refine Option.bind_eq_none_iff.2 fun key hrequest => List.find?_eq_none.2 fun p hp hkey => ?_
      exact hunknown key hrequest (mem_keys_options.2 ⟨p, hp, of_decide_eq_true hkey⟩)
    rw [operationOrFirst?, hnone, Option.none_or, firstOperation?_eq_head?] at h
    obtain ⟨others, hothers⟩ := List.head?_eq_some_iff.1 h
    exact ⟨(o.name, o.key), others.map fun o => (o.name, o.key), by rw [options, hothers]; rfl, rfl⟩

end ValueType

namespace Catalog

variable {c : Catalog} {scope : Scope} {field : String} {request : Option String} {p : Predicate}

theorem answers_of_resolveField? (h : c.resolveField? scope field request = some p) :
    Answers p.valueType.options request (some p.operation.key) := by
  obtain ⟨hlookup, hoperation, -⟩ := resolveField?_eq_some_iff.1 h
  have ht := c.wellFormed.valueTypes _ (declares_of_lookup? hlookup).valueType
  exact ValueType.answers_of_operationOrFirst? ht hoperation

/-- A field that is found for one request is found for every other one, with its value type. -/
theorem resolveField?_of_request (h : c.resolveField? scope field request = some p)
    (request' : Option String) :
    ∃ p', c.resolveField? scope field request' = some p' ∧ p'.toBinding = p.toBinding := by
  have hlookup := (resolveField?_eq_some_iff.1 h).1
  have hfound : c.resolveField? scope field request' ≠ none := by
    rw [ne_eq, resolveField?_eq_none_iff, hlookup]
    exact nofun
  obtain ⟨p', hp'⟩ := Option.ne_none_iff_exists'.1 hfound
  have hlookup' := (resolveField?_eq_some_iff.1 hp').1
  exact ⟨p', hp', Option.some.inj (hlookup'.symm.trans hlookup)⟩

end Catalog

end Segmentation

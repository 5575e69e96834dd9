import Mathlib.Data.List.Duplicate
import Segmentation.Catalog.Validation

/-!
# Faults of drafts

A draft is refused with a fault. The two passes over the declarations, for value types and for
handlers, stop at the first fault they meet and remember only which keys they have seen, so it has to
be shown that what they report is in the draft. `Draft.Has` says for each fault what that means, and
without regard to the order in which the declarations are looked at.

Main statements:

* `blamed_of_scan`: what a pass reports is in one of the declarations, or a key is there twice;
* `Draft.has_of_fault?`, `Draft.not_wellFormed_of_has`: what is reported is there, and no well-formed
  draft has a fault;
* `Draft.accepted_and_blamed`: checking accepts just the well-formed drafts, these are the drafts
  without faults, and a draft that is refused has the fault it is refused for.
-/

namespace Segmentation

/-- A draft has a fault: the keys that the fault names belong to declarations of the draft, and
something is wrong with these. -/
def Draft.Has (d : Draft) : Fault → Prop
  | .duplicateValueType key => 2 ≤ (d.valueTypes.map ValueType.key).count key
  | .duplicateOperation valueType operation =>
    ∃ t ∈ d.valueTypes, t.key = valueType ∧ 2 ≤ (t.operations.map Operation.key).count operation
  | .noOperations key => ∃ t ∈ d.valueTypes, t.key = key ∧ t.operations = []
  | .duplicateHandler key => 2 ≤ (d.handlers.map Handler.key).count key
  | .duplicateField handler field =>
    ∃ h ∈ d.handlers, h.key = handler ∧ 2 ≤ (h.fields.map Field.key).count field
  | .undefinedValueType handler field valueType =>
    ∃ h ∈ d.handlers, h.key = handler ∧
      ∃ f ∈ h.fields, f.key = field ∧ f.valueType = valueType ∧ ∀ t ∈ d.valueTypes, t.key ≠ valueType
  | .invalidKey .operation key =>
    (∃ t ∈ d.valueTypes, ∃ o ∈ t.operations, o.key = key) ∧ Text.isIdentifier key = false
  | .invalidKey .field key =>
    (∃ h ∈ d.handlers, ∃ f ∈ h.fields, f.key = key) ∧ Text.isIdentifier key = false

/-! ## What is reported -/

variable {d : Draft} {fault : Fault}

/-- A pass reports a declaration that is wrong by itself or in its parts, or one whose key was used
before: by a declaration in front of it, or outside the list. -/
theorem blamed_of_scan {α : Type} {key : α → String} {alone : α → Option Fault}
    {duplicate : α → Fault} {parts : α → Option Fault} {used : List String} {xs : List α}
    (h : scan key alone duplicate parts used xs = some fault) :
    ∃ x ∈ xs, alone x = some fault ∨ parts x = some fault ∨
      fault = duplicate x ∧ 2 ≤ (used ++ xs.map key).count (key x) := by
  induction xs generalizing used with
  | nil => cases h
  | cons x xs ih =>
    rw [scan, Option.or_eq_some_iff, Option.or_eq_some_iff, Option.or_eq_some_iff] at h
    rcases h with h | ⟨-, h | ⟨-, h | ⟨-, h⟩⟩⟩
    · exact ⟨x, List.mem_cons_self, .inl h⟩
    · split at h
      · rename_i hused
        have hbefore : 1 ≤ used.count (key x) := List.one_le_count_iff.2 hused
        refine ⟨x, List.mem_cons_self, .inr (.inr ⟨(Option.some.inj h).symm, ?_⟩)⟩
        rw [List.count_append, List.map_cons, List.count_cons_self]
        omega
      · cases h
    · exact ⟨x, List.mem_cons_self, .inr (.inl h)⟩
    · -- The key of `x` is moved from the list to those used; the count of no key changes.
      obtain ⟨y, hy, hfault⟩ := ih h
      have hcount : (used ++ (x :: xs).map key).count (key y) =
          (key x :: used ++ xs.map key).count (key y) :=
        List.perm_middle.count_eq _
      exact ⟨y, List.mem_cons_of_mem _ hy, hcount ▸ hfault⟩

theorem isIdentifier_of_invalidKey? {role : KeyRole} {key : String}
    (h : invalidKey? role key = some fault) :
    Text.isIdentifier key = false ∧ fault = .invalidKey role key := by
  unfold invalidKey? at h
  split at h
  · cases h
  · exact ⟨Bool.eq_false_iff.2 ‹_›, (Option.some.inj h).symm⟩

theorem ValueType.has_of_fault? {t : ValueType} (ht : t ∈ d.valueTypes)
    (h : t.fault? = some fault) : d.Has fault := by
  unfold ValueType.fault? at h
  split at h
  · obtain rfl := Option.some.inj h
    exact ⟨t, ht, rfl, ‹_›⟩
  · obtain ⟨o, ho, hinvalid | hparts | ⟨rfl, htwice⟩⟩ := blamed_of_scan h
    · obtain ⟨hkey, rfl⟩ := isIdentifier_of_invalidKey? hinvalid
      exact ⟨⟨t, ht, o, ho, rfl⟩, hkey⟩
    · cases hparts
    · exact ⟨t, ht, rfl, htwice⟩

theorem Handler.has_of_fault? {g : Handler} (hg : g ∈ d.handlers)
    (h : g.fault? d.valueTypes = some fault) : d.Has fault := by
  obtain ⟨f, hf, hinvalid | hparts | ⟨rfl, htwice⟩⟩ := blamed_of_scan h
  · obtain ⟨hkey, rfl⟩ := isIdentifier_of_invalidKey? hinvalid
    exact ⟨⟨g, hg, f, hf, rfl⟩, hkey⟩
  · split at hparts
    · cases hparts
    · rename_i hundefined
      obtain rfl := Option.some.inj hparts
      exact ⟨g, hg, rfl, f, hf, rfl, rfl,
        fun t ht hkey => hundefined (List.mem_map.2 ⟨t, ht, hkey⟩)⟩
  · exact ⟨g, hg, rfl, htwice⟩

namespace Draft

theorem has_of_fault? (h : d.fault? = some fault) : d.Has fault := by
  rw [fault?, Option.or_eq_some_iff] at h
  rcases h with h | ⟨-, h⟩
  · obtain ⟨t, ht, halone | hparts | ⟨rfl, htwice⟩⟩ := blamed_of_scan h
    · cases halone
    · exact ValueType.has_of_fault? ht hparts
    · exact htwice
  · obtain ⟨g, hg, halone | hparts | ⟨rfl, htwice⟩⟩ := blamed_of_scan h
    · cases halone
    · exact Handler.has_of_fault? hg hparts
    · exact htwice

/-! ## What is accepted -/

theorem not_wellFormed_of_has (h : d.Has fault) : ¬ d.WellFormed := by
  intro hd
  have hnodup {keys : List String} {key : String} (h : 2 ≤ keys.count key) : ¬ keys.Nodup :=
    (List.duplicate_iff_two_le_count.2 h).not_nodup
  cases fault with
  | duplicateValueType key => exact hnodup h hd.nodup_valueTypes
  | duplicateOperation valueType operation =>
    obtain ⟨t, ht, -, htwice⟩ := h
    exact hnodup htwice (hd.valueTypes t ht).nodup
  | noOperations key =>
    obtain ⟨t, ht, -, hnil⟩ := h
    exact (hd.valueTypes t ht).operations_ne_nil hnil
  | duplicateHandler key => exact hnodup h hd.nodup_handlers
  | duplicateField handler field =>
    obtain ⟨g, hg, -, htwice⟩ := h
    exact hnodup htwice (hd.handlers g hg).nodup
  | undefinedValueType handler field valueType =>
    obtain ⟨g, hg, -, f, hf, -, rfl, hundefined⟩ := h
    obtain ⟨t, ht, hkey⟩ := List.mem_map.1 ((hd.handlers g hg).valueType_mem f hf)
    exact hundefined t ht hkey
  | invalidKey role key =>
    cases role with
    | operation =>
      obtain ⟨⟨t, ht, o, ho, rfl⟩, hkey⟩ := h
      rw [(hd.valueTypes t ht).isIdentifier o ho] at hkey
      cases hkey
    | field =>
      obtain ⟨⟨g, hg, f, hf, rfl⟩, hkey⟩ := h
      rw [(hd.handlers g hg).isIdentifier f hf] at hkey
      cases hkey

theorem check_eq_error_iff : d.check = .error fault ↔ d.fault? = some fault := by
  unfold check
  split <;> rename_i h <;> simp [h]

theorem exists_check_eq_ok_iff : (∃ c, d.check = .ok c) ↔ d.WellFormed := by
  constructor
  · rintro ⟨c, hc⟩
    exact check_eq_ok_iff.1 hc ▸ c.wellFormed
  · exact fun hd => ⟨⟨d, hd⟩, check_eq_ok_iff.2 rfl⟩

theorem wellFormed_iff_not_has : d.WellFormed ↔ ∀ fault, ¬ d.Has fault := by
  refine ⟨fun hd fault hf => not_wellFormed_of_has hf hd, fun hnone => ?_⟩
  rw [← fault?_eq_none_iff]
  exact Option.eq_none_iff_forall_ne_some.2 fun fault hfault => hnone fault (has_of_fault? hfault)

/-- A draft is accepted just if all keys of value types and of handlers differ and each value type
and each handler can be used. That is the same as to have no fault, and the fault for which another
draft is refused is one that it has. -/
theorem accepted_and_blamed (d : Draft) :
    ((∃ c, d.check = .ok c) ↔ d.WellFormed) ∧ (d.WellFormed ↔ ∀ fault, ¬ d.Has fault) ∧
      ∀ fault, d.check = .error fault → d.Has fault :=
  ⟨exists_check_eq_ok_iff, wellFormed_iff_not_has,
    fun _ h => has_of_fault? (check_eq_error_iff.1 h)⟩

/-- A draft with a field that is declared twice. Its key is also that of a field of another handler,
and behind it there is a field of an unknown type. -/
def crossed : Draft where
  valueTypes := [
    { key := "flag", name := "Flag", operations := [{ key := "is", name := "Is" }] }]
  handlers := [
    { key := "page", name := "Page", fields := [⟨"banner", "Banner", "flag"⟩] },
    { key := "visit"
      name := "Visit"
      fields := [
        ⟨"banner", "Banner", "flag"⟩,
        ⟨"first", "First Visit", "flag"⟩,
        ⟨"banner", "Last Banner", "flag"⟩,
        ⟨"length", "Length", "number"⟩] }]

theorem accepted_and_blamed_crossed :
    crossed.check = .error (.duplicateField "visit" "banner") ∧
      crossed.Has (.duplicateField "visit" "banner") := by
  have h : crossed.check = .error (.duplicateField "visit" "banner") :=
    check_eq_error_iff.2 (by decide +kernel)
  exact ⟨h, (accepted_and_blamed crossed).2.2 _ h⟩

end Draft

end Segmentation

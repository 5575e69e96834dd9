import Mathlib.Data.List.Nodup
import Segmentation.Proofs.Catalog.Lookup

/-!
# Fields that are offered

The fields offered in a scope come from one traversal of the handlers, which leaves out keys that
were met before; a field is found by another one, which stops at the first handler that has its key.
Handlers may share keys, so that both choose the same field for each key has to be shown. Main
statements:

* `map_field_lookup?`: what is found for a key is the first field with this key among all fields of
  the scope;
* `mem_firstFields_iff`: so is what is kept for the offer;
* `lookup?_eq_some_iff_owns`: what is found, without regard to how it is looked for;
* `offered_and_found`: the fields offered are those found.
-/

namespace Segmentation.Catalog

variable {c : Catalog} {scope : Scope} {key : String} {b : Binding}

/-! ## The first field with a key -/

theorem mem_firstFields_iff {used : List String} {fs : List Field} {f : Field} :
    f ∈ firstFields used fs ↔ f.key ∉ used ∧ (fs.find? fun g => g.key = f.key) = some f := by
  induction fs generalizing used with
  | nil => simp [firstFields]
  | cons g fs ih =>
    rw [firstFields]
    by_cases hkey : g.key = f.key
    · rw [List.find?_cons_of_pos (by simpa using hkey), Option.some.injEq]
      split
      · rename_i hused
        have hf : f.key ∈ used := hkey ▸ hused
        rw [ih]
        exact ⟨fun h => absurd hf h.1, fun h => absurd hf h.1⟩
      · rename_i hused
        rw [List.mem_cons, ih, hkey]
        constructor
        · rintro (rfl | ⟨hf, -⟩)
          · exact ⟨hused, rfl⟩
          · exact absurd List.mem_cons_self hf
        · exact fun h => .inl h.2.symm
    · rw [List.find?_cons_of_neg (by simpa using hkey)]
      split
      · exact ih
      · have hne : f ≠ g := fun h => hkey (h ▸ rfl)
        rw [List.mem_cons, ih, List.mem_cons, not_or]
        constructor
        · rintro (h | ⟨⟨-, hf⟩, hfound⟩)
          · exact absurd h hne
          · exact ⟨hf, hfound⟩
        · exact fun h => .inr ⟨⟨Ne.symm hkey, h.1⟩, h.2⟩

theorem nodup_firstFields (used : List String) (fs : List Field) :
    ((firstFields used fs).map Field.key).Nodup := by
  induction fs generalizing used with
  | nil => exact List.nodup_nil
  | cons g fs ih =>
    rw [firstFields]
    split
    · exact ih used
    · rw [List.map_cons, List.nodup_cons]
      refine ⟨fun hmem => ?_, ih _⟩
      obtain ⟨f, hf, hkey⟩ := List.mem_map.1 hmem
      exact (mem_firstFields_iff.1 hf).1 (hkey ▸ List.mem_cons_self)

/-- In a handler of the catalog a field is found just if it is there: its value type is declared. -/
theorem map_field_bindingIn? {g : Handler} (hg : g ∈ c.handlers) (key : String) :
    (c.bindingIn? key g).map Binding.field = g.field? key := by
  cases hb : c.bindingIn? key g with
  | none =>
    have hnone := (bindingIn?_eq_none_iff hg).1 hb
    exact (List.find?_eq_none.2 fun f hf => by simpa using hnone f hf).symm
  | some b =>
    obtain ⟨-, hfield, -⟩ := bindingIn?_eq_some_iff.1 hb
    exact hfield.symm

/-- The search that stops at the first handler with the key finds the first field with the key. -/
theorem map_field_lookup? (c : Catalog) (scope : Scope) (key : String) :
    (c.lookup? scope key).map Binding.field =
      ((c.handlersIn scope).flatMap Handler.fields).find? fun f => f.key = key := by
  have hall : ∀ g ∈ c.handlersIn scope, g ∈ c.handlers := fun g hg => (List.mem_filter.1 hg).1
  rw [List.find?_flatMap, lookup?, List.map_findSome?]
  generalize c.handlersIn scope = handlers at hall ⊢
  induction handlers with
  | nil => rfl
  | cons g gs ih =>
    have hg : (c.bindingIn? key g).map Binding.field = g.fields.find? fun f => f.key = key :=
      map_field_bindingIn? (hall g List.mem_cons_self) key
    rw [List.findSome?_cons, List.findSome?_cons, Function.comp_apply, hg,
      ih fun g hg => hall g (List.mem_cons_of_mem _ hg)]

/-! ## What is found -/

/-- What a key stands for in a scope. The handler is the first, in the order of declaration, that the
scope includes and that has a field with the key; the field is the only one with the key in it, and
the value type the only one that the field names. -/
structure Owns (c : Catalog) (scope : Scope) (key : String) (b : Binding) : Prop where
  includes : scope.includes b.handler = true
  first : ∃ before after, c.handlers = before ++ b.handler :: after ∧
    ∀ g ∈ before, scope.includes g = true → ∀ f ∈ g.fields, f.key ≠ key
  field : ∀ f, f ∈ b.handler.fields ∧ f.key = key ↔ f = b.field
  valueType : ∀ t, t ∈ c.valueTypes ∧ t.key = b.field.valueType ↔ t = b.valueType

theorem owns_of_lookup? (h : c.lookup? scope key = some b) : c.Owns scope key b := by
  have hd := declares_of_lookup? h
  have hfields := (c.wellFormed.handlers _ hd.handler).nodup
  refine ⟨hd.includes, ?_, fun f => ⟨fun ⟨hf, hkey⟩ => ?_, ?_⟩, fun t => ⟨fun ⟨ht, hkey⟩ => ?_, ?_⟩⟩
  · obtain ⟨before', after', hsplit, -, hother⟩ := lookup?_eq_some_iff.1 h
    obtain ⟨front, back, hhandlers, hfront, hback⟩ := List.filter_eq_append_iff.1 hsplit
    obtain ⟨skipped, after, rfl, hskipped, -, -⟩ := List.filter_eq_cons_iff.1 hback
    refine ⟨front ++ skipped, after, by rw [hhandlers, List.append_assoc], fun g hg hin => ?_⟩
    rcases List.mem_append.1 hg with hg | hg
    · exact hother g (hfront ▸ List.mem_filter.2 ⟨hg, hin⟩)
    · exact absurd hin (hskipped g hg)
  · exact List.inj_on_of_nodup_map hfields hf hd.field (hkey.trans hd.key.symm)
  · rintro rfl
    exact ⟨hd.field, hd.key⟩
  · exact List.inj_on_of_nodup_map c.wellFormed.nodup_valueTypes ht hd.valueType
      (hkey.trans hd.valueType_key.symm)
  · rintro rfl
    exact ⟨hd.valueType, hd.valueType_key⟩

theorem lookup?_eq_some_iff_owns : c.lookup? scope key = some b ↔ c.Owns scope key b := by
  refine ⟨owns_of_lookup?, fun h => ?_⟩
  obtain ⟨before, after, hsplit, hother⟩ := h.first
  obtain ⟨hfield, hkey⟩ := (h.field b.field).2 rfl
  obtain ⟨htype, htypeKey⟩ := (h.valueType b.valueType).2 rfl
  have hmem : b.handler ∈ c.handlers := hsplit ▸ List.mem_append_right _ List.mem_cons_self
  refine lookup?_eq_some_iff.2 ⟨before.filter scope.includes, after.filter scope.includes, ?_,
    bindingIn?_eq_some_iff.2 ⟨rfl, ?_, ?_⟩, fun g hg => ?_⟩
  · rw [handlersIn, hsplit, List.filter_append, List.filter_cons_of_pos h.includes]
  · rw [← hkey]
    exact find?_key (c.wellFormed.handlers _ hmem).nodup hfield
  · rw [← htypeKey]
    exact find?_key c.wellFormed.nodup_valueTypes htype
  · obtain ⟨hg, hin⟩ := List.mem_filter.1 hg
    exact hother g hg hin

/-! ## What is offered -/

theorem mem_fieldOptions_iff {label : String} :
    (label, key) ∈ c.fieldOptions scope ↔
      ∃ b, c.lookup? scope key = some b ∧ b.field.name = label := by
  rw [fieldOptions, (Text.sortBy_perm _ _).mem_iff, List.mem_map]
  constructor
  · rintro ⟨f, hf, hoption⟩
    obtain ⟨rfl, rfl⟩ := Prod.mk.inj hoption
    have hfirst := (mem_firstFields_iff.1 hf).2
    rw [← map_field_lookup?] at hfirst
    obtain ⟨b, hb, rfl⟩ := Option.map_eq_some_iff.1 hfirst
    exact ⟨b, hb, rfl⟩
  · rintro ⟨b, hb, rfl⟩
    obtain rfl := (declares_of_lookup? hb).key
    refine ⟨b.field, mem_firstFields_iff.2 ⟨List.not_mem_nil, ?_⟩, rfl⟩
    rw [← map_field_lookup?, hb]
    rfl

theorem nodup_fieldOptions (c : Catalog) (scope : Scope) :
    ((c.fieldOptions scope).map Prod.snd).Nodup := by
  have hperm := (Text.sortBy_perm Prod.fst ((firstFields []
    ((c.handlersIn scope).flatMap Handler.fields)).map fun f => (f.name, f.key))).map Prod.snd
  rw [List.map_map] at hperm
  exact hperm.nodup_iff.2 (nodup_firstFields _ _)

/-- The operation that is asked for has no say in what a field is bound to. -/
theorem map_toBinding_resolveField? (c : Catalog) (scope : Scope) (key : String)
    (request : Option String) :
    (c.resolveField? scope key request).map Predicate.toBinding = c.lookup? scope key := by
  cases hp : c.resolveField? scope key request with
  | none => exact (resolveField?_eq_none_iff.1 hp).symm
  | some p => exact (resolveField?_eq_some_iff.1 hp).1.symm

/-- Offered in a scope are the fields that are found there, by the labels that they have, each key
once and in the order of the labels. A key is found in the first handler of the scope that declares
it, with the field and the value type that it has there, whatever operation is asked for. -/
theorem offered_and_found (c : Catalog) (scope : Scope) :
    (∀ label key, (label, key) ∈ c.fieldOptions scope ↔
      ∃ b, c.lookup? scope key = some b ∧ b.field.name = label) ∧
    ((c.fieldOptions scope).map Prod.snd).Nodup ∧
    (c.fieldOptions scope).Pairwise (fun o p => o.1 ≤ p.1) ∧
    ∀ key, (∀ b, c.lookup? scope key = some b ↔ c.Owns scope key b) ∧
      ∀ request, (c.resolveField? scope key request).map Predicate.toBinding =
        c.lookup? scope key := by
  refine ⟨fun _ _ => mem_fieldOptions_iff, nodup_fieldOptions c scope, ?_,
    fun key => ⟨fun _ => lookup?_eq_some_iff_owns, map_toBinding_resolveField? c scope key⟩⟩
  exact (Text.pairwise_sortBy _ _).imp of_decide_eq_true

end Segmentation.Catalog

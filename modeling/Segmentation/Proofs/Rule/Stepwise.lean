import Mathlib.Data.List.Nodup
import Segmentation.Proofs.Rule.Building
import Segmentation.Proofs.Rule.Entering

/-!
# Building step by step

What a level of a configuration says can be entered at once or step by step: negation, field and
operation, and then the arguments. On the way the field may be missing or the operation may be
replaced by another one, and the arguments come in any order, but in the end the rule is the same.
Main statements:

* `resolve_operation_resolve`: without arguments, resolving on the way leaves no trace;
* `storeArgument_comm`, `foldl_store_of_perm`: arguments may be entered in any order;
* `after_setArguments`: what a run of edits that enter arguments comes to;
* `after_steps_eq_build`: the edits for a level, in any order, build its rule.
-/

namespace Segmentation

/-! ## Arguments -/

/-- Texts for different slots may be stored in either order. -/
theorem storeArgument_comm {slots : List Slot} (arguments : List (Option Value))
    {e f : Nat × String} (h : e.1 ≠ f.1) :
    storeArgument slots (storeArgument slots arguments e) f =
      storeArgument slots (storeArgument slots arguments f) e := by
  cases he : slots[e.1]? with
  | none => rw [storeArgument_of_none he, storeArgument_of_none he]
  | some slot =>
    cases hf : slots[f.1]? with
    | none => rw [storeArgument_of_none hf, storeArgument_of_none hf]
    | some slot' =>
      simp only [storeArgument_of_some he, storeArgument_of_some hf]
      exact List.set_comm _ _ h

/-! ## Nodes -/

namespace Node

variable {c : Catalog} {n : Node}

/-- Where nothing is set it does not matter what was there. -/
theorem fit_of_unset (slots : List Slot) {arguments : List (Option Value)}
    (h : ∀ i : Nat, arguments[i]?.join = none) : fit slots arguments = fit slots [] := by
  refine List.ext_getElem? fun i => ?_
  rw [getElem?_fit, getElem?_fit, h i]
  rfl

/-- A node without arguments may be resolved before it is given its operation. -/
theorem resolve_operation_resolve (h : n.arguments = []) (operation : Option String) :
    ({ n.resolve c with operation } : Node).resolve c =
      ({ n with operation } : Node).resolve c := by
  obtain ⟨hnegate, hfield, hcondition, hscope⟩ := resolve_frame c n
  have hunset (i : Nat) : (n.resolve c).arguments[i]?.join = none := by
    refine Option.eq_none_iff_forall_ne_some.2 fun v hv => ?_
    have hkept : n.arguments[i]?.join = some v := argument?_of_resolve hv
    rw [h] at hkept
    cases hkept
  have hnode : ({ n.resolve c with operation } : Node) =
      { ({ n with operation } : Node) with
        arguments := (n.resolve c).arguments
        resolution := (n.resolve c).resolution } := by
    simp only [hnegate, hfield, hcondition, hscope]
  have hfresh := resolve_eq_withArguments c { n with operation } [] n.resolution
  rw [hnode, resolve_eq_withArguments, fit_of_unset _ hunset, ← hfresh, ← h]

/-- The texts of a level may be stored in any order, as there is one for each index at most. -/
theorem foldl_store_of_perm {texts : Arguments} {entries : List (Nat × String)}
    (h : entries.Perm texts.entries) {rest : List Node} (hn : (n.resolve c).narrowedBy rest = n) :
    entries.foldl (fun n (i, raw) => n.store i raw) n =
      texts.entries.foldl (fun n (i, raw) => n.store i raw) n := by
  have hfoldl := foldl_store n (fit_arguments hn)
  rw [withArguments_arguments hn] at hfoldl
  rw [hfoldl, hfoldl]
  refine congrArg n.withArguments (h.foldl_eq' (fun e he f hf arguments => ?_) n.arguments)
  by_cases hef : e = f
  · rw [hef]
  · have hne : e.1 ≠ f.1 := fun hkey =>
      hef (List.inj_on_of_nodup_map texts.nodup_entries (h.mem_iff.1 he) (h.mem_iff.1 hf) hkey)
    exact storeArgument_comm arguments hne

theorem below_of_none (h : n.condition = .none) (levels : List Level) : n.below c levels = [] := by
  cases levels <;> rw [below, if_pos h]

end Node

/-! ## Rules -/

/-- The edits that enter texts for arguments. -/
def Edit.setArguments (entries : List (Nat × String)) : List Edit :=
  entries.map fun (i, raw) => .setArgument i raw

namespace Rule

variable {c : Catalog} {r : Rule}

/-- A single node is refreshed by resolving it. -/
theorem refresh_single (c : Catalog) (n : Node) : refresh c ⟨n, []⟩ = ⟨n.resolve c, []⟩ := by
  show (⟨(n.resolve c).narrowedBy [], []⟩ : Rule) = _
  rw [Node.narrowedBy_nil_of_resolve (Node.resolve_resolve c n)]

/-- The rule of a single level. -/
theorem build_of_conditionOrNone {config : Config} (h : config.head.conditionOrNone = .none) :
    ({} : Rule).build c config = ⟨Node.load c config.head {}, []⟩ := by
  have hcondition : (Node.load c config.head {}).condition = .none :=
    (Node.condition_load c config.head {}).trans h
  show (⟨(Node.load c config.head {}).narrowedBy _, _⟩ : Rule) = _
  rw [Node.below_of_none hcondition, Node.narrowedBy_nil_of_resolve (Node.resolve_load ..)]

/-- After a field, an operation: the field alone may have brought another operation with it. -/
theorem after_field_operation (c : Catalog) (negate : Bool) (field operation : Option String) :
    after c [.setNegate negate, .setField field, .setOperation operation] =
      ⟨Node.resolve c { negate, field := nonempty? field, operation := nonempty? operation },
        []⟩ := by
  have hfield : after c [.setNegate negate, .setField field] =
      ⟨Node.resolve c { negate, field := nonempty? field }, []⟩ :=
    refresh_single c { negate, field := nonempty? field }
  show (after c [.setNegate negate, .setField field]).setOperation c operation = _
  rw [hfield]
  refine (refresh_single c _).trans (congrArg (Rule.mk · []) ?_)
  exact Node.resolve_operation_resolve (n := { negate, field := nonempty? field }) rfl _

/-- After an operation, a field: without a field the operation is kept as it is. -/
theorem after_operation_field (c : Catalog) (negate : Bool) (field operation : Option String) :
    after c [.setNegate negate, .setOperation operation, .setField field] =
      ⟨Node.resolve c { negate, field := nonempty? field, operation := nonempty? operation },
        []⟩ := by
  have hoperation : after c [.setNegate negate, .setOperation operation] =
      ⟨{ negate, operation := nonempty? operation }, []⟩ :=
    refresh_single c { negate, operation := nonempty? operation }
  show (after c [.setNegate negate, .setOperation operation]).setField c field = _
  rw [hoperation]
  exact refresh_single c _

theorem foldl_setArguments (h : r.Settled c) (entries : List (Nat × String)) :
    (Edit.setArguments entries).foldl (edit c) r =
      { r with root := entries.foldl (fun n (i, raw) => n.store i raw) r.root } := by
  induction entries generalizing r with
  | nil => rfl
  | cons e entries ih =>
    show (Edit.setArguments entries).foldl (edit c) (r.setArgument c e.1 e.2).1 = _
    rw [setArgument_of_settled h, ih (settled_store h e.1 e.2)]
    rfl

/-- Arguments that are entered last are stored in the root one after the other. -/
theorem after_setArguments (c : Catalog) (edits : List Edit) (entries : List (Nat × String)) :
    after c (edits ++ Edit.setArguments entries) =
      { after c edits with
        root := entries.foldl (fun n (i, raw) => n.store i raw) (after c edits).root } := by
  rw [after, List.foldl_append]
  exact foldl_setArguments (reachable_after c edits).settled entries

/-- A configuration that stops after its first level, be it because its condition is absent or blank
or no condition at all. What is built from it from nothing is the rule after these edits of the
empty rule: the negation, the field and the operation in either order, and the arguments in any
order. -/
theorem after_steps_eq_build (c : Catalog) {config : Config}
    (hc : config.head.conditionOrNone = .none) {entries : List (Nat × String)}
    (h : entries.Perm config.head.arguments.entries) :
    after c ([.setNegate config.head.isNegated, .setField config.head.field,
        .setOperation config.head.operation] ++ Edit.setArguments entries) =
      ({} : Rule).build c config ∧
    after c ([.setNegate config.head.isNegated, .setOperation config.head.operation,
        .setField config.head.field] ++ Edit.setArguments entries) =
      ({} : Rule).build c config := by
  have hentered : Node.entered config.head {} =
      { negate := config.head.isNegated
        field := nonempty? config.head.field
        operation := nonempty? config.head.operation } := by
    have hnone : (Condition.ofText? config.head.condition).toOption.getD .none = .none := hc
    rw [Node.entered, hnone]
  have hload := Node.load_eq c config.head {}
  have hsettled := Node.settled_of_resolve (Node.resolve_resolve c (Node.entered config.head {}))
  rw [← Node.foldl_store_of_perm h hsettled, hentered] at hload
  rw [build_of_conditionOrNone hc, hload, after_setArguments, after_setArguments,
    after_field_operation, after_operation_field]
  exact ⟨rfl, rfl⟩

/-- A level with an operation that its field does not have, with a bound that is no number, and with
a text for a slot that there is not. Its condition is none, so nothing below it comes to bear. -/
def misfit : Config where
  head :=
    { operator := some " NOT "
      field := some "visits"
      operation := some "contains"
      condition := some "xor"
      arguments := .ofList [(0, " 5 "), (1, "many"), (7, "x")] }
  tail := [{ field := some "city" }]

theorem after_steps_eq_build_misfit :
    misfit.head.conditionOrNone = .none ∧
      [(7, "x"), (0, " 5 "), (1, "many")].Perm misfit.head.arguments.entries ∧
      (({} : Rule).build Stock.catalog misfit).text = "not visits:between(5, )" ∧
      after Stock.catalog ([.setNegate misfit.head.isNegated, .setField misfit.head.field,
          .setOperation misfit.head.operation] ++
          Edit.setArguments [(7, "x"), (0, " 5 "), (1, "many")]) =
        ({} : Rule).build Stock.catalog misfit ∧
      after Stock.catalog ([.setNegate misfit.head.isNegated, .setOperation misfit.head.operation,
          .setField misfit.head.field] ++ Edit.setArguments [(7, "x"), (0, " 5 "), (1, "many")]) =
        ({} : Rule).build Stock.catalog misfit := by
  have hc : misfit.head.conditionOrNone = .none := by decide +kernel
  have h : [(7, "x"), (0, " 5 "), (1, "many")].Perm misfit.head.arguments.entries := by
    decide +kernel
  exact ⟨hc, h, by decide +kernel, after_steps_eq_build Stock.catalog hc h⟩

end Rule

end Segmentation

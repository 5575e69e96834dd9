import Segmentation.Proofs.Rule.Locality
import Segmentation.Proofs.Rule.Rebuilding

/-!
# Entering one argument

An argument is entered in two steps: the value of the text goes into the slot of the root and of its
resolution, and then the whole rule is brought in line with the catalog again. As the rule was in
line before, and still is with another value of the right kind, the second step changes nothing; so
one slot is all that becomes different. Main statements:

* `settled_store`: a settled rule stays settled when a value is put into a slot;
* `refresh_of_settled`: refreshing a settled rule changes nothing;
* `refilled_of_setArgument`: what entering an argument changes, and what it answers.
-/

namespace Segmentation

namespace Node

variable {c : Catalog} {n : Node} {rest : List Node}

theorem store_narrowedBy (n : Node) (below : List Node) (i : Nat) (raw : String) :
    (n.narrowedBy below).store i raw = (n.store i raw).narrowedBy below := by
  cases hr : n.resolution with
  | none => simp only [store, narrowedBy, hr, Option.map_none]
  | some r => simp only [store, narrowedBy, hr, Option.map_some]

/-- A settled node is settled with another value in one of its slots. -/
theorem settled_store (hn : (n.resolve c).narrowedBy rest = n) (i : Nat) (raw : String) :
    ((n.store i raw).resolve c).narrowedBy rest = n.store i raw := by
  have hstore : n.store i raw = ((n.resolve c).store i raw).narrowedBy rest := by
    rw [← store_narrowedBy, hn]
  rw [hstore, resolve_narrowedBy, resolve_store (resolve_resolve c n)]

theorem childScope_store (n : Node) (i : Nat) (raw : String) :
    (n.store i raw).childScope = n.childScope := by
  rw [← childScope_withArguments (n.store i raw) [], withArguments_store, childScope_withArguments]

end Node

namespace Rule

variable {c : Catalog} {r : Rule}

/-- The rule with the value of a text in a slot of its root. -/
def store (r : Rule) (i : Nat) (raw : String) : Rule :=
  { r with root := r.root.store i raw }

theorem settled_store (h : r.Settled c) (i : Nat) (raw : String) : (r.store i raw).Settled c := by
  obtain ⟨-, -, -, hcondition, hscope⟩ := Node.store_frame r.root i raw
  refine ⟨hscope.trans h.scope, Node.settled_store h.root i raw, ?_⟩
  exact Node.follows_congr hcondition (Node.childScope_store r.root i raw) h.follows

theorem refresh_of_settled (h : r.Settled c) : r.refresh c = r := by
  have hrest : (r.root.resolve c).rescope c r.rest = r.rest := by
    refine Node.rescope_of_scope fun child hchild => ?_
    rw [Node.scope_of_follows h.follows hchild, Node.childScope_resolve h.root]
  show (⟨(r.root.resolve c).narrowedBy _, _⟩ : Rule) = r
  rw [hrest, h.root]

/-- Entering an argument is no more than storing it. -/
theorem setArgument_of_settled (h : r.Settled c) (i : Nat) (raw : String) :
    (r.setArgument c i raw).1 = r.store i raw := by
  unfold setArgument
  split
  · exact refresh_of_settled (settled_store h i raw)
  · rename_i hi
    have hnone := List.getElem?_eq_none_iff.2 (Nat.le_of_not_lt hi)
    rw [store, Node.store_of_settled h.root, storeArgument_of_none hnone,
      Node.withArguments_arguments h.root]

/-- The faults depend on whether the root is resolved, on its condition and on what is below. -/
theorem faults_congr {r' : Rule} (hr : r'.root.resolution.isSome = r.root.resolution.isSome)
    (hc : r'.root.condition = r.root.condition) (hrest : r'.rest = r.rest) :
    r'.faults = r.faults := by
  have hchild : r'.child? = r.child? := by rw [child?, child?, hrest]
  rw [faults, faults, hr, hc, hchild]

/-- A rule that differs from another one in what a slot of its root holds, and in nothing else. -/
structure Refilled (r : Rule) (i : Nat) (v : Option Value) (r' : Rule) : Prop where
  /-- The slot is there and holds the value, or nothing. -/
  argument : r'.root.arguments[i]? = some v
  /-- All other slots hold what they held, and there are as many as before. -/
  others : ∀ j, j ≠ i → r'.root.arguments[j]? = r.root.arguments[j]?
  length_arguments : r'.root.arguments.length = r.root.arguments.length
  /-- The resolution shows the arguments of the node and is the same in all else, the path that
  narrows it included. -/
  resolution : r'.root.resolution =
    r.root.resolution.map fun p => { p with arguments := r'.root.arguments }
  negate : r'.root.negate = r.root.negate
  field : r'.root.field = r.root.field
  operation : r'.root.operation = r.root.operation
  condition : r'.root.condition = r.root.condition
  scope : r'.root.scope = r.root.scope
  rest : r'.rest = r.rest
  faults : r'.faults = r.faults

/-- Another value in a slot of the root, the same in its resolution, is such a difference. -/
theorem refilled_withArguments {i : Nat} (hi : i < r.root.arguments.length) (v : Option Value) :
    Refilled r i v { r with root := r.root.withArguments (r.root.arguments.set i v) } := by
  refine ⟨?_, fun j hj => ?_, ?_, rfl, rfl, rfl, rfl, rfl, rfl, rfl, ?_⟩
  · exact List.getElem?_set_self hi
  · exact List.getElem?_set_ne hj.symm
  · exact List.length_set
  · exact faults_congr Option.isSome_map rfl rfl

/-- A reachable rule is asked to take a text as an argument. Without a slot for it nothing changes,
and the answer is no. With one, the slot holds the value of the text, or nothing if the text has no
value there; the answer tells which, and nothing but the slot changes. -/
theorem refilled_of_setArgument (h : Reachable c r) (i : Nat) (raw : String) :
    (r.root.resolution = none ∨ r.root.slots.length ≤ i → r.setArgument c i raw = (r, false)) ∧
      ∀ slot, r.root.slots[i]? = some slot →
        Refilled r i (slot.convert raw).toOption (r.setArgument c i raw).1 ∧
        ((r.setArgument c i raw).2 = true ↔ ∃ v, slot.convert raw = .ok v) := by
  have hs := h.settled
  refine ⟨fun hnone => ?_, fun slot hslot => ?_⟩
  · have hlen : ¬ i < r.root.slots.length := by
      rcases hnone with hr | hlen
      · rw [Node.slots, hr]
        exact Nat.not_lt_zero i
      · exact Nat.not_lt.2 hlen
    rw [setArgument, if_neg hlen]
  · have hi := (List.getElem?_eq_some_iff.1 hslot).1
    have hlen := (fit_eq_self_iff.1 (Node.fit_arguments hs.root)).1
    have hrefilled : Refilled r i (slot.convert raw).toOption _ :=
      refilled_withArguments (by omega) (slot.convert raw).toOption
    rw [← storeArgument_of_some hslot, ← Node.store_of_settled hs.root] at hrefilled
    refine ⟨?_, ?_⟩
    · rw [setArgument_of_settled hs]
      exact hrefilled
    · have hanswer : (r.setArgument c i raw).2 = ((r.root.store i raw).argument? i).isSome := by
        rw [setArgument, if_pos hi]
      rw [hanswer, Node.argument?, hrefilled.argument, Option.join_some, Option.isSome_iff_exists]
      simp only [Except.toOption_eq_some_iff]

/-- A range of durations, narrowed by a browser. -/
def ranged : Rule :=
  ({} : Rule).build Stock.catalog
    { head :=
        { operator := some "not"
          field := some "duration"
          operation := some "between"
          condition := some "and"
          arguments := .ofList [(0, "1.5"), (1, "60")] }
      tail := [
        { field := some "browser"
          operation := some "equals"
          arguments := .ofList [(0, "b.c")] }] }

/-- A bound that is no number is cleared, and there is no third bound. -/
theorem refilled_of_ranged :
    Reachable Stock.catalog ranged ∧
      ranged.text = "not duration:between(15e-1, 60).browser:equals(\"b\\x2ec\")" ∧
      ranged.root.slots[0]? = some (Stock.slot "min" .float) ∧ ranged.root.slots.length ≤ 2 ∧
      (ranged.setArgument Stock.catalog 0 "soon").1.text =
        "not duration:between(, 60).browser:equals(\"b\\x2ec\")" ∧
      ranged.setArgument Stock.catalog 2 "7" = (ranged, false) ∧
      Refilled ranged 0 ((Stock.slot "min" .float).convert "soon").toOption
        (ranged.setArgument Stock.catalog 0 "soon").1 ∧
      ((ranged.setArgument Stock.catalog 0 "soon").2 = true ↔
        ∃ v, (Stock.slot "min" .float).convert "soon" = .ok v) := by
  have h : Reachable Stock.catalog ranged := .build _ .empty
  have hslot : ranged.root.slots[0]? = some (Stock.slot "min" .float) := by decide +kernel
  have hlen : ranged.root.slots.length ≤ 2 := by decide +kernel
  exact ⟨h, by decide +kernel, hslot, hlen, by decide +kernel,
    (refilled_of_setArgument h 2 "7").1 (.inr hlen), (refilled_of_setArgument h 0 "soon").2 _ hslot⟩

end Rule

end Segmentation

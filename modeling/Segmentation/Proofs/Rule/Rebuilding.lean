import Segmentation.Catalog.Stock
import Segmentation.Proofs.Rule.Origin

/-!
# Building over a rule that is there

A rule may be built over another one. Of the old rule nothing counts but the arguments of its root,
and of these only those that the new configuration does not mention and that fit the new slots. All
else comes out as if there had been no rule before, so building the same configuration again changes
nothing. Main statements:

* `resolve_eq_withArguments`, `load_eq_of_scope`: what the old arguments have to do with a new node;
* `below_congr`: condition and child scope of a node decide the nodes below it;
* `build_eq_builtOver`: what is built over a rule.
-/

namespace Segmentation

namespace Node

variable {c : Catalog} {n m : Node}

/-! ## Arguments -/

/-- What the slots of a node hold if it was built over a former node: where there is a text, what the
node has for it, and elsewhere the former argument if the slot takes it. -/
def argumentsOver (n : Node) (texts : Arguments) (former : Node) : List (Option Value) :=
  n.slots.mapIdx fun i slot =>
    if (texts.get? i).isSome then n.argument? i
    else (former.argument? i).filter slot.kind.accepts

theorem getElem?_argumentsOver (n : Node) (texts : Arguments) (former : Node) (i : Nat) :
    (n.argumentsOver texts former)[i]? = n.slots[i]?.map fun slot =>
      if (texts.get? i).isSome then n.argument? i
      else (former.argument? i).filter slot.kind.accepts := by
  rw [argumentsOver, List.getElem?_mapIdx]

theorem argumentsOver_narrowedBy (n : Node) (below : List Node) (texts : Arguments)
    (former : Node) : (n.narrowedBy below).argumentsOver texts former =
      n.argumentsOver texts former := by
  unfold argumentsOver
  rw [slots_narrowedBy]
  rfl

/-- What was kept once is kept again. -/
theorem argumentsOver_withArguments (n : Node) (texts : Arguments) (former : Node) :
    n.argumentsOver texts (n.withArguments (n.argumentsOver texts former)) =
      n.argumentsOver texts former := by
  refine List.ext_getElem? fun i => ?_
  rw [getElem?_argumentsOver, getElem?_argumentsOver]
  cases hs : n.slots[i]? with
  | none => rfl
  | some slot =>
    rw [Option.map_some, Option.map_some]
    by_cases ht : (texts.get? i).isSome = true
    · rw [if_pos ht, if_pos ht]
    · have hkept : (n.withArguments (n.argumentsOver texts former)).argument? i =
          (former.argument? i).filter slot.kind.accepts := by
        show (n.argumentsOver texts former)[i]?.join = _
        rw [getElem?_argumentsOver, hs, Option.map_some, if_neg ht, Option.join_some]
      rw [if_neg ht, if_neg ht, hkept, Option.filter_filter]
      simp only [Bool.and_self]

/-- A text that is entered for a slot decides what the slot holds. -/
theorem argument?_of_entered (n : Node) {texts : Arguments} {i : Nat} {slot : Slot} {raw : String}
    (hslot : n.slots[i]? = some slot) (ht : texts.get? i = some raw) :
    (n.withArguments (enteredArguments n.slots texts n.arguments)).argument? i =
      (slot.convert raw).toOption := by
  show (enteredArguments n.slots texts n.arguments)[i]?.join = _
  rw [getElem?_enteredArguments, hslot, Option.map_some, Option.join_some, ht]
  rfl

theorem childScope_withArguments (n : Node) (arguments : List (Option Value)) :
    (n.withArguments arguments).childScope = n.childScope := by
  unfold childScope withArguments
  cases n.resolution <;> rfl

theorem narrowedBy_withArguments (n : Node) (arguments : List (Option Value))
    (below : List Node) :
    (n.withArguments arguments).narrowedBy below =
      (n.narrowedBy below).withArguments arguments := by
  unfold narrowedBy withArguments
  cases n.resolution <;> rfl

/-! ## Nodes -/

/-- Arguments and resolution that a node had before it was resolved show in its arguments only. -/
theorem resolve_eq_withArguments (c : Catalog) (n : Node) (arguments : List (Option Value))
    (resolution : Option Resolution) :
    ({ n with arguments, resolution } : Node).resolve c =
      (n.resolve c).withArguments (fit (n.resolve c).slots arguments) := by
  have hf : ({ n with arguments, resolution } : Node).found? c = n.found? c := rfl
  cases h : n.found? c with
  | none =>
    rw [resolve_of_none h, resolve_of_none (hf.trans h)]
    rfl
  | some p =>
    rw [resolve_of_some h, resolve_of_some (hf.trans h)]
    rfl

/-- Nodes with one scope differ in their arguments only, after one level is loaded into them. -/
theorem load_eq_of_scope (c : Catalog) (level : Level) (hs : n.scope = m.scope) :
    n.load c level = (m.load c level).withArguments
      ((m.load c level).argumentsOver level.arguments n) := by
  have hentered : n.entered level =
      { m.entered level with arguments := n.arguments, resolution := n.resolution } := by
    simp only [entered, hs]
  rw [load_eq_withArguments, load_eq_withArguments c level m, hentered, resolve_eq_withArguments]
  generalize (m.entered level).resolve c = k
  rw [withArguments_withArguments, withArguments_withArguments, slots_withArguments]
  congr 1
  refine List.ext_getElem? fun i => ?_
  rw [getElem?_argumentsOver, slots_withArguments, getElem?_enteredArguments]
  cases hslot : k.slots[i]? with
  | none => rfl
  | some slot =>
    rw [Option.map_some, Option.map_some]
    cases ht : level.arguments.get? i with
    | none =>
      show some (fit k.slots n.arguments)[i]?.join = some ((n.argument? i).filter slot.kind.accepts)
      rw [getElem?_fit, hslot]
      rfl
    | some raw =>
      rw [argument?_of_entered k hslot ht]
      rfl

/-- Condition and child scope of a node decide the nodes below it. -/
theorem below_congr (hc : n.condition = m.condition) (hs : n.childScope = m.childScope)
    (levels : List Level) : n.below c levels = m.below c levels := by
  cases levels with
  | nil => rw [below, below, hc, hs]
  | cons level levels => rw [below, below, hc, hs]

end Node

/-! ## Rules -/

namespace Rule

variable {c : Catalog} {r : Rule}

/-- A rule with what the slots of its root hold if it was built over a former rule. -/
def builtOver (r : Rule) (texts : Arguments) (former : Rule) : Rule :=
  { r with root := r.root.withArguments (r.root.argumentsOver texts former.root) }

/-- Keeping twice is keeping once. -/
theorem builtOver_builtOver (r : Rule) (texts : Arguments) (former : Rule) :
    r.builtOver texts (r.builtOver texts former) = r.builtOver texts former := by
  unfold builtOver
  rw [Node.argumentsOver_withArguments]

/-- The scope of its root is all that building takes from a rule but arguments of the root. -/
theorem build_eq_builtOver_of_scope (hs : r.root.scope = .global) (config : Config) :
    r.build c config = (({} : Rule).build c config).builtOver config.head.arguments r := by
  have hload := Node.load_eq_of_scope (m := {}) c config.head hs
  generalize hfresh : ({} : Node).load c config.head = fresh at hload
  have hbelow : (r.root.load c config.head).below c config.tail = fresh.below c config.tail := by
    rw [hload]
    apply Node.below_congr
    · rfl
    · exact Node.childScope_withArguments ..
  have hroot : (r.root.load c config.head).narrowedBy (fresh.below c config.tail) =
      (fresh.narrowedBy (fresh.below c config.tail)).withArguments
        ((fresh.narrowedBy (fresh.below c config.tail)).argumentsOver config.head.arguments r.root) := by
    rw [hload, Node.narrowedBy_withArguments, Node.argumentsOver_narrowedBy]
  show (⟨(r.root.load c config.head).narrowedBy _, _⟩ : Rule) = _
  rw [hbelow, hroot, ← hfresh]
  rfl

/-- A reachable rule over which a configuration is built becomes what is built from the configuration
alone, but that the root keeps the arguments that are not mentioned and still fit. Building the
configuration once more changes nothing. -/
theorem build_eq_builtOver (h : Reachable c r) (config : Config) :
    r.build c config = (({} : Rule).build c config).builtOver config.head.arguments r ∧
      (r.build c config).build c config = r.build c config := by
  have hbuild := build_eq_builtOver_of_scope (c := c) h.settled.scope config
  have hagain := build_eq_builtOver_of_scope (c := c) (h.build config).settled.scope config
  refine ⟨hbuild, ?_⟩
  rw [hagain, hbuild, builtOver_builtOver]

/-- A range of durations, with another rule beside it. -/
def timed : Rule :=
  ({} : Rule).build Stock.catalog
    { head :=
        { field := some "duration"
          operation := some "between"
          condition := some "or"
          arguments := .ofList [(0, "1.5"), (1, "60")] }
      tail := [{ field := some "city" }] }

/-- A range of which only the upper bound is mentioned, and that is no number. -/
def retimed : Config where
  head :=
    { operator := some "not"
      field := some "duration"
      operation := some "between"
      condition := some "and"
      arguments := .ofList [(1, "soon"), (7, "1")] }
  tail := [{ field := some "browser", operation := some "equals" }]

/-- The lower bound is kept, the upper one is cleared, and nothing else of the old rule is left. -/
theorem build_eq_builtOver_retimed :
    Reachable Stock.catalog timed ∧ timed.text = "duration:between(15e-1, 60) + city:contains()" ∧
      (timed.build Stock.catalog retimed).text =
        "not duration:between(15e-1, ).browser:equals()" ∧
      timed.build Stock.catalog retimed =
        (({} : Rule).build Stock.catalog retimed).builtOver retimed.head.arguments timed ∧
      (timed.build Stock.catalog retimed).build Stock.catalog retimed =
        timed.build Stock.catalog retimed := by
  have h : Reachable Stock.catalog timed := .build _ .empty
  exact ⟨h, by decide +kernel, by decide +kernel, build_eq_builtOver h retimed⟩

end Rule

end Segmentation

import Mathlib.Data.List.Forall2
import Segmentation.Proofs.Rule.Origin
import Segmentation.Proofs.Rule.Resolving

/-!
# Building is resolving

Building a rule does not resolve the levels of its configuration in one step: it resolves the field
of a node, brings the arguments of the node in line with the slots and enters the texts one by one
into the node and its resolution. For a rule that is built from nothing that comes to the same, at
every level. Main statements:

* `getElem?_reached_succ`: the levels that there are nodes for;
* `madeFrom_load`, `madeFrom_below`: the nodes that are made for levels;
* `slots_root`, `argument?_root`: the slots of a rule that is built from nothing, and their values;
* `madeFrom_build`: its nodes.
-/

namespace Segmentation

/-! ## Levels that there are nodes for -/

/-- The condition of a level; a text that is no condition counts as none. -/
def Level.conditionOrNone (level : Level) : Condition :=
  (Condition.ofText? level.condition).toOption.getD .none

/-- The levels that come to bear below a level: the next one if the condition of the level asks for
it, and so on from there. A level that is asked for and missing counts as empty. -/
def Level.reachedBelow (level : Level) : List Level → List Level
  | [] => if level.conditionOrNone = .none then [] else [{}]
  | next :: levels =>
    if level.conditionOrNone = .none then [] else next :: next.reachedBelow levels

/-- The levels that come to bear, outermost first. -/
def Config.reached (config : Config) : List Level :=
  config.head :: config.head.reachedBelow config.tail

theorem Level.getElem?_reachedBelow (level : Level) (levels : List Level) (k : Nat) :
    (level.reachedBelow levels)[k]? =
      (level :: level.reachedBelow levels)[k]?.bind fun l =>
        if l.conditionOrNone = .none then none else some (levels[k]?.getD {}) := by
  induction levels generalizing level k with
  | nil =>
    rw [reachedBelow]
    split
    · rename_i hc
      cases k with
      | zero => simp [hc]
      | succ k => rfl
    · rename_i hc
      match k with
      | 0 => simp [hc]
      | 1 => rfl
      | k + 2 => rfl
  | cons next levels ih =>
    rw [reachedBelow]
    split
    · rename_i hc
      cases k with
      | zero => simp [hc]
      | succ k => rfl
    · rename_i hc
      cases k with
      | zero => simp [hc]
      | succ k => exact ih next k

/-- There is a level after a level just if the condition of that one asks for it. -/
theorem Config.getElem?_reached_succ (config : Config) (k : Nat) :
    config.reached[k + 1]? = config.reached[k]?.bind fun level =>
      if level.conditionOrNone = .none then none else some (config.levels[k + 1]?.getD {}) :=
  config.head.getElem?_reachedBelow config.tail k

/-- The condition asks for a second level, which is missing. -/
example :
    ({ head := { field := some "city", condition := some " And " } } : Config).reached =
      [{ field := some "city", condition := some " And " }, {}] := by
  decide +kernel

/-! ## Nodes made from levels -/

namespace Node

variable {c : Catalog} {n : Node} {level : Level}

/-- A node has what a level says, and the catalog resolves the texts of the level in one step to what
the node has. -/
structure MadeFrom (c : Catalog) (level : Level) (n : Node) : Prop where
  negate : n.negate = level.isNegated
  field : n.field = nonempty? level.field
  /-- What is asked for stays only where nothing is found. -/
  operation : n.operation =
    (n.resolution.map fun r => r.operation.key).or (nonempty? level.operation)
  condition : n.condition = level.conditionOrNone
  predicate : n.resolution.map Resolution.toPredicate =
    n.field.bind fun field => c.resolve? n.scope field level.operation level.arguments.places
  arguments : n.arguments = (n.resolution.map fun r => r.arguments).getD []
  /-- Each slot depends on its own text alone. -/
  slots : n.arguments = n.slots.mapIdx fun i slot => slot.valueOf? (level.arguments.get? i)

theorem madeFrom_narrowedBy (h : n.MadeFrom c level) (below : List Node) :
    (n.narrowedBy below).MadeFrom c level := by
  obtain ⟨narrowing, hr⟩ := narrowedBy_resolution n below
  refine ⟨h.negate, h.field, ?_, h.condition, ?_, ?_, ?_⟩
  · rw [hr, Option.map_map]
    exact h.operation
  · rw [hr, Option.map_map]
    exact h.predicate
  · rw [hr, Option.map_map]
    exact h.arguments
  · rw [slots_narrowedBy]
    exact h.slots

theorem condition_load (c : Catalog) (level : Level) (n : Node) :
    (n.load c level).condition = level.conditionOrNone :=
  (load_frame c level n).2.2.1

/-- Resolving the texts of a level in one step finds what is found for a new node of the level. -/
theorem bind_resolve?_eq (c : Catalog) (level : Level) (scope : Scope) :
    ((nonempty? level.field).bind fun field =>
        c.resolve? scope field level.operation level.arguments.places) =
      ((entered level { scope }).found? c).map fun p =>
        { p with
          arguments := p.slots.mapIdx fun i slot => slot.valueOf? (level.arguments.get? i) } := by
  have hfound : (entered level { scope }).found? c =
      (nonempty? level.field).bind fun field => c.resolveField? scope field level.operation :=
    Option.bind_congr fun _ _ => Catalog.resolveField?_nonempty?
  rw [hfound, Option.map_bind]
  simp only [Catalog.resolve?_eq, Arguments.getElem?_places]
  rfl

/-- Loading a new node is resolving in one step. -/
theorem madeFrom_load (c : Catalog) (level : Level) (scope : Scope) :
    (load c level { scope }).MadeFrom c level := by
  obtain ⟨hnegate, hfield, hcondition, hscope⟩ := load_frame c level { scope }
  have hload := load_eq_withArguments c level { scope }
  have hresolve := bind_resolve?_eq c level scope
  cases hf : (entered level { scope }).found? c with
  | none =>
    rw [resolve_of_none hf] at hload
    rw [hf] at hresolve
    refine ⟨hnegate, hfield, ?_, hcondition, ?_, ?_, ?_⟩
    · rw [hload]
      rfl
    · rw [hfield, hscope, hresolve, hload]
      rfl
    · rw [hload]
      rfl
    · rw [hload]
      rfl
  | some p =>
    -- A new node has no arguments, so each slot has the value of its text or nothing.
    have hunset (i : Nat) : (fit p.slots [])[i]?.join = none := by
      rw [getElem?_fit]
      cases p.slots[i]? <;> rfl
    have harguments : enteredArguments p.slots level.arguments (fit p.slots []) =
        p.slots.mapIdx fun i slot => slot.valueOf? (level.arguments.get? i) :=
      enteredAt_of_unset hunset level.arguments.get?
    rw [resolve_of_some hf] at hload
    rw [hf] at hresolve
    refine ⟨hnegate, hfield, ?_, hcondition, ?_, ?_, ?_⟩
    · rw [hload]
      rfl
    · rw [hfield, hscope, hresolve, hload, Option.map_some, ← harguments]
      rfl
    · rw [hload]
      rfl
    · rw [hload]
      exact harguments

/-- The nodes below a node are made from the levels below its level. -/
theorem madeFrom_below (hc : n.condition = level.conditionOrNone) (levels : List Level) :
    List.Forall₂ (MadeFrom c) (level.reachedBelow levels) (n.below c levels) := by
  induction levels generalizing n level with
  | nil =>
    rw [Level.reachedBelow, below, hc]
    split
    · exact .nil
    · exact .cons (madeFrom_load c {} _) .nil
  | cons next levels ih =>
    rw [Level.reachedBelow, below, hc]
    split
    · exact .nil
    · have hchild := madeFrom_load c next n.childScope
      exact .cons (madeFrom_narrowedBy hchild _) (ih hchild.condition)

end Node

/-! ## Rules -/

namespace Rule

theorem madeFrom_root (c : Catalog) (config : Config) :
    (({} : Rule).build c config).root.MadeFrom c config.head :=
  Node.madeFrom_narrowedBy (Node.madeFrom_load c config.head .global) _

theorem scope_root (c : Catalog) (config : Config) :
    (({} : Rule).build c config).root.scope = .global :=
  Node.load_scope c config.head { scope := .global }

/-- The root of a rule that is built from nothing has the slots of what is found for its level. -/
theorem slots_root {c : Catalog} {config : Config} {field : String} {p : Predicate}
    (hfield : nonempty? config.head.field = some field)
    (hp : c.resolveField? .global field config.head.operation = some p) :
    (({} : Rule).build c config).root.slots = p.slots := by
  have hroot := madeFrom_root c config
  have hfound := hroot.predicate
  rw [hroot.field, hfield, Option.bind_some, scope_root, Catalog.resolve?_eq, hp, Option.map_some,
    Option.map_eq_some_iff] at hfound
  obtain ⟨r, hr, hpredicate⟩ := hfound
  have hslots : r.slots = p.slots := by
    rw [hpredicate]
    rfl
  rw [Node.slots, hr]
  exact hslots

/-- In the root of a rule that is built from nothing each slot has the value of its own text. -/
theorem argument?_root (c : Catalog) (config : Config) (i : Nat) :
    (({} : Rule).build c config).argument? 0 i =
      ((({} : Rule).build c config).slot? 0 i).bind fun slot =>
        slot.valueOf? (config.head.arguments.get? i) := by
  have hargument (r : Rule) : r.argument? 0 i = r.root.argument? i := rfl
  have hslot (r : Rule) : r.slot? 0 i = r.root.slots[i]? := rfl
  rw [hargument, hslot, Node.argument?, (madeFrom_root c config).slots, List.getElem?_mapIdx]
  cases (({} : Rule).build c config).root.slots[i]? <;> rfl

/-- A rule that is built from nothing has one node for each level that comes to bear, and each node
has what its level says and what the catalog resolves the texts of the level to in one step. The
first level always comes to bear, and another one just if the condition above it asks for it. -/
theorem madeFrom_build (c : Catalog) (config : Config) :
    config.reached[0]? = some config.head ∧
      (∀ k : Nat, config.reached[k + 1]? = config.reached[k]?.bind fun level =>
        if level.conditionOrNone = .none then none else some (config.levels[k + 1]?.getD {})) ∧
      List.Forall₂ (Node.MadeFrom c) config.reached (({} : Rule).build c config).nodes := by
  have hroot := Node.madeFrom_load c config.head .global
  refine ⟨rfl, config.getElem?_reached_succ, ?_⟩
  exact .cons (Node.madeFrom_narrowedBy hroot _) (Node.madeFrom_below hroot.condition config.tail)

end Rule

end Segmentation

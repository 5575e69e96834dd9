import Segmentation.Rule.Reachable
import Segmentation.Proofs.Rule.Mirroring

/-!
# Settled rules

A node is settled when resolving it once more and narrowing it by the nodes below it would change
nothing; so its resolution is what the catalog says now, and no copy in it is out of date. A rule is
settled when its nodes are, each node below another has the scope that the other gives it, and nodes
follow exactly where a condition asks for one.

Main statement: `Reachable.settled`, building and editing keep a rule settled. It rests on one lemma
for each way in which nodes come about:

* `resolve_resolve`: resolving twice is resolving once;
* `resolve_store`, `resolve_load`: entering texts leaves a resolved node resolved;
* `follows_below`, `follows_rescope`: the nodes below are made or moved so that they fit.
-/

namespace Segmentation

namespace Node

variable {c : Catalog} {n : Node}

/-! ## Resolving -/

/-- What resolving does not touch. -/
theorem resolve_frame (c : Catalog) (n : Node) :
    (n.resolve c).negate = n.negate ∧ (n.resolve c).field = n.field ∧
      (n.resolve c).condition = n.condition ∧ (n.resolve c).scope = n.scope := by
  cases h : n.found? c with
  | none => simp [resolve_of_none h]
  | some p => simp [resolve_of_some h]

@[simp] theorem resolve_condition (c : Catalog) (n : Node) :
    (n.resolve c).condition = n.condition :=
  (resolve_frame c n).2.2.1

@[simp] theorem resolve_scope (c : Catalog) (n : Node) : (n.resolve c).scope = n.scope :=
  (resolve_frame c n).2.2.2

/-- The old resolution does not matter. -/
theorem resolve_resolution (c : Catalog) (n : Node) (r : Option Resolution) :
    ({ n with resolution := r } : Node).resolve c = n.resolve c := by
  have hf : ({ n with resolution := r } : Node).found? c = n.found? c := rfl
  cases h : n.found? c with
  | none => rw [resolve_of_none h, resolve_of_none (hf.trans h)]
  | some p => rw [resolve_of_some h, resolve_of_some (hf.trans h)]

theorem resolve_negate (c : Catalog) (n : Node) (negate : Bool) :
    ({ n with negate } : Node).resolve c = { n.resolve c with negate } := by
  have hf : ({ n with negate } : Node).found? c = n.found? c := rfl
  cases h : n.found? c with
  | none => rw [resolve_of_none h, resolve_of_none (hf.trans h)]
  | some p => rw [resolve_of_some h, resolve_of_some (hf.trans h)]

/-- Resolving finds the same predicate again. -/
theorem found?_resolve (c : Catalog) (n : Node) : (n.resolve c).found? c = n.found? c := by
  cases h : n.found? c with
  | none =>
    rw [resolve_of_none h]
    exact h
  | some p =>
    rw [resolve_of_some h]
    obtain ⟨field, hfield, hp⟩ := Option.bind_eq_some_iff.1 h
    exact Option.bind_eq_some_iff.2 ⟨field, hfield, Catalog.resolveField?_again hp⟩

theorem resolve_resolve (c : Catalog) (n : Node) : (n.resolve c).resolve c = n.resolve c := by
  have hf := found?_resolve c n
  cases h : n.found? c with
  | none => rw [resolve_of_none (hf.trans h), resolve_of_none h]
  | some p =>
    rw [resolve_of_some (hf.trans h), resolve_of_some h]
    simp only [fit_fit]

/-! ## Narrowing -/

@[simp] theorem narrowedBy_condition (n : Node) (below : List Node) :
    (n.narrowedBy below).condition = n.condition := rfl

/-- Narrowing keeps all of a resolution but the path below it. -/
theorem narrowedBy_resolution (n : Node) (below : List Node) :
    ∃ narrowing, (n.narrowedBy below).resolution =
      n.resolution.map fun r => { r with narrowing } :=
  ⟨_, rfl⟩

theorem narrowedBy_nil (n : Node) :
    n.narrowedBy [] =
      { n with resolution := n.resolution.map fun r => { r with narrowing := [] } } := by
  unfold narrowedBy
  cases n.condition <;> rfl

theorem childScope_narrowedBy (n : Node) (below : List Node) :
    (n.narrowedBy below).childScope = n.childScope := by
  obtain ⟨narrowing, h⟩ := narrowedBy_resolution n below
  unfold childScope
  rw [narrowedBy_condition, h]
  cases n.resolution <;> rfl

theorem resolve_narrowedBy (c : Catalog) (n : Node) (below : List Node) :
    (n.narrowedBy below).resolve c = n.resolve c :=
  resolve_resolution c n _

theorem narrowedBy_narrowedBy (n : Node) (below below' : List Node) :
    (n.narrowedBy below).narrowedBy below' = n.narrowedBy below' := by
  obtain ⟨negate, field, operation, arguments, condition, scope, resolution⟩ := n
  cases resolution <;> rfl

theorem narrowedBy_negate (n : Node) (negate : Bool) (below : List Node) :
    ({ n with negate } : Node).narrowedBy below = { n.narrowedBy below with negate } := rfl

/-- The path below a node, as far as the node is joined to it by `and`. -/
theorem narrowing_narrowedBy {rest : List Node} {r : Resolution}
    (h : (n.narrowedBy rest).resolution = some r) :
    r.narrowing = if n.condition = .and then
      ((rest.head?.bind Node.resolution).map Resolution.path).getD [] else [] := by
  obtain ⟨r', -, rfl⟩ := Option.map_eq_some_iff.1 h
  cases n.condition <;> cases rest <;> rfl

/-- Resolving leaves no path below. -/
theorem narrowedBy_nil_of_resolve (h : n.resolve c = n) : n.narrowedBy [] = n := by
  have hnil : (n.resolve c).narrowedBy [] = n.resolve c := by
    cases hf : n.found? c with
    | none =>
      rw [resolve_of_none hf]
      rfl
    | some p =>
      rw [resolve_of_some hf]
      unfold narrowedBy
      cases n.condition <;> rfl
  rwa [h] at hnil

/-! ## Settled nodes -/

variable {rest : List Node} {p : Predicate}

theorem settled_of_none (hn : (n.resolve c).narrowedBy rest = n) (hf : n.found? c = none) :
    n.resolution = none ∧ n.arguments = [] := by
  rw [resolve_of_none hf] at hn
  rw [← hn]
  exact ⟨rfl, rfl⟩

theorem settled_of_some (hn : (n.resolve c).narrowedBy rest = n) (hf : n.found? c = some p) :
    n.operation = some p.operation.key ∧ fit p.slots n.arguments = n.arguments ∧
      ∃ narrowing, n.resolution = some { p with arguments := n.arguments, narrowing } := by
  rw [resolve_of_some hf] at hn
  have ha : fit p.slots n.arguments = n.arguments := congrArg Node.arguments hn
  refine ⟨(congrArg Node.operation hn).symm, ha, ?_⟩
  obtain ⟨narrowing, hr⟩ := narrowedBy_resolution
    { n with
      operation := some p.operation.key
      arguments := fit p.slots n.arguments
      resolution := some { p with arguments := fit p.slots n.arguments } } rest
  rw [hn, Option.map_some, ha] at hr
  exact ⟨narrowing, hr⟩

/-- The resolution of a settled node is what was found for it, with its arguments. -/
theorem resolution_of_settled (hn : (n.resolve c).narrowedBy rest = n) {r : Resolution}
    (hr : n.resolution = some r) :
    ∃ p, n.found? c = some p ∧ r.toBinding = p.toBinding ∧ r.operation = p.operation ∧
      r.arguments = n.arguments ∧ n.operation = some r.operation.key := by
  cases hf : n.found? c with
  | none =>
    rw [(settled_of_none hn hf).1] at hr
    cases hr
  | some p =>
    obtain ⟨ho, -, narrowing, hr'⟩ := settled_of_some hn hf
    obtain rfl := Option.some.inj (hr'.symm.trans hr)
    exact ⟨p, rfl, rfl, rfl, rfl, ho⟩

/-- A settled node has the field of its resolution. -/
theorem field_of_settled (hn : (n.resolve c).narrowedBy rest = n) {r : Resolution}
    (hr : n.resolution = some r) : n.field = some r.field.key := by
  obtain ⟨p, hf, hbinding, -, -, -⟩ := resolution_of_settled hn hr
  obtain ⟨field, hfield, hp⟩ := Option.bind_eq_some_iff.1 hf
  rw [hfield, hbinding, (Catalog.declares_of_resolveField? hp).key]

/-- A settled node is narrowed by the path that the next node has now. -/
theorem narrowing_of_settled (hn : (n.resolve c).narrowedBy rest = n) {r : Resolution}
    (hr : n.resolution = some r) :
    r.narrowing = if n.condition = .and then
      ((rest.head?.bind Node.resolution).map Resolution.path).getD [] else [] := by
  rw [← hn] at hr
  exact (narrowing_narrowedBy hr).trans (by rw [resolve_condition])

/-- The arguments of a settled node fit its slots. -/
theorem fit_arguments (hn : (n.resolve c).narrowedBy rest = n) :
    fit n.slots n.arguments = n.arguments := by
  cases hf : n.found? c with
  | none =>
    obtain ⟨hr, ha⟩ := settled_of_none hn hf
    rw [slots, hr, ha]
    rfl
  | some p =>
    obtain ⟨-, ha, narrowing, hr⟩ := settled_of_some hn hf
    rw [slots, hr]
    exact ha

/-- A settled node has its arguments in its resolution as well. -/
theorem withArguments_arguments (hn : (n.resolve c).narrowedBy rest = n) :
    n.withArguments n.arguments = n := by
  cases hf : n.found? c with
  | none =>
    obtain ⟨hr, ha⟩ := settled_of_none hn hf
    rw [withArguments, hr, Option.map_none, ← hr]
  | some p =>
    obtain ⟨-, -, narrowing, hr⟩ := settled_of_some hn hf
    rw [withArguments, hr, Option.map_some, ← hr]

theorem settled_of_resolve (h : n.resolve c = n) : (n.resolve c).narrowedBy [] = n := by
  rw [h, narrowedBy_nil_of_resolve h]

theorem narrowedBy_of_settled (hn : (n.resolve c).narrowedBy rest = n) : n.narrowedBy rest = n := by
  have h := narrowedBy_narrowedBy (n.resolve c) rest rest
  rwa [hn] at h

/-- A settled node keeps the scope of its child when it is resolved again. -/
theorem childScope_resolve (hn : (n.resolve c).narrowedBy rest = n) :
    (n.resolve c).childScope = n.childScope := by
  rw [← childScope_narrowedBy (n.resolve c) rest, hn]

/-! ## Entering texts -/

/-- Arguments that fit the slots of a resolved node may take the place of its own. -/
theorem resolve_withArguments (h : n.resolve c = n) {arguments : List (Option Value)}
    (hfit : fit n.slots arguments = arguments) :
    (n.withArguments arguments).resolve c = n.withArguments arguments := by
  cases hf : n.found? c with
  | none =>
    have hn := resolve_of_none hf
    rw [h] at hn
    have hr : n.resolution = none := congrArg Node.resolution hn
    have ha : arguments = [] := by
      rw [← hfit, slots, hr]
      rfl
    have hw : n.withArguments arguments = n := by
      rw [ha, hn]
      rfl
    rw [hw, h]
  | some p =>
    have hn := resolve_of_some hf
    rw [h] at hn
    have ho : n.operation = some p.operation.key := congrArg Node.operation hn
    have hr : n.resolution = some { p with arguments := fit p.slots n.arguments } :=
      congrArg Node.resolution hn
    have hs : n.slots = p.slots := by
      rw [slots, hr]
      rfl
    have hf' : (n.withArguments arguments).found? c = some p := hf
    rw [resolve_of_some hf']
    simp only [withArguments, ← hs, hfit, ho, hr, Option.map_some]

/-- A text is stored in both places of a settled node alike. -/
theorem store_of_settled (hn : (n.resolve c).narrowedBy rest = n) (i : Nat) (raw : String) :
    n.store i raw = n.withArguments (storeArgument n.slots n.arguments (i, raw)) :=
  store_eq (fit_arguments hn) (withArguments_arguments hn) i raw

theorem resolve_store (h : n.resolve c = n) (i : Nat) (raw : String) :
    (n.store i raw).resolve c = n.store i raw := by
  have hn := settled_of_resolve h
  rw [store_of_settled hn]
  exact resolve_withArguments h (fit_storeArgument (fit_arguments hn) (i, raw))

/-- What every store keeps, all stores keep. -/
theorem foldl_store_induction {P : Node → Prop} (hP : ∀ n i raw, P n → P (Node.store n i raw))
    (entries : List (Nat × String)) {n : Node} (h : P n) :
    P (entries.foldl (fun n (i, raw) => n.store i raw) n) := by
  induction entries generalizing n with
  | nil => exact h
  | cons e entries ih => exact ih (hP n e.1 e.2 h)

theorem resolve_load (c : Catalog) (level : Level) (n : Node) :
    (n.load c level).resolve c = n.load c level := by
  rw [load_eq]
  exact foldl_store_induction (P := fun n => n.resolve c = n)
    (fun _ i raw h => resolve_store h i raw) _ (resolve_resolve c _)

/-- What loading does not take from the slots: all but operation, arguments and resolution. -/
theorem load_frame (c : Catalog) (level : Level) (n : Node) :
    (n.load c level).negate = level.isNegated ∧
      (n.load c level).field = nonempty? level.field ∧
      (n.load c level).condition = (Condition.ofText? level.condition).toOption.getD .none ∧
      (n.load c level).scope = n.scope := by
  rw [load_eq]
  refine foldl_store_induction (P := fun m => m.negate = level.isNegated ∧
    m.field = nonempty? level.field ∧
    m.condition = (Condition.ofText? level.condition).toOption.getD .none ∧ m.scope = n.scope)
    (fun m i raw h => ?_) _ (resolve_frame c (n.entered level))
  obtain ⟨hn, hf, -, hc, hs⟩ := store_frame m i raw
  rw [hn, hf, hc, hs]
  exact h

@[simp] theorem load_scope (c : Catalog) (level : Level) (n : Node) :
    (n.load c level).scope = n.scope :=
  (load_frame c level n).2.2.2

/-! ## The nodes below -/

/-- What makes nodes fit below a node: there are some exactly if its condition asks for one, the
first has the scope that the node gives it, and each is settled. -/
def Follows (c : Catalog) (n : Node) : List Node → Prop
  | [] => n.condition = .none
  | m :: rest =>
    n.condition ≠ .none ∧ m.scope = n.childScope ∧ (m.resolve c).narrowedBy rest = m ∧
      m.Follows c rest

theorem isSome_head?_of_follows (h : n.Follows c rest) :
    rest.head?.isSome = true ↔ n.condition ≠ .none := by
  cases rest with
  | nil =>
    have hc : n.condition = .none := h
    simp [hc]
  | cons m rest =>
    obtain ⟨hc, -⟩ := h
    simp [hc]

theorem scope_of_follows (h : n.Follows c rest) {m : Node} (hm : rest.head? = some m) :
    m.scope = n.childScope := by
  cases rest with
  | nil => cases hm
  | cons k rest =>
    obtain rfl := Option.some.inj hm
    exact h.2.1

/-- Only its condition and the scope of its child tie a node to the nodes below. -/
theorem follows_congr {n m : Node} (hc : m.condition = n.condition)
    (hs : m.childScope = n.childScope) (h : n.Follows c rest) :
    m.Follows c rest := by
  cases rest with
  | nil => exact hc.trans h
  | cons k rest =>
    obtain ⟨h₁, h₂, h₃, h₄⟩ := h
    exact ⟨hc ▸ h₁, h₂.trans hs.symm, h₃, h₄⟩

theorem follows_narrowedBy (below : List Node) (h : n.Follows c rest) :
    (n.narrowedBy below).Follows c rest :=
  follows_congr (narrowedBy_condition n below) (childScope_narrowedBy n below) h

/-- A resolved node is settled once it is narrowed by what is below it. -/
theorem settled_narrowedBy (h : n.resolve c = n) (rest : List Node) :
    ((n.narrowedBy rest).resolve c).narrowedBy rest = n.narrowedBy rest := by
  rw [resolve_narrowedBy, h]

theorem follows_below (c : Catalog) (n : Node) (levels : List Level) :
    n.Follows c (n.below c levels) := by
  induction levels generalizing n with
  | nil =>
    rw [below]
    split
    · assumption
    · rename_i hc
      have hr := resolve_load c {} { scope := n.childScope }
      exact ⟨hc, load_scope .., settled_of_resolve hr,
        (load_frame c {} { scope := n.childScope }).2.2.1⟩
  | cons level levels ih =>
    rw [below]
    split
    · assumption
    · rename_i hc
      have hr := resolve_load c level { scope := n.childScope }
      exact ⟨hc, load_scope .., settled_narrowedBy hr _, follows_narrowedBy _ (ih _)⟩

/-- Nodes that fitted below a node fit below its successor once they are moved to its scope. -/
theorem follows_rescope {n m : Node} (hc : m.condition = n.condition)
    (h : n.Follows c rest) : m.Follows c (m.rescope c rest) := by
  induction rest generalizing n m with
  | nil => exact hc.trans h
  | cons k rest ih =>
    obtain ⟨h₁, h₂, h₃, h₄⟩ := h
    rw [rescope]
    split
    · rename_i hkeep
      exact ⟨hc ▸ h₁, hkeep.resolve_left (hc ▸ h₁), h₃, h₄⟩
    · -- The child moves; what is below it fitted under its old scope and is moved in turn.
      have hr := resolve_resolve c { k with scope := m.childScope }
      have hbelow := ih (n := k) (m := ({ k with scope := m.childScope } : Node).resolve c)
        (resolve_condition ..) h₄
      exact ⟨hc ▸ h₁, resolve_scope .., settled_narrowedBy hr _, follows_narrowedBy _ hbelow⟩

/-- In a chain that follows a settled node every node is settled and followed by the rest. -/
theorem settled_getElem? (hn : (n.resolve c).narrowedBy rest = n) (h : n.Follows c rest) {k : Nat}
    {m : Node} (hk : (n :: rest)[k]? = some m) :
    (m.resolve c).narrowedBy ((n :: rest).drop (k + 1)) = m ∧
      m.Follows c ((n :: rest).drop (k + 1)) := by
  induction rest generalizing n k with
  | nil =>
    obtain ⟨hlt, rfl⟩ := List.getElem?_eq_some_iff.1 hk
    obtain rfl : k = 0 := Nat.lt_one_iff.1 hlt
    exact ⟨hn, h⟩
  | cons child rest ih =>
    cases k with
    | zero =>
      obtain rfl := Option.some.inj hk
      exact ⟨hn, h⟩
    | succ k =>
      obtain ⟨-, -, hchild, hrest⟩ := h
      exact ih hchild hrest hk

end Node

/-! ## Rules -/

namespace Rule

variable {c : Catalog} {r : Rule}

/-- A rule in line with the catalog: the root sees all handlers and is settled, and so are the nodes
that follow it. -/
structure Settled (c : Catalog) (r : Rule) : Prop where
  scope : r.root.scope = .global
  root : (r.root.resolve c).narrowedBy r.rest = r.root
  follows : r.root.Follows c r.rest

theorem Settled.node (h : r.Settled c) {n : Node} (hn : n ∈ r.nodes) :
    ∃ rest, (n.resolve c).narrowedBy rest = n := by
  obtain ⟨k, hk⟩ := List.mem_iff_getElem?.1 hn
  exact ⟨_, (Node.settled_getElem? h.root h.follows hk).1⟩

theorem settled_empty (c : Catalog) : Settled c {} :=
  ⟨rfl, rfl, rfl⟩

theorem settled_build (hs : r.root.scope = .global) (config : Config) :
    (r.build c config).Settled c := by
  refine ⟨?_, ?_, ?_⟩
  · exact (Node.load_scope c config.head r.root).trans hs
  · exact Node.settled_narrowedBy (Node.resolve_load c config.head r.root) _
  · exact Node.follows_narrowedBy _ (Node.follows_below c _ config.tail)

/-- After any change of the root but that of its condition, refreshing settles the rule again. -/
theorem settled_refresh {n : Node} (hs : r.root.scope = .global)
    (hc : r.root.condition = n.condition) (h : n.Follows c r.rest) : (r.refresh c).Settled c := by
  refine ⟨?_, ?_, ?_⟩
  · exact (Node.resolve_scope c r.root).trans hs
  · exact Node.settled_narrowedBy (Node.resolve_resolve c r.root) _
  · exact Node.follows_narrowedBy _
      (Node.follows_rescope ((Node.resolve_condition c r.root).trans hc) h)

theorem settled_setNegate (h : r.Settled c) (negate : Bool) : (r.setNegate negate).Settled c := by
  refine ⟨h.scope, ?_, ?_⟩
  · show (({ r.root with negate } : Node).resolve c).narrowedBy r.rest = { r.root with negate }
    rw [Node.resolve_negate, Node.narrowedBy_negate, h.root]
  · exact Node.follows_congr (n := r.root) (m := { r.root with negate }) rfl rfl h.follows

theorem settled_setArgument (h : r.Settled c) (i : Nat) (raw : String) :
    (r.setArgument c i raw).1.Settled c := by
  unfold setArgument
  split
  · obtain ⟨-, -, -, hc, hs⟩ := Node.store_frame r.root i raw
    exact settled_refresh (hs.trans h.scope) hc h.follows
  · exact h

theorem ofText_eq_ok_iff {s : String} :
    ofText c s = .ok r ↔ ∃ config, Expr.parse s = .ok config ∧ ({} : Rule).build c config = r := by
  unfold ofText
  cases Expr.parse s <;> simp [Except.map]

/-- Reading, building and editing keep a rule settled. -/
theorem Reachable.settled (h : Reachable c r) : r.Settled c := by
  induction h with
  | empty => exact settled_empty c
  | ofText h =>
    obtain ⟨config, -, rfl⟩ := ofText_eq_ok_iff.1 h
    exact settled_build rfl config
  | build config _ ih => exact settled_build ih.scope config
  | setNegate negate _ ih => exact settled_setNegate ih negate
  | @setField r field _ ih => exact settled_refresh (n := r.root) ih.scope rfl ih.follows
  | @setOperation r operation _ ih => exact settled_refresh (n := r.root) ih.scope rfl ih.follows
  | setArgument i raw _ ih => exact settled_setArgument ih i raw

end Rule

end Segmentation

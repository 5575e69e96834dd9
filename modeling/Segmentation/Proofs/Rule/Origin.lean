import Mathlib.Data.List.Induction
import Segmentation.Rule.Edit
import Segmentation.Proofs.Catalog.Slots
import Segmentation.Proofs.Rule.Loading

/-!
# The origin of an argument

In a run of edits each argument goes back to one edit: that edit entered a text for it, the text was
converted in the slot that was there, and the value has stayed at its place since. The slot may be
another one by now, since the value stays when the operation or the field changes, as long as the
slot at its place is of its kind. But whatever all conversions at a place yield holds of every
argument of every rule. In particular no argument is infinite or NaN.

Main statements:

* `reachable_iff_after`: the reachable rules are those after runs of edits;
* `converted_or_kept`: one edit converts an argument or finds it where it is;
* `origin_of_argument`: the origin of an argument in a run, by induction on the run;
* `argument_of_reachable`: what all conversions yield holds of all arguments.
-/

namespace Segmentation

/-! ## Nodes -/

namespace Node

variable {c : Catalog} {n m : Node} {i k : Nat} {v : Value}

/-- Every argument satisfies a condition on its place and its value. -/
def Holds (P : Nat → Value → Prop) (n : Node) : Prop :=
  ∀ i v, n.argument? i = some v → P i v

theorem slots_narrowedBy (n : Node) (below : List Node) : (n.narrowedBy below).slots = n.slots := by
  obtain ⟨narrowing, h⟩ := narrowedBy_resolution n below
  unfold slots
  rw [h]
  cases n.resolution <;> rfl

/-- A node that is found has the slots of what is found. -/
theorem slots_of_found? {rest : List Node} (hn : (n.resolve c).narrowedBy rest = n) {p : Predicate}
    (hf : n.found? c = some p) : n.slots = p.slots := by
  obtain ⟨-, -, narrowing, hr⟩ := settled_of_some hn hf
  rw [slots, hr]
  rfl

/-- The slots of a resolved node are slots of the catalog. -/
theorem hasSlot_of_resolve {i : Nat} {slot : Slot} (h : (n.resolve c).slots[i]? = some slot) :
    c.HasSlot i slot := by
  cases hf : n.found? c with
  | none =>
    rw [resolve_of_none hf] at h
    cases h
  | some p =>
    rw [resolve_of_some hf] at h
    obtain ⟨field, -, hp⟩ := Option.bind_eq_some_iff.1 hf
    exact ⟨p.valueType, (Catalog.declares_of_resolveField? hp).valueType, p.operation,
      Catalog.operation_mem_of_resolveField? hp, h⟩

/-- The slots of a settled node are slots of the catalog. -/
theorem hasSlot_of_settled {below : List Node} (hn : (n.resolve c).narrowedBy below = n) {i : Nat}
    {slot : Slot} (h : n.slots[i]? = some slot) : c.HasSlot i slot := by
  rw [← hn, slots_narrowedBy] at h
  exact hasSlot_of_resolve h

/-- A resolved node has the arguments it had before in the slots that take them. -/
theorem argument?_resolve (c : Catalog) (n : Node) (i : Nat) :
    (n.resolve c).argument? i =
      (n.resolve c).slots[i]?.bind fun slot => (n.argument? i).filter slot.kind.accepts := by
  cases hf : n.found? c with
  | none =>
    rw [resolve_of_none hf]
    rfl
  | some p =>
    rw [resolve_of_some hf]
    show (fit p.slots n.arguments)[i]?.join = p.slots[i]?.bind _
    rw [getElem?_fit]
    cases p.slots[i]? <;> rfl

/-- Resolving adds no argument. -/
theorem argument?_of_resolve {i : Nat} {v : Value} (h : (n.resolve c).argument? i = some v) :
    n.argument? i = some v := by
  rw [argument?_resolve] at h
  obtain ⟨slot, -, hkept⟩ := Option.bind_eq_some_iff.1 h
  exact (Option.filter_eq_some_iff.1 hkept).1

/-- A value is that of a text in the slot at its place. -/
def Converts (n : Node) (i : Nat) (text : Option String) (v : Value) : Prop :=
  ∃ raw ∈ text, ∃ slot ∈ n.slots[i]?, slot.convert raw = .ok v

theorem converts_narrowedBy {text : Option String} (below : List Node) (h : n.Converts i text v) :
    (n.narrowedBy below).Converts i text v := by
  obtain ⟨raw, hraw, slot, hslot, hv⟩ := h
  exact ⟨raw, hraw, slot, by rwa [slots_narrowedBy], hv⟩

/-- An argument after loading comes from the text of the level or was there before. -/
theorem converts_or_kept_of_load {level : Level} (h : (n.load c level).argument? i = some v) :
    (n.load c level).Converts i (level.arguments.get? i) v ∨ n.argument? i = some v := by
  rw [load_eq_withArguments] at h ⊢
  generalize hm : (n.entered level).resolve c = m at h ⊢
  have hplace : (enteredArguments m.slots level.arguments m.arguments)[i]?.join = some v := h
  rw [getElem?_enteredArguments] at hplace
  cases hs : m.slots[i]? with
  | none =>
    rw [hs] at hplace
    cases hplace
  | some slot =>
    rw [hs, Option.map_some, Option.join_some] at hplace
    cases ht : level.arguments.get? i with
    | none =>
      rw [ht] at hplace
      have hkept : m.argument? i = some v := hplace
      rw [← hm] at hkept
      exact .inr (argument?_of_resolve (n := n.entered level) hkept)
    | some raw =>
      rw [ht] at hplace
      refine .inl ⟨raw, rfl, slot, ?_, Except.toOption_eq_some_iff.1 hplace⟩
      rwa [slots_withArguments]

/-- Nodes made for levels have no arguments but from the texts of the levels. -/
theorem converts_of_below {levels : List Level} (hk : (n.below c levels)[k]? = some m)
    (h : m.argument? i = some v) :
    m.Converts i (levels[k]?.bind fun level => level.arguments.get? i) v := by
  have hload {scope : Scope} {level : Level}
      (hv : (load c level { scope }).argument? i = some v) :
      (load c level { scope }).Converts i (level.arguments.get? i) v := by
    rcases converts_or_kept_of_load hv with hconv | hkept
    · exact hconv
    · cases hkept
  induction levels generalizing n k with
  | nil =>
    rw [below] at hk
    split at hk
    · cases hk
    · obtain rfl := List.mem_singleton.1 (List.mem_of_getElem? hk)
      obtain ⟨raw, hraw, -⟩ := hload h
      cases hraw
  | cons level levels ih =>
    rw [below] at hk
    split at hk
    · cases hk
    · cases k with
      | zero =>
        obtain rfl := Option.some.inj hk
        exact converts_narrowedBy _ (hload h)
      | succ k => exact ih hk

/-- Moving nodes to other scopes adds no argument. -/
theorem argument?_of_rescope {rest : List Node} (hk : (n.rescope c rest)[k]? = some m)
    (h : m.argument? i = some v) : ∃ child, rest[k]? = some child ∧ child.argument? i = some v := by
  induction rest generalizing n k with
  | nil => cases hk
  | cons child rest ih =>
    rw [rescope] at hk
    split at hk
    · exact ⟨m, hk, h⟩
    · cases k with
      | zero =>
        obtain rfl := Option.some.inj hk
        exact ⟨child, rfl, argument?_of_resolve (n := { child with scope := n.childScope }) h⟩
      | succ k => exact ih hk

/-- A text does not change what is found for a node, so the slots stay. -/
theorem slots_resolve_store {rest : List Node} (hn : (n.resolve c).narrowedBy rest = n) (i : Nat)
    (raw : String) : ((n.store i raw).resolve c).slots = n.slots := by
  obtain ⟨-, hfield, hoperation, -, hscope⟩ := store_frame n i raw
  have hf : (n.store i raw).found? c = n.found? c := by
    unfold found?
    rw [hfield, hoperation, hscope]
  cases h : n.found? c with
  | none =>
    rw [resolve_of_none (hf.trans h), slots, slots, (settled_of_none hn h).1]
  | some p =>
    rw [resolve_of_some (hf.trans h), slots_of_found? hn h]
    rfl

/-- An argument after storing comes from the stored text or was there before. -/
theorem converts_or_kept_of_store {rest : List Node} (hn : (n.resolve c).narrowedBy rest = n)
    {j : Nat} {raw : String} (h : (n.store j raw).argument? i = some v) :
    j = i ∧ ((n.store j raw).resolve c).Converts i (some raw) v ∨ n.argument? i = some v := by
  have hplace : (storeArgument n.slots n.arguments (j, raw))[i]?.join = some v := by
    rw [store_of_settled hn] at h
    exact h
  cases hs : n.slots[j]? with
  | none =>
    rw [storeArgument_of_none hs] at hplace
    exact .inr hplace
  | some slot =>
    rw [storeArgument_of_some hs] at hplace
    rcases getElem?_set_join hplace with ⟨rfl, hx⟩ | ⟨-, hkept⟩
    · refine .inl ⟨rfl, raw, rfl, slot, ?_, Except.toOption_eq_some_iff.1 hx⟩
      rw [slots_resolve_store hn, hs]
      rfl
    · exact .inr hkept

end Node

/-! ## Edits -/

namespace Rule

variable {c : Catalog} {r : Rule} {k i : Nat} {v : Value}

theorem argument?_of_refresh (h : (r.refresh c).argument? k i = some v) :
    r.argument? k i = some v := by
  cases k with
  | zero => exact Node.argument?_of_resolve (n := r.root) h
  | succ k =>
    obtain ⟨m, hm, hv⟩ := Option.bind_eq_some_iff.1 h
    obtain ⟨child, hchild, hv⟩ := Node.argument?_of_rescope hm hv
    exact Option.bind_eq_some_iff.2 ⟨child, hchild, hv⟩

/-- An edit converts an argument from its own text, or finds it where it is. -/
theorem converted_or_kept (hr : r.Settled c) (e : Edit)
    (h : (r.edit c e).argument? k i = some v) :
    (∃ n, (r.edit c e).nodes[k]? = some n ∧ n.Converts i (e.text? k i) v) ∨
      r.argument? k i = some v := by
  cases e with
  | build config =>
    cases k with
    | zero =>
      refine (Node.converts_or_kept_of_load (n := r.root) h).imp_left fun hconv => ?_
      exact ⟨_, rfl, Node.converts_narrowedBy _ hconv⟩
    | succ k =>
      obtain ⟨m, hm, hv⟩ := Option.bind_eq_some_iff.1 h
      have hconv : m.Converts i (config.tail[k]?.bind fun level => level.arguments.get? i) v :=
        Node.converts_of_below hm hv
      exact .inl ⟨m, hm, hconv⟩
  | setNegate negate => cases k <;> exact .inr h
  | setField field =>
    have hkept := argument?_of_refresh h
    cases k <;> exact .inr hkept
  | setOperation operation =>
    have hkept := argument?_of_refresh h
    cases k <;> exact .inr hkept
  | setArgument j raw =>
    rw [edit, setArgument] at h ⊢
    split at h
    · rename_i hj
      rw [if_pos hj]
      have hstored := argument?_of_refresh h
      cases k with
      | zero =>
        have hplace : (r.root.store j raw).argument? i = some v := hstored
        rcases Node.converts_or_kept_of_store hr.root hplace with ⟨rfl, hconv⟩ | hkept
        · rw [Edit.text?, if_pos ⟨rfl, rfl⟩]
          exact .inl ⟨_, rfl, Node.converts_narrowedBy _ hconv⟩
        · exact .inr hkept
      | succ k => exact .inr hstored
    · exact .inr h

/-! ## Runs -/

theorem reachable_after (c : Catalog) (edits : List Edit) : Reachable c (after c edits) := by
  induction edits using List.reverseRecOn with
  | nil => exact .empty
  | append_singleton edits e ih =>
    rw [after_concat]
    exact ih.edit e

/-- The reachable rules are those after runs of edits; reading is building from the empty rule. -/
theorem reachable_iff_after : Reachable c r ↔ ∃ edits, after c edits = r := by
  refine ⟨fun h => ?_, fun ⟨edits, h⟩ => h ▸ reachable_after c edits⟩
  induction h with
  | empty => exact ⟨[], rfl⟩
  | ofText h =>
    obtain ⟨config, -, rfl⟩ := ofText_eq_ok_iff.1 h
    exact ⟨[.build config], rfl⟩
  | build config _ ih =>
    obtain ⟨edits, rfl⟩ := ih
    exact ⟨edits ++ [.build config], after_concat ..⟩
  | setNegate negate _ ih =>
    obtain ⟨edits, rfl⟩ := ih
    exact ⟨edits ++ [.setNegate negate], after_concat ..⟩
  | setField field _ ih =>
    obtain ⟨edits, rfl⟩ := ih
    exact ⟨edits ++ [.setField field], after_concat ..⟩
  | setOperation operation _ ih =>
    obtain ⟨edits, rfl⟩ := ih
    exact ⟨edits ++ [.setOperation operation], after_concat ..⟩
  | setArgument i raw _ ih =>
    obtain ⟨edits, rfl⟩ := ih
    exact ⟨edits ++ [.setArgument i raw], after_concat ..⟩

/-- In a run an edit entered the text of an argument, which was converted in a slot, and the value
stayed at its place through all edits since. -/
def EnteredIn (c : Catalog) (edits : List Edit) (k i : Nat) (slot : Slot) (v : Value) : Prop :=
  ∃ before e raw, before ++ [e] <+: edits ∧ e.text? k i = some raw ∧
    (after c (before ++ [e])).slot? k i = some slot ∧ slot.convert raw = .ok v ∧
    ∀ between, before ++ [e] <+: between → between <+: edits →
      (after c between).argument? k i = some v

theorem EnteredIn.convert {edits : List Edit} {slot : Slot} (h : EnteredIn c edits k i slot v) :
    ∃ raw, slot.convert raw = .ok v := by
  obtain ⟨_, _, raw, -, -, -, hv, -⟩ := h
  exact ⟨raw, hv⟩

/-- Each argument was entered by one of the edits. -/
theorem origin_of_argument {edits : List Edit} (h : (after c edits).argument? k i = some v) :
    ∃ slot, EnteredIn c edits k i slot v := by
  induction edits using List.reverseRecOn with
  | nil => cases k <;> cases h
  | append_singleton edits e ih =>
    have hstep := h
    rw [after_concat] at hstep
    rcases converted_or_kept (reachable_after c edits).settled e hstep with hconv | hkept
    · obtain ⟨n, hn, raw, hraw, slot, hslot, hv⟩ := hconv
      rw [← after_concat] at hn
      refine ⟨slot, edits, e, raw, List.prefix_rfl, hraw, Option.bind_eq_some_iff.2 ⟨n, hn, hslot⟩,
        hv, fun between hfrom hto => ?_⟩
      rwa [hto.eq_of_length_le hfrom.length_le]
    · obtain ⟨slot, before, e', raw, hp, hraw, hslot, hv, hstay⟩ := ih hkept
      refine ⟨slot, before, e', raw, hp.trans (List.prefix_append ..), hraw, hslot, hv,
        fun between hfrom hto => ?_⟩
      rcases List.prefix_concat_iff.1 hto with rfl | hto
      · exact h
      · exact hstay between hfrom hto

theorem hasSlot_of_reachable (h : Reachable c r) {slot : Slot} (hs : r.slot? k i = some slot) :
    c.HasSlot i slot := by
  obtain ⟨n, hn, hslot⟩ := Option.bind_eq_some_iff.1 hs
  obtain ⟨hsettled, -⟩ := Node.settled_getElem? h.settled.root h.settled.follows hn
  exact Node.hasSlot_of_settled hsettled hslot

/-- What every conversion in a slot at a place yields holds of every argument at that place. -/
theorem argument_of_reachable {P : Nat → Value → Prop}
    (hP : ∀ i slot raw v, c.HasSlot i slot → slot.convert raw = .ok v → P i v)
    (h : Reachable c r) : ∀ n ∈ r.nodes, n.Holds P := by
  intro n hn i v hv
  obtain ⟨edits, rfl⟩ := reachable_iff_after.1 h
  obtain ⟨k, hk⟩ := List.mem_iff_getElem?.1 hn
  have hargument : (after c edits).argument? k i = some v :=
    Option.bind_eq_some_iff.2 ⟨n, hk, hv⟩
  obtain ⟨slot, before, e, raw, -, -, hslot, hconv, -⟩ := origin_of_argument hargument
  exact hP i slot raw v (hasSlot_of_reachable (reachable_after c _) hslot) hconv

theorem isFinite_of_reachable (h : Reachable c r) :
    ∀ n ∈ r.nodes, n.Holds fun _ v => v.isFinite = true :=
  argument_of_reachable (fun _ _ _ _ _ hv => Slot.isFinite_convert hv) h

end Rule

end Segmentation

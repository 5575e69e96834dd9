import Segmentation.Rule.Basic
import Segmentation.Proofs.Catalog.Lookup

/-!
# Arguments in two places

A node has arguments, and its resolution has them once more. While a node is resolved and loaded the
two differ: a resolution is found without arguments, texts are stored in it before the node takes
them over, and only at the end does it get the arguments of the node. Here each step is told by what
it leaves in both places, so that the order of the steps may be forgotten. Main statements:

* `resolve_of_some`, `resolve_of_none`: what resolving comes to, both of its steps taken;
* `store_withArguments`: where both places agree, a text is stored in both alike;
* `sync_store`: a text may be stored before the resolution gets the arguments of the node or after;
* `load_eq`: so loading is resolving and then storing.
-/

namespace Segmentation

/-! ## Fitting arguments -/

variable {slots : List Slot} {arguments : List (Option Value)}

theorem length_fit (slots : List Slot) (arguments : List (Option Value)) :
    (fit slots arguments).length = slots.length := by
  simp [fit]

theorem getElem?_fit (slots : List Slot) (arguments : List (Option Value)) (i : Nat) :
    (fit slots arguments)[i]? =
      slots[i]?.map fun slot : Slot => arguments[i]?.join.filter slot.kind.accepts := by
  simp [fit]

/-- Arguments that fit are left alone: one for each slot, of its kind. -/
theorem fit_eq_self_iff :
    fit slots arguments = arguments ↔
      arguments.length = slots.length ∧ ∀ (i : Nat) (slot : Slot) v, slots[i]? = some slot →
        arguments[i]?.join = some v → slot.kind.accepts v = true := by
  constructor
  · intro h
    refine ⟨h ▸ length_fit slots arguments, fun i slot v hs hv => ?_⟩
    rw [← h, getElem?_fit, hs, Option.map_some, Option.join_some] at hv
    exact (Option.filter_eq_some_iff.1 hv).2
  · intro ⟨hlen, hkind⟩
    refine List.ext_getElem? fun i => ?_
    rw [getElem?_fit]
    cases hs : slots[i]? with
    | none =>
      have := List.getElem?_eq_none_iff.1 hs
      exact (List.getElem?_eq_none_iff.2 (by omega)).symm
    | some slot =>
      have hlt := (List.getElem?_eq_some_iff.1 hs).1
      obtain ⟨x, hx⟩ : ∃ x, arguments[i]? = some x :=
        ⟨_, List.getElem?_eq_getElem (by omega)⟩
      rw [hx, Option.map_some, Option.join_some]
      cases x with
      | none => rfl
      | some v =>
        rw [Option.filter_some_pos (hkind i slot v hs (by rw [hx, Option.join_some]))]

theorem fit_fit (slots : List Slot) (arguments : List (Option Value)) :
    fit slots (fit slots arguments) = fit slots arguments := by
  refine fit_eq_self_iff.2 ⟨length_fit slots arguments, fun i slot v hs hv => ?_⟩
  rw [getElem?_fit, hs, Option.map_some, Option.join_some] at hv
  exact (Option.filter_eq_some_iff.1 hv).2

/-- A value among arguments of which one was replaced is the new one or an old one. -/
theorem getElem?_set_join {i j : Nat} {x : Option Value} {v : Value}
    (h : (arguments.set i x)[j]?.join = some v) :
    i = j ∧ x = some v ∨ i ≠ j ∧ arguments[j]?.join = some v := by
  by_cases hij : i = j
  · subst hij
    by_cases hlt : i < arguments.length
    · rw [List.getElem?_set_self hlt, Option.join_some] at h
      exact .inl ⟨rfl, h⟩
    · rw [List.getElem?_eq_none (by rw [List.length_set]; omega)] at h
      cases h
  · rw [List.getElem?_set_ne hij] at h
    exact .inr ⟨hij, h⟩

/-- A value of the kind of its slot, or nothing, may be put among arguments that fit. -/
theorem fit_set {i : Nat} {slot : Slot} {x : Option Value} (h : fit slots arguments = arguments)
    (hs : slots[i]? = some slot) (hx : ∀ v ∈ x, slot.kind.accepts v = true) :
    fit slots (arguments.set i x) = arguments.set i x := by
  obtain ⟨hlen, hkind⟩ := fit_eq_self_iff.1 h
  refine fit_eq_self_iff.2 ⟨by rw [List.length_set, hlen], fun j slot' v hs' hv => ?_⟩
  rcases getElem?_set_join hv with ⟨rfl, hxv⟩ | ⟨-, hv⟩
  · obtain rfl := Option.some.inj (hs.symm.trans hs')
    exact hx v hxv
  · exact hkind j slot' v hs' hv

theorem Except.toOption_eq_some_iff {ε α : Type} {x : Except ε α} {a : α} :
    x.toOption = some a ↔ x = .ok a := by
  cases x <;> simp [Except.toOption]

/-- A conversion gives a value of the kind of the slot, if any. -/
theorem Slot.accepts_convert {slot : Slot} {raw : String} {v : Value}
    (h : (slot.convert raw).toOption = some v) : slot.kind.accepts v = true :=
  Kind.accepts_iff.2 (Slot.kind_convert (Except.toOption_eq_some_iff.1 h))

/-! ## Storing an argument -/

/-- The arguments after a text is stored. -/
def storeArgument (slots : List Slot) (arguments : List (Option Value)) (e : Nat × String) :
    List (Option Value) :=
  match slots[e.1]? with
  | some slot => arguments.set e.1 (slot.convert e.2).toOption
  | none => arguments

theorem storeArgument_of_some {i : Nat} {slot : Slot} (h : slots[i]? = some slot) (raw : String) :
    storeArgument slots arguments (i, raw) = arguments.set i (slot.convert raw).toOption := by
  simp only [storeArgument, h]

theorem storeArgument_of_none {i : Nat} (h : slots[i]? = none) (raw : String) :
    storeArgument slots arguments (i, raw) = arguments := by
  simp only [storeArgument, h]

theorem length_storeArgument (e : Nat × String) :
    (storeArgument slots arguments e).length = arguments.length := by
  unfold storeArgument
  split
  · rw [List.length_set]
  · rfl

theorem storeArgument_self {slot : Slot} {i : Nat} (hlen : arguments.length = slots.length)
    (h : slots[i]? = some slot) (raw : String) :
    (storeArgument slots arguments (i, raw))[i]?.join = (slot.convert raw).toOption := by
  have hlt := (List.getElem?_eq_some_iff.1 h).1
  rw [storeArgument_of_some h, List.getElem?_set_self (by omega), Option.join_some]

theorem storeArgument_of_ne {i j : Nat} (h : j ≠ i) (raw : String) :
    (storeArgument slots arguments (j, raw))[i]? = arguments[i]? := by
  unfold storeArgument
  split
  · rw [List.getElem?_set_ne h]
  · rfl

/-- What is stored fits. -/
theorem fit_storeArgument (h : fit slots arguments = arguments) (e : Nat × String) :
    fit slots (storeArgument slots arguments e) = storeArgument slots arguments e := by
  cases hs : slots[e.1]? with
  | none => rw [storeArgument_of_none hs, h]
  | some slot =>
    rw [storeArgument_of_some hs]
    exact fit_set h hs fun v hv => Slot.accepts_convert hv

/-- A slot may take over what another list has there after the text is stored in it. -/
theorem set_storeArgument {arguments' : List (Option Value)} (hlen : arguments.length = slots.length)
    (hlen' : arguments'.length = slots.length) (i : Nat) (raw : String) :
    arguments.set i (storeArgument slots arguments' (i, raw))[i]?.join =
      storeArgument slots arguments (i, raw) := by
  cases hs : slots[i]? with
  | none =>
    have hle := List.getElem?_eq_none_iff.1 hs
    rw [storeArgument_of_none hs, storeArgument_of_none hs, List.set_eq_of_length_le (by omega)]
  | some slot => rw [storeArgument_self hlen' hs, storeArgument_of_some hs]

theorem Predicate.convertArgument_eq (p : Predicate) (i : Nat) (raw : String) :
    p.convertArgument i raw =
      { p with arguments := storeArgument p.slots p.arguments (i, raw) } := by
  unfold convertArgument storeArgument
  cases p.slots[i]? <;> rfl

namespace Node

variable {c : Catalog} {n : Node}

/-! ## Both places -/

/-- The node with other arguments, in its resolution as well. -/
def withArguments (n : Node) (arguments : List (Option Value)) : Node :=
  { n with
    arguments
    resolution := n.resolution.map fun r => { r with arguments } }

theorem slots_withArguments (n : Node) (arguments : List (Option Value)) :
    (n.withArguments arguments).slots = n.slots := by
  unfold slots withArguments
  cases n.resolution <;> rfl

theorem withArguments_withArguments (n : Node) (arguments arguments' : List (Option Value)) :
    (n.withArguments arguments).withArguments arguments' = n.withArguments arguments' := by
  unfold withArguments
  cases n.resolution <;> rfl

theorem sync_of_fit (h : fit n.slots n.arguments = n.arguments) :
    n.sync = n.withArguments n.arguments := by
  cases hr : n.resolution with
  | none => simp only [sync, withArguments, hr, Option.map_none]
  | some r =>
    have hfit : fit r.slots n.arguments = n.arguments := by rwa [slots, hr] at h
    simp only [sync, withArguments, hr, Option.map_some, Predicate.setArguments, hfit]

/-! ## Resolving -/

/-- The predicate of the field of a node, as the catalog has it now. -/
def found? (c : Catalog) (n : Node) : Option Predicate :=
  n.field.bind fun field => c.resolveField? n.scope field n.operation

theorem resolveBlank_of_some {p : Predicate} (h : n.found? c = some p) :
    n.resolveBlank c =
      { n with
        operation := some p.operation.key
        arguments := fit p.slots n.arguments
        resolution := some { toPredicate := p } } := by
  unfold found? at h
  simp only [resolveBlank, h]

theorem resolveBlank_of_none (h : n.found? c = none) :
    n.resolveBlank c = { n with arguments := [], resolution := none } := by
  unfold found? at h
  simp only [resolveBlank, h]

theorem resolve_of_some {p : Predicate} (h : n.found? c = some p) :
    n.resolve c =
      { n with
        operation := some p.operation.key
        arguments := fit p.slots n.arguments
        resolution := some { p with arguments := fit p.slots n.arguments } } := by
  rw [resolve, resolveBlank_of_some h]
  exact sync_of_fit (fit_fit p.slots n.arguments)

theorem resolve_of_none (h : n.found? c = none) :
    n.resolve c = { n with arguments := [], resolution := none } := by
  rw [resolve, resolveBlank_of_none h]
  rfl

/-! ## Storing -/

theorem store_of_resolution {r : Resolution} (hr : n.resolution = some r) (i : Nat) (raw : String) :
    n.store i raw =
      { n with
        arguments := n.arguments.set i (storeArgument r.slots r.arguments (i, raw))[i]?.join
        resolution := some { r with arguments := storeArgument r.slots r.arguments (i, raw) } } := by
  simp only [store, hr, Predicate.convertArgument_eq]
  rfl

theorem store_of_unresolved (hr : n.resolution = none) (i : Nat) (raw : String) :
    n.store i raw = n := by
  simp only [store, hr]

/-- What storing does not touch. -/
theorem store_frame (n : Node) (i : Nat) (raw : String) :
    (n.store i raw).negate = n.negate ∧ (n.store i raw).field = n.field ∧
      (n.store i raw).operation = n.operation ∧ (n.store i raw).condition = n.condition ∧
      (n.store i raw).scope = n.scope := by
  unfold store
  split <;> exact ⟨rfl, rfl, rfl, rfl, rfl⟩

/-- Storing touches nothing but the arguments in both places. -/
theorem withArguments_store (n : Node) (i : Nat) (raw : String)
    (arguments : List (Option Value)) :
    (n.store i raw).withArguments arguments = n.withArguments arguments := by
  cases hr : n.resolution with
  | none => rw [store_of_unresolved hr]
  | some r => simp only [store_of_resolution hr, withArguments, hr, Option.map_some]

theorem slots_store (n : Node) (i : Nat) (raw : String) : (n.store i raw).slots = n.slots := by
  rw [← slots_withArguments (n.store i raw) [], withArguments_store, slots_withArguments]

/-- The arguments of a node fit its slots, and its resolution has a place for each of them, whatever
it holds: so it is from when the resolution is found until it gets the arguments of the node. -/
structure Sized (n : Node) : Prop where
  fits : fit n.slots n.arguments = n.arguments
  places : ∀ r, n.resolution = some r → r.arguments.length = r.slots.length

theorem sized_resolveBlank (c : Catalog) (n : Node) : (n.resolveBlank c).Sized := by
  cases h : n.found? c with
  | none =>
    rw [resolveBlank_of_none h]
    exact ⟨rfl, nofun⟩
  | some p =>
    rw [resolveBlank_of_some h]
    refine ⟨fit_fit p.slots n.arguments, fun r hr => ?_⟩
    obtain rfl := Option.some.inj hr
    obtain ⟨field, -, hp⟩ := Option.bind_eq_some_iff.1 h
    have hblank := (Catalog.resolveField?_eq_some_iff.1 hp).2.2
    exact (congrArg List.length hblank).trans List.length_replicate

theorem arguments_store (h : n.Sized) (i : Nat) (raw : String) :
    (n.store i raw).arguments = storeArgument n.slots n.arguments (i, raw) := by
  cases hr : n.resolution with
  | none => rw [store_of_unresolved hr, slots, hr, storeArgument_of_none rfl]
  | some r =>
    have hlen := (fit_eq_self_iff.1 h.fits).1
    rw [slots, hr] at hlen ⊢
    rw [store_of_resolution hr]
    exact set_storeArgument hlen (h.places r hr) i raw

theorem sized_store (h : n.Sized) (i : Nat) (raw : String) : (n.store i raw).Sized := by
  refine ⟨?_, fun r' hr' => ?_⟩
  · rw [slots_store, arguments_store h]
    exact fit_storeArgument h.fits (i, raw)
  · cases hr : n.resolution with
    | none =>
      rw [store_of_unresolved hr] at hr'
      exact h.places r' hr'
    | some r =>
      rw [store_of_resolution hr] at hr'
      obtain rfl := Option.some.inj hr'
      exact (length_storeArgument _).trans (h.places r hr)

/-- A text for which there is no slot changes nothing. -/
theorem store_of_le (h : n.Sized) {i : Nat} (hi : n.slots.length ≤ i) (raw : String) :
    n.store i raw = n := by
  cases hr : n.resolution with
  | none => exact store_of_unresolved hr i raw
  | some r =>
    have hlen := (fit_eq_self_iff.1 h.fits).1
    rw [slots, hr] at hi hlen
    have hs : r.slots[i]? = none := List.getElem?_eq_none_iff.2 hi
    rw [store_of_resolution hr, storeArgument_of_none hs, List.set_eq_of_length_le (by omega), ← hr]

/-- Where both places agree, a text is stored in both alike. -/
theorem store_withArguments (n : Node) {arguments : List (Option Value)}
    (h : fit n.slots arguments = arguments) (i : Nat) (raw : String) :
    (n.withArguments arguments).store i raw =
      n.withArguments (storeArgument n.slots arguments (i, raw)) := by
  have hlen := (fit_eq_self_iff.1 h).1
  cases hr : n.resolution with
  | none =>
    have hr' : (n.withArguments arguments).resolution = none := by
      rw [withArguments, hr, Option.map_none]
    rw [store_of_unresolved hr', slots, hr, storeArgument_of_none rfl]
  | some r =>
    have hr' : (n.withArguments arguments).resolution = some { r with arguments } := by
      rw [withArguments, hr, Option.map_some]
    rw [slots, hr] at hlen ⊢
    rw [store_of_resolution hr']
    show { n with
      arguments := arguments.set i (storeArgument r.slots arguments (i, raw))[i]?.join
      resolution := some { r with arguments := storeArgument r.slots arguments (i, raw) } } = _
    rw [set_storeArgument hlen hlen, withArguments, hr, Option.map_some]

theorem store_eq (h : fit n.slots n.arguments = n.arguments)
    (hn : n.withArguments n.arguments = n) (i : Nat) (raw : String) :
    n.store i raw = n.withArguments (storeArgument n.slots n.arguments (i, raw)) := by
  have hstore := store_withArguments n h i raw
  rwa [hn] at hstore

/-! ## Loading -/

/-- A text may be stored before the resolution gets the arguments of the node or after. -/
theorem sync_store (h : n.Sized) (i : Nat) (raw : String) :
    (n.store i raw).sync = n.sync.store i raw := by
  calc (n.store i raw).sync
      = (n.store i raw).withArguments (n.store i raw).arguments :=
        sync_of_fit (sized_store h i raw).fits
    _ = n.withArguments (storeArgument n.slots n.arguments (i, raw)) := by
      rw [withArguments_store, arguments_store h]
    _ = (n.withArguments n.arguments).store i raw := (store_withArguments n h.fits i raw).symm
    _ = n.sync.store i raw := by rw [sync_of_fit h.fits]

theorem sync_foldl_store (entries : List (Nat × String)) (h : n.Sized) :
    ((entries.filter fun (i, _) => i < n.slots.length).foldl
        (fun n (i, raw) => n.store i raw) n).sync =
      entries.foldl (fun n (i, raw) => n.store i raw) n.sync := by
  induction entries generalizing n with
  | nil => rfl
  | cons e entries ih =>
    -- Storing keeps the node sized and its slots as they are, so the later texts are filtered alike.
    obtain ⟨i, raw⟩ := e
    show _ = entries.foldl _ (n.sync.store i raw)
    rw [← sync_store h, ← ih (sized_store h i raw), slots_store]
    by_cases hi : i < n.slots.length
    · simp only [List.filter_cons, decide_eq_true hi, if_true, List.foldl_cons]
    · rw [store_of_le h (Nat.le_of_not_lt hi)]
      simp only [List.filter_cons, hi, decide_false, Bool.false_eq_true, if_false]

/-- Loading is resolving with the keys of the level and storing its texts one after the other. -/
theorem load_eq (c : Catalog) (level : Level) (n : Node) :
    n.load c level =
      level.arguments.entries.foldl (fun n (i, raw) => n.store i raw)
        ((n.entered level).resolve c) :=
  sync_foldl_store level.arguments.entries (sized_resolveBlank c (n.entered level))

end Node

end Segmentation

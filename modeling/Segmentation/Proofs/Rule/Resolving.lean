import Segmentation.Proofs.Rule.Loading

/-!
# Resolving in one step

A catalog resolves a field, an operation and texts for arguments in one step: it finds the operation
and converts the texts one after the other, each in the slot of its place. The outcome can be told
slot by slot, as it can for a level that is loaded into a node. Main statements:

* `enteredAt_enteredAt`, `storeArgument_eq`: texts that are entered one after the other;
* `resolve?_eq`: what a field, an operation and texts are resolved to;
* `resolveField?_nonempty?`: an empty request counts as none.
-/

namespace Segmentation

/-! ## Texts by place -/

variable {slots : List Slot} {arguments : List (Option Value)}

/-- The value of a text in a slot, if there is a text and it has a value there. -/
def Slot.valueOf? (slot : Slot) (text : Option String) : Option Value :=
  text.bind fun raw => (slot.convert raw).toOption

/-- The arguments after texts are entered for some of the slots. -/
def enteredAt (slots : List Slot) (text : Nat → Option String) (arguments : List (Option Value)) :
    List (Option Value) :=
  slots.mapIdx fun i slot => enteredArgument slot (text i) arguments[i]?.join

theorem getElem?_enteredAt (text : Nat → Option String) (i : Nat) :
    (enteredAt slots text arguments)[i]? =
      slots[i]?.map fun slot => enteredArgument slot (text i) arguments[i]?.join := by
  rw [enteredAt, List.getElem?_mapIdx]

theorem length_enteredAt (text : Nat → Option String) :
    (enteredAt slots text arguments).length = slots.length := by
  simp [enteredAt]

/-- Without texts the arguments stay. -/
theorem enteredAt_none (hlen : arguments.length = slots.length) :
    enteredAt slots (fun _ => none) arguments = arguments := by
  refine List.ext_getElem? fun i => ?_
  rw [getElem?_enteredAt]
  cases hs : slots[i]? with
  | none =>
    have := List.getElem?_eq_none_iff.1 hs
    exact (List.getElem?_eq_none_iff.2 (by omega)).symm
  | some slot =>
    have hlt := (List.getElem?_eq_some_iff.1 hs).1
    rw [List.getElem?_eq_getElem (show i < arguments.length by omega)]
    rfl

/-- Of two texts for a slot the later one counts. -/
theorem enteredAt_enteredAt (text later : Nat → Option String) :
    enteredAt slots later (enteredAt slots text arguments) =
      enteredAt slots (fun i => (later i).or (text i)) arguments := by
  refine List.ext_getElem? fun i => ?_
  rw [getElem?_enteredAt, getElem?_enteredAt, getElem?_enteredAt]
  cases slots[i]? with
  | none => rfl
  | some slot =>
    rw [Option.map_some, Option.map_some, Option.map_some, Option.join_some]
    cases later i <;> rfl

/-- Where nothing was before, each slot has the value of its text. -/
theorem enteredAt_of_unset (h : ∀ i : Nat, arguments[i]?.join = none)
    (text : Nat → Option String) :
    enteredAt slots text arguments = slots.mapIdx fun i slot => slot.valueOf? (text i) := by
  refine List.ext_getElem? fun i => ?_
  rw [getElem?_enteredAt, List.getElem?_mapIdx, h]
  cases text i <;> rfl

/-- A text for one slot. -/
theorem storeArgument_eq (hlen : arguments.length = slots.length) (k : Nat) (raw : String) :
    storeArgument slots arguments (k, raw) =
      enteredAt slots (fun i => if i = k then some raw else none) arguments := by
  have hstored : (storeArgument slots arguments (k, raw)).length = slots.length :=
    (length_storeArgument _).trans hlen
  refine List.ext_getElem? fun i => ?_
  rw [← enteredAt_none hstored, getElem?_enteredAt, getElem?_enteredAt]
  cases hs : slots[i]? with
  | none => rfl
  | some slot =>
    by_cases hi : i = k
    · subst hi
      rw [if_pos rfl]
      exact congrArg some (storeArgument_self hlen hs raw)
    · rw [if_neg hi, storeArgument_of_ne (Ne.symm hi)]

/-- The text for a slot in a list by place, the first of them for slot `k`. -/
def textFrom (k : Nat) (raw : List (Option String)) (i : Nat) : Option String :=
  if k ≤ i then raw[i - k]?.join else none

theorem textFrom_nil (k : Nat) : textFrom k [] = fun _ => none := by
  funext i
  simp [textFrom]

theorem textFrom_zero (raw : List (Option String)) (i : Nat) :
    textFrom 0 raw i = raw[i]?.join := by
  rw [textFrom, if_pos (Nat.zero_le i), Nat.sub_zero]

/-- The first text stands in front of the other ones. -/
theorem textFrom_cons (k : Nat) (text : Option String) (raw : List (Option String)) (i : Nat) :
    textFrom k (text :: raw) i = (textFrom (k + 1) raw i).or (if i = k then text else none) := by
  unfold textFrom
  rcases Nat.lt_trichotomy i k with h | rfl | h
  · rw [if_neg (by omega), if_neg (by omega), if_neg (by omega)]
    rfl
  · rw [if_pos (Nat.le_refl i), if_neg (by omega), if_pos rfl, Nat.sub_self]
    rfl
  · rw [if_pos (by omega), if_pos (show k + 1 ≤ i from h), if_neg (by omega), Option.or_none,
      show i - k = i - (k + 1) + 1 by omega, List.getElem?_cons_succ]

/-- The texts by place, up to the last one. -/
def Arguments.places (a : Arguments) : List (Option String) :=
  (List.range (a.entries.foldr (fun e n => max (e.1 + 1) n) 0)).map a.get?

theorem Arguments.lt_of_lookup {entries : List (Nat × String)} {i : Nat} {s : String}
    (h : entries.lookup i = some s) : i < entries.foldr (fun e n => max (e.1 + 1) n) 0 := by
  induction entries with
  | nil => cases h
  | cons e entries ih =>
    rw [lookup_cons_ite] at h
    rw [List.foldr_cons]
    split at h
    · omega
    · have := ih h
      omega

theorem Arguments.getElem?_places (a : Arguments) (i : Nat) : a.places[i]?.join = a.get? i := by
  rw [places, List.getElem?_map]
  by_cases hi : i < a.entries.foldr (fun e n => max (e.1 + 1) n) 0
  · rw [List.getElem?_range hi]
    rfl
  · rw [List.getElem?_eq_none (by rw [List.length_range]; omega)]
    cases hg : a.get? i with
    | none => rfl
    | some s => exact absurd (lt_of_lookup hg) hi

/-! ## Resolving in one step -/

namespace Predicate

/-- The predicate with the values of texts by place, the first of them at place `k`. -/
def convertFrom (p : Predicate) (k : Nat) (raw : List (Option String)) : Predicate :=
  (raw.zipIdx k).foldl (fun p (s, i) => match s with
    | some s => p.convertArgument i s
    | none => p) p

theorem convertFrom_cons (text : Option String) (raw : List (Option String)) (k : Nat)
    {p : Predicate} (hlen : p.arguments.length = p.slots.length) :
    p.convertFrom k (text :: raw) = convertFrom { p with
      arguments := enteredAt p.slots (fun i => if i = k then text else none) p.arguments }
      (k + 1) raw := by
  cases text with
  | none =>
    simp only [ite_self, enteredAt_none hlen]
    rfl
  | some s =>
    rw [← storeArgument_eq hlen, ← convertArgument_eq]
    rfl

theorem convertFrom_eq (raw : List (Option String)) (k : Nat) {p : Predicate}
    (hlen : p.arguments.length = p.slots.length) :
    p.convertFrom k raw = { p with
      arguments := enteredAt p.slots (textFrom k raw) p.arguments } := by
  induction raw generalizing k p with
  | nil =>
    rw [textFrom_nil, enteredAt_none hlen]
    rfl
  | cons text raw ih =>
    rw [convertFrom_cons text raw k hlen, ih (k + 1) (length_enteredAt _)]
    show { p with arguments := enteredAt p.slots _ (enteredAt p.slots _ p.arguments) } = _
    rw [enteredAt_enteredAt]
    simp only [← textFrom_cons]

end Predicate

namespace Catalog

/-- Resolving in one step finds what resolving without arguments finds, and has in each slot the
value of the text for it, if there is one. -/
theorem resolve?_eq (c : Catalog) (scope : Scope) (field : String) (operation : Option String)
    (raw : List (Option String)) :
    c.resolve? scope field operation raw =
      (c.resolveField? scope field operation).map fun p =>
        { p with arguments := p.slots.mapIdx fun i slot => slot.valueOf? raw[i]?.join } := by
  cases hp : c.resolveField? scope field operation with
  | none => rw [resolve?, hp, Option.map_none, Option.map_none]
  | some p =>
    have ha : p.arguments = List.replicate p.slots.length none :=
      (resolveField?_eq_some_iff.1 hp).2.2
    have hlen : p.arguments.length = p.slots.length := by rw [ha, List.length_replicate]
    have hunset (i : Nat) : p.arguments[i]?.join = none := by
      rw [ha, List.getElem?_replicate]
      split <;> rfl
    have hconvert := Predicate.convertFrom_eq raw 0 hlen
    simp only [enteredAt_of_unset hunset, textFrom_zero] at hconvert
    rw [resolve?, hp, Option.map_some, Option.map_some, ← hconvert]
    rfl

variable {c : Catalog} {scope : Scope} {field : String} {operation : Option String}

/-- No operation has an empty key, so asking for one is asking for none. -/
theorem resolveField?_nonempty? :
    c.resolveField? scope field (nonempty? operation) = c.resolveField? scope field operation := by
  by_cases ho : operation = some ""
  · subst ho
    refine Option.bind_congr fun b hb => ?_
    have ht := c.wellFormed.valueTypes _ (declares_of_lookup? hb).valueType
    have hnone : b.valueType.operation? "" = none := by
      refine List.find?_eq_none.2 fun o hmem hkey => ?_
      have hid := ht.isIdentifier o hmem
      rw [of_decide_eq_true hkey] at hid
      exact absurd hid (by decide)
    rw [ValueType.operationOrFirst?, ValueType.operationOrFirst?, Option.bind_some, hnone]
    rfl
  · cases operation with
    | none => rfl
    | some o =>
      have hne : o ≠ "" := fun h => ho (h ▸ rfl)
      have hsome : nonempty? (some o) = some o := Option.filter_some_pos (decide_eq_true hne)
      rw [hsome]

end Catalog

end Segmentation

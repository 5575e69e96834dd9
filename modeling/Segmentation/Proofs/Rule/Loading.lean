import Segmentation.Proofs.Rule.Settled

/-!
# What loading leaves in the slots

A level is loaded by storing its texts one after the other. As it has at most one text for each
index, the order does not matter, and the outcome can be told slot by slot: the value of the text
for the slot, or nothing if the text has no value there; without a text, what was there before.
Main statement: `load_eq_withArguments`.
-/

namespace Segmentation

/-! ## Arguments -/

variable {slots : List Slot} {arguments : List (Option Value)}

/-- What is in a slot after texts are entered: the value of its text, or what was there. -/
def enteredArgument (slot : Slot) (text : Option String) (argument : Option Value) : Option Value :=
  match text with
  | some raw => (slot.convert raw).toOption
  | none => argument

/-- The arguments after the texts of a level are entered. -/
def enteredArguments (slots : List Slot) (texts : Arguments) (arguments : List (Option Value)) :
    List (Option Value) :=
  slots.mapIdx fun i slot => enteredArgument slot (texts.get? i) arguments[i]?.join

theorem getElem?_enteredArguments (texts : Arguments) (i : Nat) :
    (enteredArguments slots texts arguments)[i]? =
      slots[i]?.map fun slot => enteredArgument slot (texts.get? i) arguments[i]?.join := by
  rw [enteredArguments, List.getElem?_mapIdx]

theorem getElem?_foldl_storeArgument {entries : List (Nat × String)}
    (hasc : entries.Pairwise fun e f => e.1 < f.1) (hlen : arguments.length = slots.length)
    (i : Nat) :
    (entries.foldl (storeArgument slots) arguments)[i]? =
      slots[i]?.map fun slot => enteredArgument slot (entries.lookup i) arguments[i]?.join := by
  induction entries generalizing arguments with
  | nil =>
    show arguments[i]? = _
    cases hs : slots[i]? with
    | none =>
      have := List.getElem?_eq_none_iff.1 hs
      exact List.getElem?_eq_none_iff.2 (by omega)
    | some slot =>
      have hlt := (List.getElem?_eq_some_iff.1 hs).1
      rw [List.getElem?_eq_getElem (show i < arguments.length by omega)]
      rfl
  | cons e entries ih =>
    obtain ⟨j, raw⟩ := e
    obtain ⟨hfirst, hrest⟩ := List.pairwise_cons.1 hasc
    rw [List.foldl_cons, ih hrest ((length_storeArgument _).trans hlen),
      Arguments.lookup_cons_ite]
    cases hs : slots[i]? with
    | none => rfl
    | some slot =>
      by_cases hij : i = j
      · subst hij
        rw [if_pos rfl, Arguments.lookup_eq_none hfirst]
        exact congrArg some (storeArgument_self hlen hs raw)
      · rw [if_neg hij, storeArgument_of_ne (Ne.symm hij)]

theorem foldl_storeArgument (texts : Arguments) (hlen : arguments.length = slots.length) :
    texts.entries.foldl (storeArgument slots) arguments =
      enteredArguments slots texts arguments := by
  refine List.ext_getElem? fun i => ?_
  rw [getElem?_foldl_storeArgument texts.ascending hlen, getElem?_enteredArguments]
  rfl

/-! ## Nodes -/

namespace Node

variable {c : Catalog} {n : Node}

theorem foldl_store (n : Node) {arguments : List (Option Value)}
    (h : fit n.slots arguments = arguments) (entries : List (Nat × String)) :
    entries.foldl (fun n (i, raw) => n.store i raw) (n.withArguments arguments) =
      n.withArguments (entries.foldl (storeArgument n.slots) arguments) := by
  induction entries generalizing arguments with
  | nil => rfl
  | cons e entries ih =>
    show entries.foldl _ ((n.withArguments arguments).store e.1 e.2) = _
    rw [store_withArguments n h, ih (fit_storeArgument h e), List.foldl_cons]

/-- Loading resolves the node with the keys of the level and then enters the texts of the level. -/
theorem load_eq_withArguments (c : Catalog) (level : Level) (n : Node) :
    n.load c level = ((n.entered level).resolve c).withArguments
      (enteredArguments ((n.entered level).resolve c).slots level.arguments
        ((n.entered level).resolve c).arguments) := by
  rw [load_eq]
  generalize hm : (n.entered level).resolve c = m
  have hs : (m.resolve c).narrowedBy [] = m := settled_of_resolve (hm ▸ resolve_resolve c _)
  have hfit := fit_arguments hs
  have hlen := (fit_eq_self_iff.1 hfit).1
  rw [← foldl_storeArgument level.arguments hlen, ← foldl_store m hfit, withArguments_arguments hs]

end Node

end Segmentation

import Mathlib.Data.List.Nodup
import Segmentation.Form.Config

/-!
# Forms of configurations

A configuration is written as an object whose entries have different names: those of the texts that
are there, `child`, and one for each argument. As the names of arguments are read back to their
indices and no other name is taken for one, the order in which entries are read does not matter, and
the form holds the configuration it was written from. Main statements:

* `describes_entriesOf`: the entries of an object, all of them and each once;
* `Holds.levels?`: levels are read from every form that holds them, whatever the order of entries;
* `toForm_lossless`: the form of a configuration holds its levels and is read back to it.
-/

namespace Segmentation

/-- Where no key is used twice, a look-up finds what belongs to a key. -/
theorem lookup_eq_some_iff_mem {α β : Type} [BEq α] [LawfulBEq α] {xs : List (α × β)}
    (h : (xs.map Prod.fst).Nodup) {a : α} {b : β} : xs.lookup a = some b ↔ (a, b) ∈ xs := by
  rw [List.lookup_eq_some_iff]
  constructor
  · rintro ⟨before, after, rfl, -⟩
    exact List.mem_append_right _ List.mem_cons_self
  · intro hmem
    obtain ⟨before, after, rfl⟩ := List.append_of_mem hmem
    refine ⟨before, after, rfl, fun p hp => bne_iff_ne.2 fun ha => ?_⟩
    rw [List.map_append, List.nodup_append] at h
    exact h.2.2 p.1 (List.mem_map_of_mem hp) a (List.mem_map_of_mem List.mem_cons_self) ha.symm

/-! ## Arguments from entries -/

namespace Arguments

/-- The last entry for an index counts. -/
theorem get?_ofList (entries : List (Nat × String)) (i : Nat) :
    (ofList entries).get? i = entries.reverse.lookup i := by
  have hfold (a : Arguments) : (entries.foldl (fun a e => a.insert e.1 e.2) a).get? i =
      (entries.reverse.lookup i).or (a.get? i) := by
    induction entries generalizing a with
    | nil => rfl
    | cons e entries ih =>
      rw [List.foldl_cons, ih, get?_insert, List.reverse_cons, List.lookup_append, Option.or_assoc,
        lookup_cons_ite]
      split <;> rfl
  exact (hfold empty).trans (Option.or_none ..)

/-- The order in which arguments come does not matter if each comes once. -/
theorem ofList_of_perm {a : Arguments} {entries : List (Nat × String)}
    (h : entries.Perm a.entries) : ofList entries = a := by
  refine eq_of_get? fun i => Option.ext fun s => ?_
  have hperm : entries.reverse.Perm a.entries := entries.reverse_perm.trans h
  have hnodup : (entries.reverse.map Prod.fst).Nodup := (hperm.map _).nodup_iff.2 a.nodup_entries
  rw [get?_ofList, lookup_eq_some_iff_mem hnodup, hperm.mem_iff, get?,
    lookup_eq_some_iff_mem a.nodup_entries]

end Arguments

namespace Form

/-! ## Names of arguments -/

variable {i j : Nat} {name : String}

theorem toList_nameOfArgument (i : Nat) :
    (nameOfArgument i).toList = argumentName ++ Text.Numeral.ofNat i :=
  String.toList_ofList

theorem argumentIndex?_nameOfArgument (h : i < UInt64.size) :
    argumentIndex? (nameOfArgument i) = some i := by
  have hprefix : argumentName.isPrefixOf (argumentName ++ Text.Numeral.ofNat i) = true :=
    List.isPrefixOf_iff_prefix.2 (List.prefix_append ..)
  rw [argumentIndex?, toList_nameOfArgument, if_pos hprefix, List.drop_left,
    Text.Numeral.natural?_ofNat]
  exact Option.filter_some_pos (decide_eq_true h)

theorem nameOfArgument_injective (h : nameOfArgument i = nameOfArgument j) : i = j := by
  have hdigits := congrArg String.toList h
  rw [toList_nameOfArgument, toList_nameOfArgument, List.append_cancel_left_eq] at hdigits
  have hread := congrArg Text.Numeral.digits? hdigits
  rw [Text.Numeral.digits?_ofNat, Text.Numeral.digits?_ofNat] at hread
  exact Option.some.inj hread

/-- The names of the entries that are no arguments. -/
def fixedNames : List String :=
  ["child", "operator", "field", "operation", "condition"]

theorem argumentIndex?_of_fixed (h : name ∈ fixedNames) : argumentIndex? name = none := by
  simp only [fixedNames, List.mem_cons, List.not_mem_nil, or_false] at h
  rcases h with rfl | rfl | rfl | rfl | rfl <;> rfl

theorem nameOfArgument_not_fixed (i : Nat) : nameOfArgument i ∉ fixedNames := by
  intro h
  have hprefix : argumentName <+: (nameOfArgument i).toList := by
    rw [toList_nameOfArgument]
    exact List.prefix_append ..
  have hnone : ∀ name ∈ fixedNames, ¬ argumentName <+: name.toList := by decide
  exact hnone _ h hprefix

/-! ## Entries of objects -/

/-- The entries of an object are those of a level and its child, each under its name: the child and
the texts that are there, one for each argument, and no others. -/
structure Describes (entries : List (String × Form)) (l : Level) (child : Option Form) : Prop where
  nodup : (entries.map Prod.fst).Nodup
  mem_iff : ∀ name form, (name, form) ∈ entries ↔
    name = "child" ∧ form ∈ child ∨
    name = "operator" ∧ form ∈ l.operator.map text ∨
    name = "field" ∧ form ∈ l.field.map text ∨
    name = "operation" ∧ form ∈ l.operation.map text ∨
    name = "condition" ∧ form ∈ l.condition.map text ∨
    ∃ i s, l.arguments.get? i = some s ∧ name = nameOfArgument i ∧ form = text s

/-- An entry for a form that may be absent. -/
def formEntry (name : String) : Option Form → List (String × Form)
  | some form => [(name, form)]
  | none => []

/-- The entries of the object for a level with a child. -/
def entriesOf (l : Level) (child : Option Form) : List (String × Form) :=
  formEntry "child" child ++ levelEntries l

/-- The entries for the child and for the texts that are no arguments. -/
def fixedEntries (l : Level) (child : Option Form) : List (String × Form) :=
  formEntry "child" child ++ formEntry "operator" (l.operator.map text) ++
    formEntry "field" (l.field.map text) ++ formEntry "operation" (l.operation.map text) ++
    formEntry "condition" (l.condition.map text)

/-- The entries for the arguments. -/
def argumentEntries (l : Level) : List (String × Form) :=
  l.arguments.entries.map fun e => (nameOfArgument e.1, text e.2)

variable {l : Level} {child : Option Form} {e : String × Form}

theorem textEntry_eq (name : String) (s : Option String) :
    textEntry name s = formEntry name (s.map text) := by
  cases s <;> rfl

theorem entriesOf_eq (l : Level) (child : Option Form) :
    entriesOf l child = fixedEntries l child ++ argumentEntries l := by
  simp only [entriesOf, levelEntries, fixedEntries, textEntry_eq, List.append_assoc]
  rfl

theorem mem_formEntry {form : Option Form} :
    e ∈ formEntry name form ↔ e.1 = name ∧ e.2 ∈ form := by
  cases form <;> simp [formEntry, Prod.ext_iff, eq_comm]

theorem mem_argumentEntries : e ∈ argumentEntries l ↔
    ∃ i s, l.arguments.get? i = some s ∧ e.1 = nameOfArgument i ∧ e.2 = text s := by
  simp only [argumentEntries, List.mem_map, Prod.exists, Prod.ext_iff, Arguments.get?,
    eq_comm (a := e.1), eq_comm (a := e.2), lookup_eq_some_iff_mem l.arguments.nodup_entries]

theorem names_formEntry (name : String) (form : Option Form) :
    ((formEntry name form).map Prod.fst).Sublist [name] := by
  cases form <;> simp [formEntry]

theorem names_fixedEntries (l : Level) (child : Option Form) :
    ((fixedEntries l child).map Prod.fst).Sublist fixedNames := by
  simp only [fixedEntries, List.map_append]
  exact ((((names_formEntry "child" _).append (names_formEntry "operator" _)).append
    (names_formEntry "field" _)).append (names_formEntry "operation" _)).append
    (names_formEntry "condition" _)

theorem nodup_argumentEntries (l : Level) : ((argumentEntries l).map Prod.fst).Nodup := by
  rw [argumentEntries, List.map_map]
  exact List.pairwise_map.2
    (l.arguments.ascending.imp fun h heq => Nat.ne_of_lt h (nameOfArgument_injective heq))

theorem nodup_entriesOf (l : Level) (child : Option Form) :
    ((entriesOf l child).map Prod.fst).Nodup := by
  have hfixed := names_fixedEntries l child
  rw [entriesOf_eq, List.map_append, List.nodup_append]
  refine ⟨hfixed.nodup (by decide), nodup_argumentEntries l, fun name hname name' hname' heq => ?_⟩
  obtain ⟨e, he, rfl⟩ := List.mem_map.1 hname'
  obtain ⟨i, -, -, hi, -⟩ := mem_argumentEntries.1 he
  exact nameOfArgument_not_fixed i (hi ▸ heq ▸ hfixed.subset hname)

theorem describes_entriesOf (l : Level) (child : Option Form) :
    Describes (entriesOf l child) l child := by
  refine ⟨nodup_entriesOf l child, fun name form => ?_⟩
  simp only [entriesOf_eq, fixedEntries, List.mem_append, mem_formEntry, mem_argumentEntries,
    or_assoc]

/-! ## Reading -/

/-- Objects that describe the same have the same entries, in some order. -/
theorem Describes.perm {entries entries' : List (String × Form)} (h : Describes entries l child)
    (h' : Describes entries' l child) : entries.Perm entries' :=
  (List.perm_ext_iff_of_nodup h.nodup.of_map h'.nodup.of_map).2 fun e =>
    (h.mem_iff e.1 e.2).trans (h'.mem_iff e.1 e.2).symm

/-- What is found under the names that are no names of arguments. -/
theorem Describes.lookup {entries : List (String × Form)} (h : Describes entries l child) :
    entries.lookup "child" = child ∧
      entries.lookup "operator" = l.operator.map text ∧
      entries.lookup "field" = l.field.map text ∧
      entries.lookup "operation" = l.operation.map text ∧
      entries.lookup "condition" = l.condition.map text := by
  have hfixed (name : String) (hname : name ∈ fixedNames) (i : Nat) : name ≠ nameOfArgument i :=
    fun heq => nameOfArgument_not_fixed i (heq ▸ hname)
  have hfound {name : String} {o : Option Form} (ho : ∀ form, (name, form) ∈ entries ↔ form ∈ o) :
      entries.lookup name = o :=
    Option.ext fun form => (lookup_eq_some_iff_mem h.nodup).trans (ho form)
  refine ⟨hfound fun form => ?_, hfound fun form => ?_, hfound fun form => ?_,
    hfound fun form => ?_, hfound fun form => ?_⟩
  · rw [h.mem_iff]
    simp [hfixed "child" (by decide)]
  · rw [h.mem_iff]
    simp [hfixed "operator" (by decide)]
  · rw [h.mem_iff]
    simp [hfixed "field" (by decide)]
  · rw [h.mem_iff]
    simp [hfixed "operation" (by decide)]
  · rw [h.mem_iff]
    simp [hfixed "condition" (by decide)]

theorem text?_of_lookup {entries : List (String × Form)} {s : Option String}
    (h : entries.lookup name = s.map text) : text? entries name = some s := by
  rw [text?, h]
  cases s <;> rfl

theorem childLevels?_eq (entries : List (String × Form)) : childLevels? entries =
    match entries.lookup "child" with
    | none | some null => some []
    | some form => form.levels?.map fun (head, tail) => head :: tail := by
  induction entries with
  | nil => rfl
  | cons e entries ih =>
    obtain ⟨name, form⟩ := e
    by_cases hname : name = "child"
    · subst hname
      cases form <;> rfl
    · have hlookup : ((name, form) :: entries).lookup "child" = entries.lookup "child" := by
        rw [List.lookup_cons, beq_false_of_ne (Ne.symm hname)]
      rw [hlookup, ← ih]
      exact (childLevels?.eq_def _).trans (if_neg hname)

/-- The argument that an entry holds. -/
def heldArgument? (e : String × Form) : Option (Nat × String) :=
  (argumentIndex? e.1).bind fun i => e.2.argument?.map fun s => (i, s)

theorem arguments_eq (entries : List (String × Form)) : arguments entries =
    .ofList ((Text.sortBy Prod.fst entries).filterMap heldArgument?) := rfl

/-- The entries that hold arguments are those that were written for arguments. -/
theorem filterMap_heldArgument? (child : Option Form)
    (h : ∀ e ∈ l.arguments.entries, e.1 < UInt64.size) :
    (entriesOf l child).filterMap heldArgument? = l.arguments.entries := by
  have hfixed : (fixedEntries l child).filterMap heldArgument? = [] := by
    refine List.filterMap_eq_nil_iff.2 fun e he => ?_
    have hname : e.1 ∈ fixedNames := (names_fixedEntries l child).subset (List.mem_map_of_mem he)
    rw [heldArgument?, argumentIndex?_of_fixed hname]
    rfl
  rw [entriesOf_eq, List.filterMap_append, hfixed, List.nil_append, argumentEntries,
    List.filterMap_map]
  calc l.arguments.entries.filterMap _
    _ = l.arguments.entries.filterMap some := by
      refine List.filterMap_congr fun e he => ?_
      show (argumentIndex? (nameOfArgument e.1)).bind _ = _
      rw [argumentIndex?_nameOfArgument (h e he)]
      rfl
    _ = l.arguments.entries := List.filterMap_some

theorem Describes.level? {entries : List (String × Form)} (h : Describes entries l child)
    (hl : ∀ e ∈ l.arguments.entries, e.1 < UInt64.size) : level? entries = some l := by
  obtain ⟨-, hoperator, hfield, hoperation, hcondition⟩ := h.lookup
  have harguments : arguments entries = l.arguments := by
    have hperm : (Text.sortBy Prod.fst entries).Perm (entriesOf l child) :=
      (Text.sortBy_perm Prod.fst entries).trans (h.perm (describes_entriesOf l child))
    rw [arguments_eq]
    refine Arguments.ofList_of_perm ?_
    rw [← filterMap_heldArgument? child hl]
    exact hperm.filterMap _
  simp only [Form.level?, text?_of_lookup hoperator, text?_of_lookup hfield,
    text?_of_lookup hoperation, text?_of_lookup hcondition, harguments]
  rfl

/-! ## Levels -/

/-- A form is an object for a level, with the object for the levels below it as its child. -/
inductive Holds : Form → Level → List Level → Prop
  | last {entries : List (String × Form)} {l : Level} (h : Describes entries l none) :
      Holds (object entries) l []
  | parent {entries : List (String × Form)} {l level : Level} {levels : List Level} {child : Form}
      (h : Describes entries l (some child)) (hchild : Holds child level levels) :
      Holds (object entries) l (level :: levels)

theorem holds_ofLevels (head : Level) (tail : List Level) :
    Holds (ofLevels head tail) head tail := by
  induction tail generalizing head with
  | nil => exact .last (describes_entriesOf head none)
  | cons level levels ih =>
    exact .parent (describes_entriesOf head (some (ofLevels level levels))) (ih level)

/-- Levels are read from every form that holds them. -/
theorem Holds.levels? {form : Form} {head : Level} {tail : List Level} (h : Holds form head tail)
    (hrange : ∀ l ∈ head :: tail, ∀ e ∈ l.arguments.entries, e.1 < UInt64.size) :
    form.levels? = some (head, tail) := by
  induction h with
  | last h =>
    rw [Form.levels?, h.level? (hrange _ List.mem_cons_self), Option.bind_some, childLevels?_eq,
      h.lookup.1]
    rfl
  | parent h hchild ih =>
    obtain ⟨hhead, htail⟩ := List.forall_mem_cons.1 hrange
    rw [Form.levels?, h.level? hhead, Option.bind_some, childLevels?_eq, h.lookup.1]
    cases hchild with
    | last => simp only [ih htail, Option.map_some]
    | parent => simp only [ih htail, Option.map_some]

end Form

namespace Config

/-- The form of a configuration holds its levels, and it is read from every form that does. -/
theorem toForm_lossless (c : Config)
    (h : ∀ l ∈ c.levels, ∀ e ∈ l.arguments.entries, e.1 < UInt64.size) :
    c.toForm.Holds c.head c.tail ∧
      ofForm? c.toForm = some c ∧
      ∀ form : Form, form.Holds c.head c.tail → ofForm? form = some c := by
  have hholds : c.toForm.Holds c.head c.tail := Form.holds_ofLevels c.head c.tail
  have hread (form : Form) (hform : form.Holds c.head c.tail) : ofForm? form = some c := by
    rw [ofForm?, hform.levels? h]
    rfl
  exact ⟨hholds, hread _ hholds, hread⟩

/-- A configuration with arguments whose names are not in the order of their indices, and with a
condition that means nothing. -/
def unordered : Config where
  head :=
    { operator := some ""
      field := some "argument1"
      condition := some "xor"
      arguments := .ofList [(10, "null"), (18446744073709551615, ""), (2, "12.5")] }
  tail := [
    { operation := some "equals", condition := some "and" },
    { arguments := .ofList [(0, "child")] }]

theorem toForm_lossless_unordered :
    (∀ l ∈ unordered.levels, ∀ e ∈ l.arguments.entries, e.1 < UInt64.size) ∧
      unordered.toForm = .object [
        ("child", .object [
          ("child", .object [("argument0", .text "child")]),
          ("operation", .text "equals"),
          ("condition", .text "and")]),
        ("operator", .text ""),
        ("field", .text "argument1"),
        ("condition", .text "xor"),
        ("argument2", .text "12.5"),
        ("argument10", .text "null"),
        ("argument18446744073709551615", .text "")] ∧
      ofForm? unordered.toForm = some unordered := by
  have h : ∀ l ∈ unordered.levels, ∀ e ∈ l.arguments.entries, e.1 < UInt64.size := by decide
  exact ⟨h, by rfl, (toForm_lossless unordered h).2.1⟩

end Config

end Segmentation

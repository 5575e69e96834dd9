import Segmentation.Condition

/-!
# Configurations of rules

A configuration is what a user enters for a chain of rules, before anything in it is checked: for
each level the texts for operator, field, operation, condition and arguments. The level after a
level is its child.

Arguments are kept by index in ascending order, one for each index. Main statements: `get?_insert`,
an inserted text is found at its index and changes no other; `eq_of_get?`, arguments are the same if
all their texts are.
-/

namespace Segmentation

/-- The entries with one more text, in place of the text at the same index if there is one. -/
def insertEntry (i : Nat) (s : String) : List (Nat × String) → List (Nat × String)
  | [] => [(i, s)]
  | (j, t) :: entries =>
    if i < j then (i, s) :: (j, t) :: entries
    else if i = j then (i, s) :: entries
    else (j, t) :: insertEntry i s entries

theorem mem_insertEntry {i : Nat} {s : String} {entries : List (Nat × String)} {e : Nat × String}
    (h : e ∈ insertEntry i s entries) : e = (i, s) ∨ e ∈ entries := by
  induction entries with
  | nil => exact .inl (List.mem_singleton.1 h)
  | cons f entries ih =>
    rw [insertEntry] at h
    split at h
    · exact List.mem_cons.1 h
    · split at h
      · exact (List.mem_cons.1 h).imp_right (List.mem_cons_of_mem _)
      · rcases List.mem_cons.1 h with rfl | h
        · exact .inr List.mem_cons_self
        · exact (ih h).imp_right (List.mem_cons_of_mem _)

theorem pairwise_insertEntry {i : Nat} {s : String} {entries : List (Nat × String)}
    (h : entries.Pairwise fun e f => e.1 < f.1) :
    (insertEntry i s entries).Pairwise fun e f => e.1 < f.1 := by
  induction entries with
  | nil => exact List.pairwise_singleton _ _
  | cons f entries ih =>
    obtain ⟨hf, hp⟩ := List.pairwise_cons.1 h
    rw [insertEntry]
    split
    · rename_i hi
      refine List.pairwise_cons.2 ⟨fun e he => ?_, h⟩
      rcases List.mem_cons.1 he with rfl | he
      · exact hi
      · exact Nat.lt_trans hi (hf e he)
    · split
      · rename_i hi
        exact List.pairwise_cons.2 ⟨fun e he => hi ▸ hf e he, hp⟩
      · refine List.pairwise_cons.2 ⟨fun e he => ?_, ih hp⟩
        rcases mem_insertEntry he with rfl | he
        · show f.1 < i
          omega
        · exact hf e he

/-- Texts for the arguments of an operation, by index. -/
structure Arguments where
  entries : List (Nat × String) := []
  ascending : entries.Pairwise fun e f => e.1 < f.1 := by exact List.Pairwise.nil
  deriving DecidableEq, Repr

namespace Arguments

/-- No texts. -/
def empty : Arguments :=
  {}

/-- The text at an index. -/
def get? (a : Arguments) (i : Nat) : Option String :=
  a.entries.lookup i

/-- The arguments with a text at an index. -/
def insert (a : Arguments) (i : Nat) (s : String) : Arguments :=
  ⟨insertEntry i s a.entries, pairwise_insertEntry a.ascending⟩

/-- The arguments of a list of entries, the last of which counts for each index. -/
def ofList (entries : List (Nat × String)) : Arguments :=
  entries.foldl (fun a (i, s) => a.insert i s) empty

theorem nodup_entries (a : Arguments) : (a.entries.map Prod.fst).Nodup :=
  List.pairwise_map.2 (a.ascending.imp fun h => Nat.ne_of_lt h)

theorem lookup_cons_ite (e : Nat × String) (entries : List (Nat × String)) (j : Nat) :
    (e :: entries).lookup j = if j = e.1 then some e.2 else entries.lookup j := by
  rw [List.lookup_cons]
  by_cases h : j = e.1
  · rw [if_pos h, beq_iff_eq.2 h]
  · rw [if_neg h, beq_eq_false_iff_ne.2 h]

theorem lookup_insertEntry (i j : Nat) (s : String) (entries : List (Nat × String)) :
    (insertEntry i s entries).lookup j = if j = i then some s else entries.lookup j := by
  induction entries with
  | nil => exact lookup_cons_ite (i, s) [] j
  | cons e entries ih =>
    rw [insertEntry]
    split
    · exact lookup_cons_ite (i, s) _ j
    · split
      · rename_i hi
        rw [lookup_cons_ite, lookup_cons_ite e, hi]
        split <;> rfl
      · rw [lookup_cons_ite, lookup_cons_ite e, ih]
        by_cases h : j = e.1
        · rw [if_pos h, if_pos h, if_neg (by omega)]
        · rw [if_neg h, if_neg h]

theorem get?_insert (a : Arguments) (i j : Nat) (s : String) :
    (a.insert i s).get? j = if j = i then some s else a.get? j :=
  lookup_insertEntry i j s a.entries

/-- Below the first index there are no texts. -/
theorem lookup_eq_none {entries : List (Nat × String)} {i : Nat}
    (h : ∀ e ∈ entries, i < e.1) : entries.lookup i = none := by
  induction entries with
  | nil => rfl
  | cons e entries ih =>
    have he := h e List.mem_cons_self
    rw [lookup_cons_ite, if_neg (show ¬ i = e.1 by omega)]
    exact ih fun f hf => h f (List.mem_cons_of_mem _ hf)

/-- Entries in ascending order of their indices are told apart by looking up. -/
theorem eq_of_lookup {xs ys : List (Nat × String)} (hx : xs.Pairwise fun e f => e.1 < f.1)
    (hy : ys.Pairwise fun e f => e.1 < f.1) (h : ∀ i, xs.lookup i = ys.lookup i) : xs = ys := by
  induction xs generalizing ys with
  | nil =>
    cases ys with
    | nil => rfl
    | cons f ys =>
      have hf := h f.1
      rw [lookup_cons_ite, if_pos rfl] at hf
      cases hf
  | cons e xs ih =>
    obtain ⟨hex, hx⟩ := List.pairwise_cons.1 hx
    have he := h e.1
    rw [lookup_cons_ite, if_pos rfl] at he
    cases ys with
    | nil => cases he
    | cons f ys =>
      obtain ⟨hfy, hy⟩ := List.pairwise_cons.1 hy
      have hf := h f.1
      rw [lookup_cons_ite f, if_pos rfl] at hf
      have hkey : e.1 = f.1 := by
        rcases Nat.lt_trichotomy e.1 f.1 with hlt | heq | hgt
        · rw [lookup_cons_ite, if_neg (by omega),
            lookup_eq_none fun g hg => Nat.lt_trans hlt (hfy g hg)] at he
          cases he
        · exact heq
        · rw [lookup_cons_ite, if_neg (by omega),
            lookup_eq_none fun g hg => Nat.lt_trans hgt (hex g hg)] at hf
          cases hf
      have htext : e.2 = f.2 := by
        rw [lookup_cons_ite, if_pos hkey] at he
        exact Option.some.inj he
      have hrest : xs = ys := by
        refine ih hx hy fun i => ?_
        by_cases hi : i = e.1
        · subst hi
          rw [lookup_eq_none hex, lookup_eq_none (hkey ▸ hfy)]
        · have := h i
          rwa [lookup_cons_ite, lookup_cons_ite f, if_neg hi, if_neg (hkey ▸ hi)] at this
      rw [hrest, Prod.ext hkey htext]

theorem eq_of_get? {a b : Arguments} (h : ∀ i, a.get? i = b.get? i) : a = b := by
  obtain ⟨xs, hx⟩ := a
  obtain ⟨ys, hy⟩ := b
  obtain rfl : xs = ys := eq_of_lookup hx hy h
  rfl

end Arguments

/-- What a user enters for one rule of a chain. -/
structure Level where
  operator : Option String := none
  field : Option String := none
  operation : Option String := none
  condition : Option String := none
  arguments : Arguments := .empty
  deriving DecidableEq, Repr

/-- Whether the operator asks for the negation of the rule. -/
def Level.isNegated (l : Level) : Bool :=
  match l.operator with
  | some s => Text.caselessEq (Text.trim s) "not"
  | none => false

/-- What a user enters for a chain of rules, outermost first. -/
structure Config where
  head : Level := {}
  tail : List Level := []
  deriving DecidableEq, Repr

namespace Config

/-- Labels and words of the operators, as offered to a user. -/
def operatorOptions : List (String × String) :=
  [("Not", "not"), ("", "")]

/-- All levels, outermost first. -/
def levels (c : Config) : List Level :=
  c.head :: c.tail

/-- The configuration of the child. -/
def child? (c : Config) : Option Config :=
  match c.tail with
  | [] => none
  | level :: levels => some ⟨level, levels⟩

/-- The configuration with another child, or without one. -/
def withChild (c : Config) (child : Option Config) : Config :=
  { c with tail := match child with
      | some d => d.levels
      | none => [] }

/-- The configuration for a field. -/
def withField (c : Config) (field : String) : Config :=
  { c with head.field := some field }

/-- The configuration with an operation. -/
def withOperation (c : Config) (operation : String) : Config :=
  { c with head.operation := some operation }

/-- The configuration with an argument. -/
def withArgument (c : Config) (i : Nat) (s : String) : Config :=
  { c with head.arguments := c.head.arguments.insert i s }

/-- The configuration of the negated rule. -/
def negate (c : Config) : Config :=
  { c with head.operator := some "not" }

/-- The configuration of a rule that goes on with a child, or that stops. -/
def chain (c : Config) (condition : Condition) (child : Config) : Config :=
  match condition with
  | .none => { c with head.condition := none }.withChild none
  | condition => { c with head.condition := some condition.word }.withChild (some child)

end Config

end Segmentation

import Segmentation.Rule.Reading
import Segmentation.Catalog.Stock
import Segmentation.Proofs.Expr.Meaning
import Segmentation.Proofs.Rule.Settled
import Segmentation.Proofs.Value.Written

/-!
# The expression of a rule

The text of a valid rule is the text of an expression of the grammar: one segment for each node,
with its resolution as field and operation, one argument for each slot, and the connectors of the
conditions between the nodes. So it reads as the configuration that has the levels of the nodes.

Main statements:

* `chainChars_eq`, `wellFormed_expression`: the expression of a rule;
* `parse_text_of_settled`: the text of a valid rule means the configuration of the rule;
* `reads_back`: level by level, the text of a reachable rule says what the rule has.
-/

namespace Segmentation

open Segmentation.Expr (Argument Connector Segment Expression optionalText moreText tailText configFrom)

/-! ## Predicates as segments -/

namespace Predicate

/-- The segment of a predicate: the first argument, and each other one behind a comma and a
blank. -/
def written (negated : Bool) (p : Predicate) : Segment where
  negated
  field := p.field.key.toList
  operation := p.operation.key.toList
  first := p.arguments.head?.join.map Value.written
  more := p.arguments.tail.map fun a => ([' '], a.map Value.written)

theorem optionalText_written (a : Option Value) :
    optionalText (a.map Value.written) = argumentChars a := by
  cases a with
  | none => rfl
  | some v => exact v.text_written

theorem intercalate_argumentChars (arguments : List (Option Value)) :
    [',', ' '].intercalate (arguments.map argumentChars) =
      optionalText (arguments.head?.join.map Value.written) ++
        moreText (arguments.tail.map fun a => ([' '], a.map Value.written)) := by
  cases arguments with
  | nil => rfl
  | cons a rest =>
    show _ = optionalText (a.map Value.written) ++ _
    rw [optionalText_written]
    induction rest generalizing a with
    | nil => exact List.intercalate_singleton.trans (List.append_nil _).symm
    | cons b rest ih =>
      rw [List.map_cons, List.map_cons, List.intercalate_cons_cons, ← List.map_cons, ih b]
      simp [moreText, optionalText_written]

theorem text_written (negated : Bool) (p : Predicate) :
    (p.written negated).text = (if negated then ['n', 'o', 't', ' '] else []) ++ p.chars := by
  rw [chars, intercalate_argumentChars]
  show _ ++ (p.field.key.toList ++ ':' :: (p.operation.key.toList ++
    '(' :: (optionalText _ ++ (moreText _ ++ [')'])))) = _
  rw [← List.append_assoc (optionalText _)]
  rfl

/-- What is written at a place is the argument there. -/
theorem places_written (negated : Bool) (p : Predicate) (i : Nat) :
    (p.written negated).places[i]?.join = (p.argument? i).map Value.written := by
  unfold Segment.places written argument?
  cases p.arguments with
  | nil => cases i <;> rfl
  | cons a rest =>
    cases i with
    | zero => rfl
    | succ i =>
      simp only [List.tail_cons, List.map_map, List.getElem?_cons_succ, List.getElem?_map]
      cases rest[i]? <;> rfl

variable {c : Catalog} {scope : Scope} {field : String} {operation : Option String} {p : Predicate}

/-- Keys that were found in a catalog are identifiers. -/
theorem isIdentifier_of_resolveField? (h : c.resolveField? scope field operation = some p) :
    Text.isIdentifier p.field.key = true ∧ Text.isIdentifier p.operation.key = true := by
  have hd := Catalog.declares_of_resolveField? h
  have ht := c.wellFormed.valueTypes _ hd.valueType
  exact ⟨(c.wellFormed.handlers _ hd.handler).isIdentifier _ hd.field,
    ht.isIdentifier _ (Catalog.operation_mem_of_resolveField? h)⟩

theorem wellFormed_written (negated : Bool)
    (h : Text.isIdentifier p.field.key = true ∧ Text.isIdentifier p.operation.key = true) :
    (p.written negated).WellFormed := by
  have hwritten (a : Option Value) : ∀ b ∈ a.map Value.written, b.WellFormed := by
    intro b hb
    obtain ⟨v, -, rfl⟩ := Option.map_eq_some_iff.1 hb
    exact v.wellFormed_written
  refine ⟨?_, ?_, ?_, ?_, ?_⟩
  · show Text.isIdentifier (String.ofList p.field.key.toList) = true
    rw [String.ofList_toList, h.1]
  · show Text.isIdentifier (String.ofList p.operation.key.toList) = true
    rw [String.ofList_toList, h.2]
  · exact hwritten _
  · intro q hq d hd
    obtain ⟨a, -, rfl⟩ := List.mem_map.1 hq
    rw [List.mem_singleton.1 hd]
    decide
  · intro q hq
    obtain ⟨a, -, rfl⟩ := List.mem_map.1 hq
    exact hwritten a

end Predicate

/-! ## Chains as expressions -/

/-- The connector that is written for a condition. -/
def Condition.joint? : Condition → Option Connector
  | none => .none
  | and => some .point
  | or => some .plus
  | beside => some .lineFeed

theorem Condition.joint?_eq_some {condition : Condition} (h : condition ≠ .none) :
    ∃ k, condition.joint? = some k ∧ condition.connector? = some k.text ∧
      k.condition = condition := by
  cases condition with
  | none => exact absurd rfl h
  | and => exact ⟨.point, rfl, rfl, rfl⟩
  | or => exact ⟨.plus, rfl, rfl, rfl⟩
  | beside => exact ⟨.lineFeed, rfl, rfl, rfl⟩

namespace Node

variable {c : Catalog} {n : Node} {rest : List Node}

/-- The segment of a node. -/
def written (n : Node) : Segment :=
  match n.resolution with
  | some r => r.written n.negate
  | none => { negated := n.negate, field := [], operation := [], first := none, more := [] }

/-- The segments of the nodes below a node, each with the connector in front of it. -/
def joined (n : Node) : List Node → List (Connector × Segment)
  | [] => []
  | child :: rest =>
    match n.condition.joint? with
    | some k => (k, child.written) :: child.joined rest
    | none => []

theorem written_of_some {r : Resolution} (h : n.resolution = some r) :
    n.written = r.written n.negate := by
  simp only [written, h]

theorem text_written (h : n.resolution.isSome = true) : n.written.text = n.segment := by
  obtain ⟨r, hr⟩ := Option.isSome_iff_exists.1 h
  rw [written_of_some hr, Predicate.text_written]
  simp only [segment, hr]

theorem joined_cons (child : Node) (rest : List Node) (h : n.condition ≠ .none) :
    ∃ k, n.joined (child :: rest) = (k, child.written) :: child.joined rest ∧
      n.condition.connector? = some k.text ∧ k.condition = n.condition := by
  obtain ⟨k, hk, htext, hcond⟩ := Condition.joint?_eq_some h
  exact ⟨k, by simp only [joined, hk], htext, hcond⟩

/-- A chain is valid just if all its nodes are resolved. -/
theorem isValid_iff_of_follows (h : n.Follows c rest) :
    n.isValid rest = true ↔ ∀ m ∈ n :: rest, m.resolution.isSome = true := by
  induction rest generalizing n with
  | nil =>
    have hc : n.condition = .none := h
    simp [isValid, hc]
  | cons child rest ih =>
    obtain ⟨hc, -, -, hrest⟩ := h
    simp [isValid, hc, ih hrest]

theorem chainChars_eq (h : n.Follows c rest) (hv : ∀ m ∈ n :: rest, m.resolution.isSome = true) :
    n.chainChars rest = n.written.text ++ tailText (n.joined rest) := by
  induction rest generalizing n with
  | nil =>
    have hc : n.condition = .none := h
    simp [chainChars, hc, Condition.connector?, joined, tailText, text_written (hv n (by simp))]
  | cons child rest ih =>
    obtain ⟨hc, -, -, hrest⟩ := h
    obtain ⟨k, hk, htext, -⟩ := joined_cons child rest hc
    have hchild := ih hrest fun m hm => hv m (List.mem_cons_of_mem _ hm)
    simp only [chainChars, htext]
    rw [hchild, hk, Expr.tailText_cons, text_written (hv n List.mem_cons_self)]

theorem isIdentifier_of_settled (hn : (n.resolve c).narrowedBy rest = n) {r : Resolution}
    (hr : n.resolution = some r) :
    Text.isIdentifier r.field.key = true ∧ Text.isIdentifier r.operation.key = true := by
  obtain ⟨p, hf, hbinding, hoperation, -, -⟩ := resolution_of_settled hn hr
  obtain ⟨field, -, hp⟩ := Option.bind_eq_some_iff.1 hf
  rw [hbinding, hoperation]
  exact Predicate.isIdentifier_of_resolveField? hp

theorem wellFormed_written_of_settled (hn : (n.resolve c).narrowedBy rest = n)
    (hv : n.resolution.isSome = true) : n.written.WellFormed := by
  obtain ⟨r, hr⟩ := Option.isSome_iff_exists.1 hv
  rw [written_of_some hr]
  exact Predicate.wellFormed_written _ (isIdentifier_of_settled hn hr)

theorem wellFormed_joined (h : n.Follows c rest) (hv : ∀ m ∈ rest, m.resolution.isSome = true) :
    ∀ p ∈ n.joined rest, p.2.WellFormed := by
  induction rest generalizing n with
  | nil =>
    intro p hp
    cases hp
  | cons child rest ih =>
    obtain ⟨hc, -, hchild, hrest⟩ := h
    obtain ⟨k, hk, -⟩ := joined_cons child rest hc
    rw [hk]
    intro p hp
    rcases List.mem_cons.1 hp with rfl | hp
    · exact wellFormed_written_of_settled hchild (hv child List.mem_cons_self)
    · exact ih hrest (fun m hm => hv m (List.mem_cons_of_mem _ hm)) p hp

/-! ## Levels of nodes -/

/-- The level that a node is read as. -/
def level (n : Node) : Level :=
  { n.written.level with
    condition := if n.condition = .none then none else some n.condition.word }

theorem levels_joined (h : n.Follows c rest) :
    (configFrom n.written (n.joined rest)).levels = (n :: rest).map level := by
  induction rest generalizing n with
  | nil =>
    have hc : n.condition = .none := h
    simp only [List.map_cons, List.map_nil, level, if_pos hc]
    rfl
  | cons child rest ih =>
    obtain ⟨hc, -, -, hrest⟩ := h
    obtain ⟨k, hk, -, hcond⟩ := joined_cons child rest hc
    have hlevel : n.level = { n.written.level with condition := some k.condition.word } := by
      rw [level, if_neg hc, hcond]
    rw [hk, Expr.levels_configFrom_cons, ih hrest, List.map_cons (l := child :: rest), hlevel]

theorem get?_level {r : Resolution} (hr : n.resolution = some r) (i : Nat) :
    n.level.arguments.get? i = (r.argument? i).map Value.raw := by
  show n.written.arguments.get? i = _
  rw [Expr.get?_arguments, written_of_some hr, Predicate.places_written]
  cases r.argument? i with
  | none => rfl
  | some v => simp [Expr.optionalValue, v.value_written]

/-- A level, and the next one if there is one, say of a node what the node has. -/
structure ReadsAs (n : Node) (level : Level) (next : Option Level) : Prop where
  operator : level.operator = if n.negate then some "not" else none
  resolved : ∃ r, n.resolution = some r ∧ level.field = some r.field.key ∧
    level.operation = some r.operation.key
  /-- The set slots have texts, and no other index has one. -/
  arguments : ∀ i, level.arguments.get? i = (n.argument? i).map Value.raw
  condition : level.condition = if n.condition = .none then none else some n.condition.word
  next_isSome_iff : next.isSome = true ↔ n.condition ≠ .none

theorem readsAs_level (hn : (n.resolve c).narrowedBy rest = n) (hv : n.resolution.isSome = true)
    (h : n.Follows c rest) : n.ReadsAs n.level (rest.head?.map level) := by
  obtain ⟨r, hr⟩ := Option.isSome_iff_exists.1 hv
  obtain ⟨p, -, -, -, harguments, -⟩ := resolution_of_settled hn hr
  have hw := written_of_some hr
  refine ⟨?_, ⟨r, hr, ?_, ?_⟩, fun i => ?_, rfl, ?_⟩
  · show (if n.written.negated then some "not" else none) = _
    rw [hw]
    rfl
  · show some (String.ofList n.written.field) = _
    rw [hw]
    exact congrArg some String.ofList_toList
  · show some (String.ofList n.written.operation) = _
    rw [hw]
    exact congrArg some String.ofList_toList
  · rw [get?_level hr, Predicate.argument?, harguments]
    rfl
  · rw [Option.isSome_map]
    exact isSome_head?_of_follows h

end Node

/-! ## Rules -/

namespace Rule

variable {c : Catalog} {r : Rule}

/-- The expression of a rule. -/
def expression (r : Rule) : Expression :=
  ⟨r.root.written, r.root.joined r.rest⟩

/-- The configuration that the text of a rule stands for. -/
def config (r : Rule) : Config :=
  ⟨r.root.level, r.rest.map Node.level⟩

theorem isValid_iff (h : r.Settled c) :
    r.isValid = true ↔ ∀ n ∈ r.nodes, n.resolution.isSome = true :=
  Node.isValid_iff_of_follows h.follows

theorem wellFormed_expression (h : r.Settled c) (hv : r.isValid = true) :
    r.expression.WellFormed := by
  have hall := (isValid_iff h).1 hv
  exact ⟨Node.wellFormed_written_of_settled h.root (hall _ List.mem_cons_self),
    Node.wellFormed_joined h.follows fun m hm => hall m (List.mem_cons_of_mem _ hm)⟩

theorem text_eq_expression (h : r.Settled c) (hv : r.isValid = true) :
    r.text = String.ofList r.expression.text := by
  rw [text, chars, if_pos hv, Node.chainChars_eq h.follows ((isValid_iff h).1 hv)]
  rfl

theorem config_expression (h : r.Settled c) : r.expression.config = r.config := by
  have hl : r.expression.config.levels = r.config.levels := Node.levels_joined h.follows
  obtain ⟨hhead, htail⟩ := List.cons.inj hl
  rw [Config.mk.injEq]
  exact ⟨hhead, htail⟩

/-- The text of a valid rule means the configuration of the rule. -/
theorem parse_text_of_settled (h : r.Settled c) (hv : r.isValid = true) :
    Expr.parse r.text = .ok r.config := by
  rw [text_eq_expression h hv, Expr.parse_text (wellFormed_expression h hv), config_expression h]

/-- The text of a valid rule parses, whatever was built and edited before, and its levels say of
the nodes what they have. -/
theorem reads_back (h : Reachable c r) (hv : r.faults = []) :
    ∃ config, Expr.parse r.text = .ok config ∧ config.levels.length = r.nodes.length ∧
      ∀ (k : Nat) (n : Node) (level : Level), r.nodes[k]? = some n →
        config.levels[k]? = some level → n.ReadsAs level config.levels[k + 1]? := by
  have hs := h.settled
  have hvalid := (faults_eq_nil_iff r).1 hv
  refine ⟨r.config, parse_text_of_settled hs hvalid, ?_, fun k n level hk hl => ?_⟩
  · show (r.nodes.map Node.level).length = _
    rw [List.length_map]
  · have hall := (isValid_iff hs).1 hvalid
    obtain ⟨hn, hrest⟩ := Node.settled_getElem? hs.root hs.follows hk
    have hread := Node.readsAs_level hn (hall n (List.mem_of_getElem? hk)) hrest
    have hlevels (j : Nat) : r.config.levels[j]? = r.nodes[j]?.map Node.level := by
      show (r.nodes.map Node.level)[j]? = _
      rw [List.getElem?_map]
    rw [List.head?_drop] at hread
    rw [hlevels, hk] at hl
    rw [hlevels, ← Option.some.inj hl]
    exact hread

/-- A rule with a text that needs escapes, and with an empty slot. -/
def quoted : Rule :=
  ({} : Rule).build Stock.catalog
    { head :=
        { operator := some "not"
          field := some "country"
          operation := some "equals"
          condition := some "and"
          arguments := .ofList [(0, "St. \"X\"")] }
      tail := [{ field := some "city", operation := some "starts_with" }] }

theorem quoted_reads_back :
    Reachable Stock.catalog quoted ∧ quoted.faults = [] ∧
      quoted.text = "not country:equals(\"St\\x2e \\\"X\\\"\").city:starts_with()" ∧
      ∃ config, Expr.parse quoted.text = .ok config ∧
        config.levels.length = quoted.nodes.length ∧
        ∀ (k : Nat) (n : Node) (level : Level), quoted.nodes[k]? = some n →
          config.levels[k]? = some level → n.ReadsAs level config.levels[k + 1]? := by
  have h : Reachable Stock.catalog quoted := .build _ .empty
  have hv : quoted.faults = [] := by decide +kernel
  exact ⟨h, hv, by decide +kernel, reads_back h hv⟩

end Rule

end Segmentation

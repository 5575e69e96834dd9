import Segmentation.Proofs.Rule.Connectors

/-!
# Validity, faults and text

Three recursions go down a rule: one decides whether it is valid, one lists what is wrong with it and
one writes its text. In rules that users meet they agree, for the whole rule and from each node on:
they all ask whether every node is resolved. Main statements:

* `faults_of_follows`: the faults tell where a node without a resolution is;
* `text_of_isValid`: the text of a valid rule is made from that of its child;
* `faults_and_text_of_descend`: both, for all reachable rules and the rules further down in them.
-/

namespace Segmentation

theorem Node.ofList_segment {n : Node} {p : Resolution} (h : n.resolution = some p) :
    String.ofList n.segment = (if n.negate then "not " else "") ++ p.toPredicate.text := by
  rw [segment_of_some h, String.ofList_append]
  split <;> rfl

theorem Predicate.text_ne_empty (p : Predicate) : p.text ≠ "" := by
  obtain ⟨cs, hcs⟩ := p.chars_eq_concat
  simp [text, hcs]

namespace Rule

variable {c : Catalog} {r s : Rule} {k : Nat}

theorem child?_eq_some_iff : r.child? = some s ↔ r.rest = s.root :: s.rest := by
  obtain ⟨n, rest⟩ := r
  cases rest with
  | nil => simp [child?]
  | cons m rest =>
    obtain ⟨k, ks⟩ := s
    rw [child?, Option.some.injEq, List.cons.injEq, Rule.mk.injEq]

/-- What fits below the root fits below the nodes further down. -/
theorem follows_of_descend (h : r.root.Follows c r.rest) (hs : r.descend? k = some s) :
    s.root.Follows c s.rest := by
  induction k generalizing r with
  | zero =>
    obtain rfl := Option.some.inj hs
    exact h
  | succ k ih =>
    obtain ⟨child, hchild, hs⟩ := Option.bind_eq_some_iff.1 hs
    rw [child?_eq_some_iff.1 hchild] at h
    exact ih h.2.2.2 hs

/-! ## Faults -/

/-- The condition is met if there is no other node or if all nodes below the root are resolved. -/
theorem condition_met_iff (h : r.root.Follows c r.rest) :
    (r.root.condition = .none || r.child?.any isValid) = true ↔
      ¬ ∃ n ∈ r.rest, n.resolution = none := by
  obtain ⟨n, rest⟩ := r
  cases rest with
  | nil =>
    have hc : n.condition = .none := h
    simp [hc]
  | cons m rest =>
    obtain ⟨hc, -, -, hrest⟩ := h
    have hchild : (⟨m, rest⟩ : Rule).isValid = true ↔
        ∀ k ∈ m :: rest, k.resolution.isSome = true := Node.isValid_iff_of_follows hrest
    simp only [child?, decide_eq_false hc, Bool.false_or, Option.any_some, hchild,
      Option.isSome_iff_ne_none, ne_eq, not_exists, not_and]

theorem faults_of_follows (h : r.root.Follows c r.rest) :
    r.faults = (if r.root.resolution = none then [.field] else []) ++
      (if ∃ n ∈ r.rest, n.resolution = none then [.condition] else []) := by
  have hfield : r.root.resolution.isSome = true ↔ ¬ r.root.resolution = none :=
    Option.isSome_iff_ne_none
  simp only [faults, condition_met_iff h, hfield, ite_not]

/-! ## Text -/

theorem text_eq_empty (h : r.isValid = false) : r.text = "" := by
  rw [text, chars, h]
  rfl

/-- The text of a valid rule is that of its root, followed by the connector and the text of the child
if there is one. -/
theorem text_of_isValid (h : r.root.Follows c r.rest) (hv : r.isValid = true) :
    ∃ p, r.root.resolution = some p ∧
      (r.root.condition = .none →
        r.text = (if r.root.negate then "not " else "") ++ p.toPredicate.text) ∧
      (r.root.condition ≠ .none → ∃ connector child,
        r.root.condition.connector? = some connector ∧ r.child? = some child ∧
        r.text = (if r.root.negate then "not " else "") ++ p.toPredicate.text ++
          String.ofList connector ++ child.text) := by
  have hall := (Node.isValid_iff_of_follows h).1 hv
  obtain ⟨p, hp⟩ := Option.isSome_iff_exists.1 (hall r.root List.mem_cons_self)
  have htext : r.text = String.ofList (r.root.chainChars r.rest) := by
    rw [text, chars, if_pos hv]
  obtain ⟨n, rest⟩ := r
  refine ⟨p, hp, fun hc => ?_, fun hc => ?_⟩ <;> rw [htext, ← Node.ofList_segment hp]
  · cases rest with
    | nil => rw [Node.chainChars_nil hc]
    | cons m rest => exact absurd hc h.1
  · cases rest with
    | nil => exact absurd h hc
    | cons m rest =>
      obtain ⟨connector, hconnector, hchars⟩ := Node.chainChars_cons m rest hc
      have hchild : (⟨m, rest⟩ : Rule).isValid = true :=
        (Node.isValid_iff_of_follows h.2.2.2).2 fun k hk => hall k (List.mem_cons_of_mem _ hk)
      refine ⟨connector, ⟨m, rest⟩, hconnector, rfl, ?_⟩
      rw [hchars, String.ofList_append, String.ofList_append, String.append_assoc, text, chars,
        if_pos hchild]

theorem text_ne_empty_iff (h : r.root.Follows c r.rest) : r.text ≠ "" ↔ r.isValid = true := by
  constructor
  · intro ht
    exact Bool.of_not_eq_false fun hv => ht (text_eq_empty hv)
  · intro hv
    obtain ⟨p, -, hlast, hmore⟩ := text_of_isValid h hv
    have hp : p.toPredicate.text ≠ "" := p.toPredicate.text_ne_empty
    by_cases hc : r.root.condition = .none
    · rw [hlast hc, ne_eq, String.append_eq_empty_iff]
      exact fun hnil => hp hnil.2
    · obtain ⟨connector, child, -, -, htext⟩ := hmore hc
      rw [htext, ne_eq, String.append_eq_empty_iff, String.append_eq_empty_iff,
        String.append_eq_empty_iff]
      exact fun hnil => hp hnil.1.1.2

/-- Of a reachable rule, and of the rule from any of its nodes on: the faults are that the first node
is not resolved and that one further down is not, the text is there just if there are no faults, and
that is just if all nodes are resolved; then the text is that of the first node, with the connector
and the text of the child behind it if there is a condition. -/
theorem faults_and_text_of_descend (h : Reachable c r) (hs : r.descend? k = some s) :
    s.faults = (if s.root.resolution = none then [.field] else []) ++
        (if ∃ n ∈ s.rest, n.resolution = none then [.condition] else []) ∧
      (s.text ≠ "" ↔ s.faults = []) ∧
      (s.faults = [] ↔ ∀ n ∈ s.nodes, n.resolution.isSome = true) ∧
      (s.text ≠ "" → ∃ p, s.root.resolution = some p ∧
        (s.root.condition = .none →
          s.text = (if s.root.negate then "not " else "") ++ p.toPredicate.text) ∧
        (s.root.condition ≠ .none → ∃ connector child,
          s.root.condition.connector? = some connector ∧ s.child? = some child ∧
          s.text = (if s.root.negate then "not " else "") ++ p.toPredicate.text ++
            String.ofList connector ++ child.text)) := by
  have hf := follows_of_descend h.settled.follows hs
  have htext := text_ne_empty_iff hf
  have hfaults := faults_eq_nil_iff s
  exact ⟨faults_of_follows hf, htext.trans hfaults.symm,
    hfaults.trans (Node.isValid_iff_of_follows hf), fun ht => text_of_isValid hf (htext.1 ht)⟩

/-- A rule that lost its first field. What follows the root is still in order. -/
def orphaned : Rule :=
  (({} : Rule).build Stock.catalog
    { head := { field := some "platform", condition := some "with" }
      tail := [
        { operator := some "not"
          field := some "country"
          operation := some "equals"
          condition := some "and"
          arguments := .ofList [(0, "US")] },
        { field := some "city" }] }).setField Stock.catalog (some "planet")

/-- The rule that remains without the root of `orphaned`. -/
def unrooted : Rule :=
  ⟨orphaned.rest.headD {}, orphaned.rest.tail⟩

theorem faults_and_text_of_unrooted :
    Reachable Stock.catalog orphaned ∧ orphaned.faults = [.field] ∧ orphaned.text = "" ∧
      orphaned.descend? 1 = some unrooted ∧
      unrooted.text = "not country:equals(US).city:contains()" ∧
      unrooted.faults = (if unrooted.root.resolution = none then [.field] else []) ++
        (if ∃ n ∈ unrooted.rest, n.resolution = none then [.condition] else []) ∧
      (unrooted.text ≠ "" ↔ unrooted.faults = []) ∧
      (unrooted.faults = [] ↔ ∀ n ∈ unrooted.nodes, n.resolution.isSome = true) ∧
      (unrooted.text ≠ "" → ∃ p, unrooted.root.resolution = some p ∧
        (unrooted.root.condition = .none →
          unrooted.text = (if unrooted.root.negate then "not " else "") ++ p.toPredicate.text) ∧
        (unrooted.root.condition ≠ .none → ∃ connector child,
          unrooted.root.condition.connector? = some connector ∧ unrooted.child? = some child ∧
          unrooted.text = (if unrooted.root.negate then "not " else "") ++ p.toPredicate.text ++
            String.ofList connector ++ child.text)) := by
  have h : Reachable Stock.catalog orphaned := .setField _ (.build _ .empty)
  have hs : orphaned.descend? 1 = some unrooted := by decide +kernel
  exact ⟨h, by decide +kernel, by decide +kernel, hs, by decide +kernel,
    faults_and_text_of_descend h hs⟩

end Rule

end Segmentation

import Mathlib.Data.List.Chain
import Segmentation.Proofs.Rule.Validity

/-!
# The path of a resolution

A resolution carries the predicates that narrow it, as they were copied from the nodes below when
the node was narrowed last. The text of its path is written from these copies, the text of the rule
from the nodes themselves. Both tell the same, because a settled node has the copies that it would
get now: its path is the run of nodes that are joined by `and` from it on, up to the first one that
is not resolved.

Main statements:

* `longestRun_andRun`: the run, found by going down the nodes, is the longest one;
* `map_predicate?_andRun`: the path of a settled node has the predicates of its run;
* `chainChars_of_and`: where the run is the whole chain and no node is negated, the text of the
  chain is that of the path;
* `path_of_descend`: both, for all reachable rules and the rules further down in them.
-/

namespace Segmentation

/-- The text of a path has the texts of its predicates with points between them. -/
theorem Resolution.text_eq_intercalate (p : Resolution) :
    p.text = ".".intercalate (p.path.map Predicate.text) := by
  have hchars (q : Predicate) : q.chars = q.text.toList := String.toList_ofList.symm
  refine String.toList_injective ?_
  rw [text, String.toList_ofList, String.toList_intercalate, List.map_map]
  exact congrArg _ (List.map_congr_left fun q _ => hchars q)

namespace Node

variable {c : Catalog} {n : Node} {rest : List Node} {p : Resolution}

/-! ## Runs -/

/-- The predicate of a node, if it is resolved. -/
def predicate? (n : Node) : Option Predicate :=
  n.resolution.map Resolution.toPredicate

/-- All nodes are resolved, and each is joined to the next one by `and`. -/
structure Unbroken (run : List Node) : Prop where
  resolved : ∀ n ∈ run, n.resolution.isSome = true
  links : run.IsChain fun n _ => n.condition = .and

/-- The longest run of resolved nodes joined by `and` that a list of nodes begins with. -/
structure LongestRun (nodes run : List Node) : Prop where
  begins : run <+: nodes
  unbroken : Unbroken run
  longest : ∀ run', run' <+: nodes → Unbroken run' → run' <+: run

/-- The nodes before the first that is not resolved, or up to the first that is not joined to the
next one by `and`. -/
def andRun : List Node → List Node
  | [] => []
  | n :: rest =>
    if n.resolution.isSome then n :: (if n.condition = .and then andRun rest else []) else []

theorem unbroken_nil : Unbroken [] :=
  ⟨List.forall_mem_nil _, .nil⟩

/-- A run may be one node alone. -/
theorem unbroken_cons_iff : Unbroken (n :: rest) ↔
    n.resolution.isSome = true ∧ (rest ≠ [] → n.condition = .and) ∧ Unbroken rest := by
  constructor
  · rintro ⟨hresolved, hlinks⟩
    obtain ⟨hn, hrest⟩ := List.forall_mem_cons.1 hresolved
    cases rest with
    | nil => exact ⟨hn, absurd rfl, unbroken_nil⟩
    | cons m rest =>
      obtain ⟨hand, hlinks⟩ := List.isChain_cons_cons.1 hlinks
      exact ⟨hn, fun _ => hand, hrest, hlinks⟩
  · rintro ⟨hn, hand, hrest, hlinks⟩
    refine ⟨List.forall_mem_cons.2 ⟨hn, hrest⟩, ?_⟩
    cases rest with
    | nil => exact .singleton n
    | cons m rest => exact .cons_cons (hand nofun) hlinks

theorem andRun_cons (h : n.resolution.isSome = true) (rest : List Node) :
    andRun (n :: rest) = n :: if n.condition = .and then andRun rest else [] :=
  if_pos h

theorem andRun_begins (nodes : List Node) : andRun nodes <+: nodes := by
  induction nodes with
  | nil => exact List.prefix_rfl
  | cons n rest ih =>
    rw [andRun]
    split
    · refine List.cons_prefix_cons.2 ⟨rfl, ?_⟩
      split
      · exact ih
      · exact List.nil_prefix
    · exact List.nil_prefix

theorem unbroken_andRun (nodes : List Node) : Unbroken (andRun nodes) := by
  induction nodes with
  | nil => exact unbroken_nil
  | cons n rest ih =>
    rw [andRun]
    split
    · rename_i hn
      split
      · exact unbroken_cons_iff.2 ⟨hn, fun _ => ‹_›, ih⟩
      · exact unbroken_cons_iff.2 ⟨hn, absurd rfl, unbroken_nil⟩
    · exact unbroken_nil

/-- No other run goes further. -/
theorem prefix_andRun {run nodes : List Node} (h : run <+: nodes) (hj : Unbroken run) :
    run <+: andRun nodes := by
  induction run generalizing nodes with
  | nil => exact List.nil_prefix
  | cons n run ih =>
    obtain ⟨hn, hand, hrun⟩ := unbroken_cons_iff.1 hj
    obtain ⟨rest, rfl, hrest⟩ := List.cons_prefix_iff.1 h
    rw [andRun_cons hn]
    refine List.cons_prefix_cons.2 ⟨rfl, ?_⟩
    by_cases hne : run = []
    · exact hne ▸ List.nil_prefix
    · rw [if_pos (hand hne)]
      exact ih hrest hrun

theorem longestRun_andRun (nodes : List Node) : LongestRun nodes (andRun nodes) :=
  ⟨andRun_begins nodes, unbroken_andRun nodes, fun _ => prefix_andRun⟩

/-! ## Paths -/

/-- The path of a settled node goes on just if the next node is joined by `and` and is resolved, and
then with the path that the next node has now. -/
theorem path_of_settled (hn : (n.resolve c).narrowedBy rest = n) (hp : n.resolution = some p) :
    p.path = p.toPredicate :: if n.condition = .and then
      ((rest.head?.bind Node.resolution).map Resolution.path).getD [] else [] := by
  rw [Resolution.path, narrowing_of_settled hn hp]

/-- The path of a settled node has the predicates of the nodes in its run. -/
theorem map_predicate?_andRun (hn : (n.resolve c).narrowedBy rest = n) (h : n.Follows c rest)
    (hp : n.resolution = some p) : (andRun (n :: rest)).map predicate? = p.path.map some := by
  induction rest generalizing n p with
  | nil =>
    rw [andRun_cons (by rw [hp, Option.isSome_some]), path_of_settled hn hp]
    split <;> simp [andRun, predicate?, hp]
  | cons m rest ih =>
    obtain ⟨-, -, hm, hrest⟩ := h
    rw [andRun_cons (by rw [hp, Option.isSome_some]), path_of_settled hn hp, List.head?_cons,
      Option.bind_some]
    split
    · cases hq : m.resolution with
      | none => simp [andRun, predicate?, hp, hq]
      | some q =>
        have hbelow := ih hm hrest hq
        simp [predicate?, hp, hbelow]
    · simp [predicate?, hp]

theorem segment_of_not_negate (hp : n.resolution = some p) (h : n.negate = false) :
    n.segment = p.chars := by
  rw [segment_of_some hp, h]
  rfl

/-- Where all nodes are joined by `and`, resolved and not negated, the text of the chain is that of
the path of its first node. -/
theorem chainChars_of_and (hn : (n.resolve c).narrowedBy rest = n) (h : n.Follows c rest)
    (hp : n.resolution = some p) (hresolved : ∀ m ∈ rest, m.resolution.isSome = true)
    (hand : ∀ m ∈ (n :: rest).dropLast, m.condition = .and)
    (hnegate : ∀ m ∈ n :: rest, m.negate = false) :
    n.chainChars rest = ['.'].intercalate (p.path.map Predicate.chars) := by
  induction rest generalizing n p with
  | nil =>
    have hc : n.condition = .none := h
    rw [chainChars_nil hc, segment_of_not_negate hp (hnegate n List.mem_cons_self),
      path_of_settled hn hp, hc]
    exact List.intercalate_singleton.symm
  | cons m rest ih =>
    obtain ⟨hc, -, hm, hrest⟩ := h
    obtain ⟨hfirst, hand⟩ := List.forall_mem_cons.1 hand
    obtain ⟨hn', hnegate⟩ := List.forall_mem_cons.1 hnegate
    obtain ⟨hm', hresolved⟩ := List.forall_mem_cons.1 hresolved
    obtain ⟨q, hq⟩ := Option.isSome_iff_exists.1 hm'
    have hbelow := ih hm hrest hq hresolved hand hnegate
    have hpath : p.path = p.toPredicate :: q.path := by
      rw [path_of_settled hn hp, if_pos hfirst, List.head?_cons, Option.bind_some, hq]
      rfl
    obtain ⟨connector, hconnector, hchars⟩ := chainChars_cons m rest hc
    rw [hfirst] at hconnector
    obtain rfl := Option.some.inj hconnector
    rw [hchars, segment_of_not_negate hp hn', hbelow, hpath, Resolution.path]
    simp only [List.map_cons, List.intercalate_cons_cons, List.append_assoc]

end Node

/-! ## Rules -/

namespace Rule

variable {c : Catalog} {r s : Rule} {k : Nat} {p : Resolution}

/-- Below a settled root each node is settled. -/
theorem settled_of_descend (hn : (r.root.resolve c).narrowedBy r.rest = r.root)
    (h : r.root.Follows c r.rest) (hs : r.descend? k = some s) :
    (s.root.resolve c).narrowedBy s.rest = s.root := by
  induction k generalizing r with
  | zero =>
    obtain rfl := Option.some.inj hs
    exact hn
  | succ k ih =>
    obtain ⟨child, hchild, hs⟩ := Option.bind_eq_some_iff.1 hs
    rw [child?_eq_some_iff.1 hchild] at h
    exact ih h.2.2.1 h.2.2.2 hs

/-- The path of a node of a reachable rule has the predicates of the nodes from it on, as far as
each is joined to the next one by `and` and all are resolved; its text has their texts with points
between them. If all nodes from it on are joined by `and`, resolved and not negated, that is the
text of the rule from this node on. -/
theorem path_of_descend (h : Reachable c r) (hs : r.descend? k = some s)
    (hp : s.root.resolution = some p) :
    (∃ run, Node.LongestRun s.nodes run ∧ run.map Node.predicate? = p.path.map some ∧
      p.text = ".".intercalate (p.path.map Predicate.text)) ∧
    ((∀ condition ∈ s.links, condition = .and) → s.faults = [] →
      (∀ n ∈ s.nodes, n.negate = false) → p.text = s.text) := by
  have hn := settled_of_descend h.settled.root h.settled.follows hs
  have hf := follows_of_descend h.settled.follows hs
  refine ⟨⟨Node.andRun s.nodes, Node.longestRun_andRun _, Node.map_predicate?_andRun hn hf hp,
    p.text_eq_intercalate⟩, fun hand hv hnegate => ?_⟩
  have hvalid := (faults_eq_nil_iff s).1 hv
  have hall := (Node.isValid_iff_of_follows hf).1 hvalid
  have hchars := Node.chainChars_of_and hn hf hp (List.forall_mem_cons.1 hall).2
    (List.forall_mem_map.1 hand) hnegate
  rw [text, chars, if_pos hvalid, hchars]
  rfl

/-- A rule that was moved to another handler after it was made. Its second and third field are found
there, its fourth is not. -/
def rerouted : Rule :=
  (({} : Rule).build Stock.catalog
    { head := { operator := some "not", field := some "browser", condition := some "and" }
      tail := [
        { field := some "city", operation := some "equals", condition := some "and" },
        { operator := some "not", field := some "region", condition := some "and" },
        { field := some "platform", condition := some "with" },
        { field := some "device", condition := some "and" },
        { field := some "landing_page" }] }).setField Stock.catalog (some "country")

theorem path_of_rerouted :
    Reachable Stock.catalog rerouted ∧ rerouted.text = "" ∧
      (∃ p, rerouted.descend? 0 = some rerouted ∧ rerouted.root.resolution = some p ∧
        p.text = "country:contains().city:equals().region:contains()" ∧
        ∃ run, Node.LongestRun rerouted.nodes run ∧ run.map Node.predicate? = p.path.map some ∧
          p.text = ".".intercalate (p.path.map Predicate.text)) ∧
      ∃ s p, rerouted.descend? 4 = some s ∧ s.root.resolution = some p ∧
        s.text = "device:contains().landing_page:contains()" ∧
        (∀ condition ∈ s.links, condition = .and) ∧ s.faults = [] ∧
        (∀ n ∈ s.nodes, n.negate = false) ∧ p.text = s.text := by
  have h : Reachable Stock.catalog rerouted := .setField _ (.build _ .empty)
  have hroot : rerouted.descend? 0 = some rerouted := by rw [descend?]
  have hpath : rerouted.root.resolution.map Resolution.text =
      some "country:contains().city:equals().region:contains()" := by decide +kernel
  obtain ⟨p, hp, hpath⟩ := Option.map_eq_some_iff.1 hpath
  have hbelow : ∃ s ∈ rerouted.descend? 4, s.root.resolution.isSome = true ∧
      s.text = "device:contains().landing_page:contains()" ∧
      (∀ condition ∈ s.links, condition = .and) ∧ s.faults = [] ∧
      ∀ n ∈ s.nodes, n.negate = false := by decide +kernel
  obtain ⟨s, hs, hq, htext, hand, hv, hnegate⟩ := hbelow
  obtain ⟨q, hq⟩ := Option.isSome_iff_exists.1 hq
  exact ⟨h, by decide +kernel, ⟨p, hroot, hp, hpath, (path_of_descend h hroot hp).1⟩,
    s, q, hs, hq, htext, hand, hv, hnegate, (path_of_descend h hs hq).2 hand hv hnegate⟩

end Rule

end Segmentation

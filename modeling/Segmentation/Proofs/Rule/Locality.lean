import Segmentation.Proofs.Rule.Coherence

/-!
# How far a change of the root reaches

A new field or operation of the root can move the root to another handler, and then the nodes that
follow by `and` move with it. No node behind another connector is touched, and no node at all if the
scope of the child stays, as it does whenever only the operation changes. Main statements:

* `drop_rescope`: from the first connector other than `and` on a chain stays as it is;
* `map_rescope`: what a user entered for the nodes below stays;
* `childScope_resolve_operation`: the operation has no part in the scope of the child;
* `confined_of_set`: what setting field or operation leaves as it is.
-/

namespace Segmentation

namespace Node

variable {c : Catalog} {n m : Node} {rest : List Node}

/-! ## Moving a chain -/

/-- Whatever neither the scope nor resolving nor narrowing touches is kept in all nodes. -/
theorem map_rescope {α : Type} {get : Node → α}
    (hscope : ∀ (n : Node) (scope : Scope), get { n with scope } = get n)
    (hresolve : ∀ n : Node, get (n.resolve c) = get n)
    (hnarrow : ∀ (n : Node) (below : List Node), get (n.narrowedBy below) = get n)
    (n : Node) (rest : List Node) : (n.rescope c rest).map get = rest.map get := by
  induction rest generalizing n with
  | nil => rfl
  | cons child rest ih =>
    rw [rescope]
    split
    · rfl
    · rw [List.map_cons, List.map_cons, ih, hnarrow, hresolve, hscope]

/-- A chain whose first node has its scope already stays as it is. -/
theorem rescope_of_scope (h : ∀ child, rest.head? = some child → child.scope = n.childScope) :
    n.rescope c rest = rest := by
  cases rest with
  | nil => rfl
  | cons child rest => rw [rescope, if_pos (.inr (h child rfl))]

/-- A chain that moves has another first scope. -/
theorem rescope_eq_self
    (h : (n.rescope c rest).head?.map Node.scope = rest.head?.map Node.scope) :
    n.rescope c rest = rest := by
  cases rest with
  | nil => rfl
  | cons child rest =>
    rw [rescope] at h ⊢
    split
    · rfl
    · rename_i hmove
      rw [if_neg hmove] at h
      have hscope : n.childScope = child.scope := by
        rw [← Option.some.inj h]
        exact (resolve_scope c { child with scope := n.childScope }).symm
      exact absurd (.inr hscope.symm) hmove

/-- From the first connector other than `and` on, a chain stays as it is. -/
theorem drop_rescope (hc : m.condition = n.condition) (h : n.Follows c rest) {j : Nat} {b : Node}
    (hj : (n :: rest)[j]? = some b) (hb : b.condition ≠ .and) :
    (m.rescope c rest).drop j = rest.drop j := by
  induction rest generalizing n m j with
  | nil => rfl
  | cons child rest ih =>
    obtain ⟨-, hscope, -, hrest⟩ := h
    cases j with
    | zero =>
      obtain rfl := Option.some.inj hj
      have hglobal : child.scope = m.childScope := by
        rw [hscope, childScope_eq, childScope_eq, hc, if_neg hb, if_neg hb]
      rw [rescope, if_pos (.inr hglobal)]
    | succ j =>
      rw [rescope]
      split
      · rfl
      · have hmoved : (({ child with scope := m.childScope } : Node).resolve c).condition =
            child.condition := resolve_condition ..
        rw [List.drop_succ_cons, List.drop_succ_cons]
        exact ih hmoved hrest hj

/-- The scope that a resolved node gives its child depends on condition, field and scope. -/
theorem childScope_resolve_eq (c : Catalog) (n : Node) :
    (n.resolve c).childScope = if n.condition = .and then
      ((n.field.bind (c.lookup? n.scope)).map fun b => Scope.handler b.handler.key).getD .unresolved
      else .global := by
  rw [childScope_eq, resolve_condition]
  cases hf : n.found? c with
  | none =>
    have hlookup : n.field.bind (c.lookup? n.scope) = none := by
      refine Option.bind_eq_none_iff.2 fun field hfield => ?_
      exact Catalog.resolveField?_eq_none_iff.1 (Option.bind_eq_none_iff.1 hf field hfield)
    rw [resolve_of_none hf, hlookup]
    rfl
  | some p =>
    obtain ⟨field, hfield, hp⟩ := Option.bind_eq_some_iff.1 hf
    rw [resolve_of_some hf, hfield, Option.bind_some, (Catalog.resolveField?_eq_some_iff.1 hp).1]
    rfl

end Node

/-! ## Rules -/

namespace Rule

variable {c : Catalog} {r r' : Rule}

/-- A change of a rule that is confined to what a new field or operation of its root has to change. -/
structure Confined (r r' : Rule) : Prop where
  scope : r'.root.scope = r.root.scope
  depth : r'.depth = r.depth
  negate : r'.nodes.map Node.negate = r.nodes.map Node.negate
  condition : r'.nodes.map Node.condition = r.nodes.map Node.condition
  /-- The nodes below the root keep their fields. -/
  field : r'.rest.map Node.field = r.rest.map Node.field
  /-- The root keeps the arguments that fit the new slots, and has no others. -/
  argument? : ∀ i, r'.root.argument? i =
    r'.root.slots[i]?.bind fun slot => (r.root.argument? i).filter slot.kind.accepts
  /-- No node changes in any part behind a connector other than `and`. -/
  behind : ∀ (j k : Nat) (n : Node), j < k → r.nodes[j]? = some n → n.condition ≠ .and →
    r'.nodes[k]? = r.nodes[k]?
  /-- No node below the root changes in any part if the scope of the child stays. -/
  rest : r'.rest.head?.map Node.scope = r.rest.head?.map Node.scope → r'.rest = r.rest

/-- Refreshing is confined after a change of field and operation of the root. -/
theorem confined_refresh (h : r.Settled c) {m : Node} (hn : m.negate = r.root.negate)
    (hc : m.condition = r.root.condition) (hs : m.scope = r.root.scope)
    (ha : m.arguments = r.root.arguments) :
    Confined r (refresh c { r with root := m }) := by
  obtain ⟨hrn, -, hrc, hrs⟩ := Node.resolve_frame c m
  have hnegate : ((m.resolve c).rescope c r.rest).map Node.negate = r.rest.map Node.negate :=
    Node.map_rescope (fun _ _ => rfl) (fun n => (Node.resolve_frame c n).1) (fun _ _ => rfl) _ _
  have hcondition : ((m.resolve c).rescope c r.rest).map Node.condition =
      r.rest.map Node.condition :=
    Node.map_rescope (fun _ _ => rfl) (Node.resolve_condition c) (fun _ _ => rfl) _ _
  refine ⟨hrs.trans hs, ?_, ?_, ?_, ?_, fun i => ?_, fun j k n hjk hj hbreak => ?_,
    Node.rescope_eq_self⟩
  · have hlen := congrArg List.length hnegate
    rw [List.length_map, List.length_map] at hlen
    exact congrArg (· + 1) hlen
  · exact List.cons_eq_cons.2 ⟨hrn.trans hn, hnegate⟩
  · exact List.cons_eq_cons.2 ⟨hrc.trans hc, hcondition⟩
  · exact Node.map_rescope (fun _ _ => rfl) (fun n => (Node.resolve_frame c n).2.1)
      (fun _ _ => rfl) _ _
  · have hargument := Node.argument?_resolve c m i
    show (m.resolve c).argument? i = _
    rw [hargument, refresh, Node.slots_narrowedBy]
    simp only [Node.argument?, ha]
  · obtain ⟨k, rfl⟩ : ∃ l, k = l + 1 := ⟨k - 1, by omega⟩
    have hdrop := Node.drop_rescope (hrc.trans hc) h.follows hj hbreak
    have hget := congrArg (fun nodes : List Node => nodes[k - j]?) hdrop
    simp only [List.getElem?_drop, show j + (k - j) = k by omega] at hget
    exact hget

/-- Setting field or operation of a reachable rule changes no more than it has to: all nodes keep
what was entered for them, but for the field or operation that is set; the root keeps the arguments
that fit; no node changes behind a connector other than `and`, and none below the root if the scope
of the child stays. Setting the operation changes none in any case. -/
theorem confined_of_set (h : Reachable c r) :
    (∀ field, Confined r (r.setField c field)) ∧
      ∀ operation, Confined r (r.setOperation c operation) ∧
        (r.setOperation c operation).rest = r.rest := by
  have hs := h.settled
  refine ⟨fun field => ?_, fun operation => ⟨?_, ?_⟩⟩
  · exact confined_refresh (m := { r.root with field := nonempty? field }) hs rfl rfl rfl rfl
  · exact confined_refresh (m := { r.root with operation := nonempty? operation }) hs rfl rfl rfl rfl
  · -- The root gives its child the scope that it has.
    refine Node.rescope_of_scope fun child hchild => ?_
    rw [Node.scope_of_follows hs.follows hchild, ← Node.childScope_resolve hs.root,
      Node.childScope_resolve_eq, Node.childScope_resolve_eq]

/-- A rule with two runs of `and`. -/
def twoRuns : Rule :=
  ({} : Rule).build Stock.catalog
    { head :=
        { field := some "country"
          operation := some "equals"
          condition := some "and"
          arguments := .ofList [(0, "US")] }
      tail := [
        { operator := some "not", field := some "city", condition := some "or" },
        { field := some "visits", operation := some "equals", condition := some "and" },
        { field := some "region" }] }

/-- With another handler for the root its child is moved and not found there. What follows `or` still
has the scopes that it had. -/
theorem confined_of_set_twoRuns :
    Reachable Stock.catalog twoRuns ∧
      twoRuns.nodes.map Node.scope =
        [.global, .handler "visitor", .global, .handler "visitor"] ∧
      (twoRuns.setField Stock.catalog (some "browser")).nodes.map Node.scope =
        [.global, .handler "session", .global, .handler "visitor"] ∧
      (∀ field, Confined twoRuns (twoRuns.setField Stock.catalog field)) ∧
      ∀ operation, Confined twoRuns (twoRuns.setOperation Stock.catalog operation) ∧
        (twoRuns.setOperation Stock.catalog operation).rest = twoRuns.rest := by
  have h : Reachable Stock.catalog twoRuns := .build _ .empty
  exact ⟨h, by decide +kernel, by decide +kernel, confined_of_set h⟩

end Rule

end Segmentation

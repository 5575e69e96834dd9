import Segmentation.Proofs.Rule.Origin
import Segmentation.Catalog.Stock

/-!
# Coherence

A node keeps more than was entered for it: its resolution, the arguments once more in that
resolution, the path below it, and its scope. All of these follow from the catalog and the nodes
around it, and none is ever out of date. `Coherent` says so for one node and the node below it, part
by part and without a word on how they came about.

Main statement: `coherent_of_reachable`, all nodes of all reachable rules are coherent.
-/

namespace Segmentation

namespace Node

variable {c : Catalog} {n : Node} {rest : List Node}

/-- A node in line with the catalog and with the node below it, if there is one. -/
structure Coherent (c : Catalog) (n : Node) (next : Option Node) : Prop where
  /-- There is no resolution just if there is no field or it is not found in the scope. -/
  unresolved_iff : n.resolution = none ↔
    ∀ field, n.field = some field → c.resolveField? n.scope field n.operation = none
  /-- A resolution is what the catalog has for the field, the operation and the scope. -/
  resolved : ∀ r, n.resolution = some r → ∃ field p, n.field = some field ∧
    c.resolveField? n.scope field n.operation = some p ∧ r.handler = p.handler ∧
      r.field = p.field ∧ r.valueType = p.valueType ∧ r.operation = p.operation
  operation : ∀ r, n.resolution = some r → n.operation = some r.operation.key
  /-- One place for each slot. -/
  length_arguments : ∀ r, n.resolution = some r → n.arguments.length = r.operation.slots.length
  accepts : ∀ r, n.resolution = some r → ∀ i slot v, r.operation.slots[i]? = some slot →
    n.argument? i = some v → slot.kind.accepts v = true
  isFinite : ∀ i v, n.argument? i = some v → v.isFinite = true
  arguments : ∀ r, n.resolution = some r → r.arguments = n.arguments
  arguments_of_unresolved : n.resolution = none → n.arguments = []
  next_isSome_iff : next.isSome = true ↔ n.condition ≠ .none
  /-- After `and` the next node is looked up in the handler of this one. -/
  scope_next : ∀ m, next = some m → m.scope = if n.condition = .and then
    (n.resolution.map fun r => Scope.handler r.handler.key).getD .unresolved else .global
  /-- After `and` a resolution is narrowed by that of the next node, and by nothing otherwise. -/
  narrowing : ∀ r, n.resolution = some r → r.narrowing = if n.condition = .and then
    ((next.bind Node.resolution).map Resolution.path).getD [] else []

theorem childScope_eq (n : Node) : n.childScope = if n.condition = .and then
    (n.resolution.map fun r => Scope.handler r.handler.key).getD .unresolved else .global := by
  unfold childScope
  cases n.condition <;> cases n.resolution <;> rfl

theorem slots_of_some {r : Resolution} (hr : n.resolution = some r) :
    n.slots = r.operation.slots := by
  rw [slots, hr]
  rfl

/-- A settled node is unresolved just if nothing is found for it. -/
theorem resolution_eq_none_iff (hn : (n.resolve c).narrowedBy rest = n) :
    n.resolution = none ↔ n.found? c = none := by
  constructor
  · intro hr
    refine Option.eq_none_iff_forall_ne_some.2 fun p hp => ?_
    obtain ⟨-, -, narrowing, hr'⟩ := settled_of_some hn hp
    rw [hr] at hr'
    cases hr'
  · exact fun hf => (settled_of_none hn hf).1

theorem coherent_of_settled (hn : (n.resolve c).narrowedBy rest = n) (h : n.Follows c rest)
    (hfinite : n.Holds fun _ v => v.isFinite = true) : n.Coherent c rest.head? := by
  obtain ⟨hlen, hkind⟩ := fit_eq_self_iff.1 (fit_arguments hn)
  refine ⟨?_, fun r hr => ?_, fun r hr => ?_, fun r hr => ?_, fun r hr => ?_, hfinite,
    fun r hr => ?_, fun hr => ?_, isSome_head?_of_follows h, fun m hm => ?_, fun r hr => ?_⟩
  · exact (resolution_eq_none_iff hn).trans Option.bind_eq_none_iff
  · obtain ⟨p, hf, hbinding, hoperation, -, -⟩ := resolution_of_settled hn hr
    obtain ⟨field, hfield, hp⟩ := Option.bind_eq_some_iff.1 hf
    exact ⟨field, p, hfield, hp, congrArg Binding.handler hbinding,
      congrArg Binding.field hbinding, congrArg Binding.valueType hbinding, hoperation⟩
  · obtain ⟨p, -, -, -, -, ho⟩ := resolution_of_settled hn hr
    exact ho
  · rw [hlen, slots_of_some hr]
  · rw [← slots_of_some hr]
    exact hkind
  · obtain ⟨p, -, -, -, harguments, -⟩ := resolution_of_settled hn hr
    exact harguments
  · exact (settled_of_none hn ((resolution_eq_none_iff hn).1 hr)).2
  · exact (scope_of_follows h hm).trans (childScope_eq n)
  · exact narrowing_of_settled hn hr

end Node

namespace Rule

/-- Whatever is built and edited in whatever order: the root sees all handlers, and every node is in
line with the catalog and with the node below it. -/
theorem coherent_of_reachable {c : Catalog} {r : Rule} (h : Reachable c r) :
    r.root.scope = .global ∧
      ∀ (k : Nat) (n : Node), r.nodes[k]? = some n → n.Coherent c r.nodes[k + 1]? := by
  have hs := h.settled
  have hfinite := argument_of_reachable (P := fun _ v => v.isFinite = true)
    (fun i slot raw v _ hv => Slot.isFinite_convert hv) h
  refine ⟨hs.scope, fun k n hk => ?_⟩
  obtain ⟨hn, hrest⟩ := Node.settled_getElem? hs.root hs.follows hk
  have hc := Node.coherent_of_settled hn hrest (hfinite n (List.mem_of_getElem? hk))
  rw [List.head?_drop] at hc
  exact hc

/-- A rule that was moved to another handler. Its child is not found there and stays unresolved. -/
def moved : Rule :=
  (({} : Rule).build Stock.catalog
    { head := { field := some "country", condition := some "and" }
      tail := [{ field := some "city" }] }).setField Stock.catalog (some "browser")

theorem coherent_moved :
    Reachable Stock.catalog moved ∧
      moved.nodes.map Node.scope = [.global, .handler "session"] ∧
      moved.root.scope = .global ∧ ∀ (k : Nat) (n : Node),
        moved.nodes[k]? = some n → n.Coherent Stock.catalog moved.nodes[k + 1]? := by
  have h : Reachable Stock.catalog moved := .setField _ (.build _ .empty)
  exact ⟨h, by decide +kernel, coherent_of_reachable h⟩

end Rule

end Segmentation

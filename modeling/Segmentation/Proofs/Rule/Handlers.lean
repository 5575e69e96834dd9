import Mathlib.Data.List.Nodup
import Mathlib.Data.List.SplitBy
import Segmentation.Proofs.Rule.Expression

/-!
# Handlers along a rule

A node joined by `and` is looked up in the handler of the node before it, so a run of such nodes
never leaves the handler of its first node, whatever was changed after the nodes were made. The
first node of a run is looked up everywhere and lies in the first handler that declares its field.
Fields of several handlers may have one key, so this is not plain from the keys; that keys of
handlers differ is needed.

Main statements:

* `within_of_and`: after `and` a resolved node lies in the handler of the node before it;
* `within_of_run`: so do all nodes of a run in that of the first one;
* `handlers_of_reachable`: links and runs of all reachable rules.
-/

namespace Segmentation

/-! ## Catalogs -/

namespace Catalog

variable {c : Catalog} {key : String} {b : Binding}

/-- A handler declares a key, and no handler before it does. -/
def DeclaresFirst (c : Catalog) (h : Handler) (key : String) : Prop :=
  (∃ f ∈ h.fields, f.key = key) ∧
    ∃ before after, c.handlers = before ++ h :: after ∧ ∀ g ∈ before, ∀ f ∈ g.fields, f.key ≠ key

theorem declaresFirst_of_lookup? (h : c.lookup? .global key = some b) :
    c.DeclaresFirst b.handler key := by
  have hd := declares_of_lookup? h
  obtain ⟨before, after, hsplit, -, hother⟩ := lookup?_eq_some_iff.1 h
  have hall : c.handlersIn .global = c.handlers := List.filter_eq_self.2 fun _ _ => rfl
  exact ⟨⟨b.field, hd.field, hd.key⟩, before, after, hall ▸ hsplit, hother⟩

/-- In the scope of a handler only its own fields are found. -/
theorem handler_of_lookup? {g : Handler} (hg : g ∈ c.handlers)
    (h : c.lookup? (.handler g.key) key = some b) : b.handler = g := by
  have hd := declares_of_lookup? h
  exact List.inj_on_of_nodup_map c.wellFormed.nodup_handlers hd.handler hg
    (of_decide_eq_true hd.includes)

theorem lookup?_unresolved (c : Catalog) (key : String) : c.lookup? .unresolved key = none := by
  refine Option.eq_none_iff_forall_ne_some.2 fun b h => ?_
  cases (declares_of_lookup? h).includes

end Catalog

/-! ## Nodes -/

namespace Node

variable {c : Catalog} {k m n : Node} {rest rest' : List Node}

/-- A node lies in the handler of another one: if it is resolved, so is the other, in the same
handler, which declares the field of the node. -/
def Within (m n : Node) : Prop :=
  ∀ q, m.resolution = some q → ∃ p, n.resolution = some p ∧ q.handler = p.handler ∧
    q.field ∈ p.handler.fields ∧ m.field = some q.field.key

theorem Within.trans (h₁ : k.Within m) (h₂ : m.Within n) : k.Within n := by
  intro q hq
  obtain ⟨p, hp, hqp, hmem, hfield⟩ := h₁ q hq
  obtain ⟨o, ho, hpo, -⟩ := h₂ p hp
  exact ⟨o, ho, hqp.trans hpo, hpo ▸ hmem, hfield⟩

theorem lookup?_of_settled (hn : (n.resolve c).narrowedBy rest = n) {r : Resolution}
    (hr : n.resolution = some r) : c.lookup? n.scope r.field.key = some r.toBinding := by
  obtain ⟨p, hf, hbinding, -⟩ := resolution_of_settled hn hr
  obtain ⟨field, -, hp⟩ := Option.bind_eq_some_iff.1 hf
  rw [hbinding, (Catalog.declares_of_resolveField? hp).key]
  exact (Catalog.resolveField?_eq_some_iff.1 hp).1

theorem within_self (hn : (n.resolve c).narrowedBy rest = n) : n.Within n := by
  intro r hr
  have hd := Catalog.declares_of_lookup? (lookup?_of_settled hn hr)
  exact ⟨r, hr, rfl, hd.field, field_of_settled hn hr⟩

/-- Whatever is found for a node after `and` is found in the handler of the node before it. -/
theorem within_of_and (hn : (n.resolve c).narrowedBy rest = n)
    (hm : (m.resolve c).narrowedBy rest' = m) (hscope : m.scope = n.childScope)
    (hc : n.condition = .and) : m.Within n := by
  intro q hq
  have hfound := lookup?_of_settled hm hq
  rw [hscope] at hfound
  cases hp : n.resolution with
  | none =>
    have hs : n.childScope = .unresolved := by simp only [childScope, hc, hp]
    rw [hs, Catalog.lookup?_unresolved] at hfound
    cases hfound
  | some p =>
    have hs : n.childScope = .handler p.handler.key := by simp only [childScope, hc, hp]
    rw [hs] at hfound
    have hmem := (Catalog.declares_of_lookup? (lookup?_of_settled hn hp)).handler
    have hhandler : q.handler = p.handler := Catalog.handler_of_lookup? hmem hfound
    have hd := Catalog.declares_of_lookup? hfound
    exact ⟨p, rfl, hhandler, hhandler ▸ hd.field, field_of_settled hm hq⟩

/-- What ties two nodes that follow each other: the scope, and after `and` the handler. -/
def Link (n m : Node) : Prop :=
  m.scope = n.childScope ∧ (n.condition = .and → m.Within n)

theorem isChain_link (hn : (n.resolve c).narrowedBy rest = n) (h : n.Follows c rest) :
    (n :: rest).IsChain Link := by
  induction rest generalizing n with
  | nil => exact .singleton n
  | cons m rest ih =>
    obtain ⟨-, hscope, hm, hrest⟩ := h
    exact .cons_cons ⟨hscope, within_of_and hn hm hscope⟩ (ih hm hrest)

theorem childScope_of_ne_and (h : n.condition ≠ .and) : n.childScope = .global := by
  unfold childScope
  cases hc : n.condition <;> first | rfl | exact absurd hc h

end Node

/-! ## Rules -/

namespace Rule

variable {c : Catalog} {r : Rule} {run : List Node}

/-- The longest runs of nodes that are joined by `and`. -/
def runs (r : Rule) : List (List Node) :=
  r.nodes.splitBy fun n _ => n.condition = .and

theorem nil_notMem_runs (r : Rule) : [] ∉ r.runs :=
  List.nil_notMem_splitBy _ _

theorem flatten_runs (r : Rule) : r.runs.flatten = r.nodes :=
  List.flatten_splitBy _ _

theorem mem_nodes_of_run {n : Node} (hrun : run ∈ r.runs) (hn : n ∈ run) : n ∈ r.nodes :=
  flatten_runs r ▸ List.mem_flatten.2 ⟨run, hrun, hn⟩

/-- The links inside the runs and those between them are the links of the rule. -/
theorem isChain_link_runs (h : r.Settled c) :
    (∀ run ∈ r.runs, run.IsChain Node.Link) ∧ r.runs.IsChain fun run run' =>
      ∀ n ∈ run.getLast?, ∀ m ∈ run'.head?, n.Link m := by
  have hlinks : r.nodes.IsChain Node.Link := Node.isChain_link h.root h.follows
  rwa [← flatten_runs, List.isChain_flatten (nil_notMem_runs r)] at hlinks

/-- Each run begins at the root or behind a node whose condition is not `and`. -/
theorem scope_of_run (h : r.Settled c) :
    ∀ run ∈ r.runs, ∀ n, run.head? = some n → n.scope = .global := by
  have hstep : r.runs.IsChain fun _ run => ∀ n, run.head? = some n → n.scope = .global := by
    refine List.isChain_iff_getElem.2 fun i hi n hn => ?_
    obtain ⟨hne, hne', hbreak⟩ :=
      List.isChain_iff_getElem.1 (List.isChain_getLast_head_splitBy _ r.nodes) i hi
    have hlink := List.isChain_iff_getElem.1 (isChain_link_runs h).2 i hi _
      (List.getLast?_eq_some_getLast hne) n hn
    rw [hlink.1, Node.childScope_of_ne_and (of_decide_eq_false hbreak)]
  refine hstep.induction _ _ (fun _ _ hs _ => hs) fun hne n hn => ?_
  have hfirst := List.head_head_splitBy (fun n _ => n.condition = .and) (List.cons_ne_nil r.root r.rest)
  rw [List.head?_eq_some_head (List.ne_nil_of_mem_splitBy (List.head_mem hne))] at hn
  rw [← Option.some.inj hn, ← h.scope]
  exact congrArg Node.scope hfirst

/-- All nodes of a run lie in the handler of the first one. -/
theorem within_of_run (h : r.Settled c) {n : Node} (hrun : run ∈ r.runs)
    (hn : run.head? = some n) : ∀ m ∈ run, m.Within n := by
  have hlinks := (isChain_link_runs h).1 run hrun
  have hands := List.isChain_of_mem_splitBy hrun
  have hstep : run.IsChain fun k m => m.Within k := by
    refine List.isChain_iff_getElem.2 fun i hi => ?_
    have hand := of_decide_eq_true (List.isChain_iff_getElem.1 hands i hi)
    exact (List.isChain_iff_getElem.1 hlinks i hi).2 hand
  refine hstep.induction (fun m => m.Within n) run (fun _ _ hm hk => hm.trans hk) fun hne => ?_
  rw [List.head?_eq_some_head hne] at hn
  obtain rfl := Option.some.inj hn
  obtain ⟨rest, hsettled⟩ := h.node (mem_nodes_of_run hrun (List.head_mem hne))
  exact Node.within_self hsettled

/-- In a reachable rule a node that is joined by `and` lies in the handler of the node before it. In
a valid one each run of such nodes lies in one handler, and that is the first of the catalog that
declares the field of the first node. -/
theorem handlers_of_reachable (h : Reachable c r) :
    (r.nodes.IsChain fun n m => n.condition = .and → m.Within n) ∧
      (r.faults = [] → ∀ run ∈ r.runs, ∃ n p, run.head? = some n ∧ n.resolution = some p ∧
        n.field = some p.field.key ∧ c.DeclaresFirst p.handler p.field.key ∧
        ∀ m ∈ run, ∃ q, m.resolution = some q ∧ q.handler = p.handler ∧
          q.field ∈ p.handler.fields ∧ m.field = some q.field.key) := by
  have hs := h.settled
  refine ⟨(Node.isChain_link hs.root hs.follows).imp fun _ _ hlink => hlink.2, fun hv run hrun => ?_⟩
  have hall := (isValid_iff hs).1 ((faults_eq_nil_iff r).1 hv)
  obtain ⟨n, hn⟩ : ∃ n, run.head? = some n :=
    ⟨_, List.head?_eq_some_head (List.ne_nil_of_mem_splitBy hrun)⟩
  have hmem := mem_nodes_of_run hrun (List.mem_of_head? hn)
  obtain ⟨rest, hsettled⟩ := hs.node hmem
  obtain ⟨p, hp⟩ := Option.isSome_iff_exists.1 (hall n hmem)
  have hfound := Node.lookup?_of_settled hsettled hp
  rw [scope_of_run hs run hrun n hn] at hfound
  refine ⟨n, p, hn, hp, Node.field_of_settled hsettled hp, Catalog.declaresFirst_of_lookup? hfound,
    fun m hm => ?_⟩
  obtain ⟨q, hq⟩ := Option.isSome_iff_exists.1 (hall m (mem_nodes_of_run hrun hm))
  obtain ⟨p', hp', hhandler, hfield⟩ := within_of_run hs hrun hn m hm q hq
  obtain rfl := Option.some.inj (hp'.symm.trans hp)
  exact ⟨q, hq, hhandler, hfield⟩

/-- A catalog with two handlers that share the keys of two fields. -/
def overlapping : Catalog where
  valueTypes := [Stock.text]
  handlers := [
    { key := "visitor"
      name := "Visitor"
      fields := [⟨"country", "Country", "string"⟩, ⟨"city", "City", "string"⟩] },
    { key := "session"
      name := "Session"
      fields := [
        ⟨"browser", "Browser", "string"⟩,
        ⟨"country", "Country", "string"⟩,
        ⟨"city", "City", "string"⟩] }]
  wellFormed := Draft.fault?_eq_none_iff.1 (by decide +kernel)

/-- A run that was moved from one handler to the other, and a node after it that was not. -/
def transferred : Rule :=
  (({} : Rule).build overlapping
    { head := { field := some "city", condition := some "and" }
      tail := [
        { operator := some "not", field := some "country", condition := some "and" },
        { field := some "city", condition := some "or" },
        { field := some "country" }] }).setField overlapping (some "browser")

theorem handlers_of_transferred :
    Reachable overlapping transferred ∧ transferred.faults = [] ∧
      transferred.text =
        "browser:contains().not country:contains().city:contains() + country:contains()" ∧
      transferred.runs.map (·.map fun n => n.resolution.map fun p => p.handler.key) =
        [[some "session", some "session", some "session"], [some "visitor"]] ∧
      (transferred.nodes.IsChain fun n m => n.condition = .and → m.Within n) ∧
      (transferred.faults = [] → ∀ run ∈ transferred.runs, ∃ n p, run.head? = some n ∧
        n.resolution = some p ∧ n.field = some p.field.key ∧
        overlapping.DeclaresFirst p.handler p.field.key ∧
        ∀ m ∈ run, ∃ q, m.resolution = some q ∧ q.handler = p.handler ∧
          q.field ∈ p.handler.fields ∧ m.field = some q.field.key) := by
  have h : Reachable overlapping transferred := .setField _ (.build _ .empty)
  exact ⟨h, by decide +kernel, by decide +kernel, by decide +kernel, handlers_of_reachable h⟩

end Rule

end Segmentation

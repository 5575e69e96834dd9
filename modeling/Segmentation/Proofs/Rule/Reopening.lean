import Segmentation.Proofs.Rule.Expression
import Segmentation.Proofs.Rule.Loading

/-!
# Reopening a rule

A valid rule can be reopened from its text. What is built from the text has the nodes of the rule,
with the same scopes, predicates and conditions; only the arguments are converted once more, each
from its own text. Main statements:

* `load_of_readsAs`, `below_levels`: nodes that are loaded with what was read from nodes;
* `ofText_text`: the rule that is reopened from the text of a valid rule.
-/

namespace Segmentation

theorem Level.isNegated_of_operator {level : Level} {negate : Bool}
    (h : level.operator = if negate then some "not" else none) : level.isNegated = negate := by
  unfold Level.isNegated
  rw [h]
  cases negate <;> decide

theorem nonempty?_of_isIdentifier {s : String} (h : Text.isIdentifier s = true) :
    nonempty? (some s) = some s := by
  refine Option.filter_some_pos ?_
  simp only [ne_eq, decide_not, Bool.not_eq_eq_eq_not, Bool.not_true, decide_eq_false_iff_not]
  intro hs
  rw [hs] at h
  exact absurd h (by decide)

namespace Node

variable {c : Catalog} {n : Node} {rest : List Node}

/-! ## Arguments once more -/

/-- The arguments of a node after their texts were entered again. -/
def rereadArguments (n : Node) : List (Option Value) :=
  n.slots.mapIdx fun i slot => (n.argument? i).bind fun v => (slot.convert v.raw).toOption

/-- The node with its arguments converted again. -/
def reread (n : Node) : Node :=
  n.withArguments n.rereadArguments

/-- The nodes of a chain with their arguments converted again. -/
def rereadAll : List Node → List Node
  | [] => []
  | n :: rest => n.reread.narrowedBy (rereadAll rest) :: rereadAll rest

theorem getElem?_rereadArguments (n : Node) (i : Nat) :
    n.rereadArguments[i]? = n.slots[i]?.map fun slot =>
      (n.argument? i).bind fun v => (slot.convert v.raw).toOption := by
  rw [rereadArguments, List.getElem?_mapIdx]

theorem childScope_reread (n : Node) : n.reread.childScope = n.childScope := by
  unfold childScope reread withArguments
  cases n.resolution <;> rfl

/-! ## Loading a level that was read from a node -/

/-- A fresh node with what a level says of a node is that node before it was resolved. -/
theorem entered_of_readsAs (hn : (n.resolve c).narrowedBy rest = n) {level : Level}
    {next : Option Level} (h : n.ReadsAs level next) :
    ({ scope := n.scope } : Node).entered level = { n with arguments := [], resolution := none } := by
  obtain ⟨r, hr, hfield, hoperation⟩ := h.resolved
  obtain ⟨p, -, -, -, -, ho⟩ := resolution_of_settled hn hr
  obtain ⟨hkf, hko⟩ := isIdentifier_of_settled hn hr
  have hcondition : (Condition.ofText? level.condition).toOption.getD .none = n.condition := by
    rw [h.condition]
    cases n.condition <;> rfl
  have hf' : nonempty? level.field = n.field := by
    rw [hfield, nonempty?_of_isIdentifier hkf, field_of_settled hn hr]
  have ho' : nonempty? level.operation = n.operation := by
    rw [hoperation, nonempty?_of_isIdentifier hko, ho]
  simp only [entered, Level.isNegated_of_operator h.operator, hf', ho', hcondition]

theorem enteredArguments_of_readsAs {slots : List Slot} (hslots : n.slots = slots) {level : Level}
    {next : Option Level} (h : n.ReadsAs level next) :
    enteredArguments slots level.arguments (fit slots []) = n.rereadArguments := by
  refine List.ext_getElem? fun i => ?_
  rw [getElem?_rereadArguments, hslots, getElem?_enteredArguments, getElem?_fit, h.arguments]
  cases slots[i]? with
  | none => rfl
  | some slot => cases n.argument? i <;> rfl

/-- Loading what was read from a node gives the node with its arguments converted again. -/
theorem load_of_readsAs (hn : (n.resolve c).narrowedBy rest = n) {level : Level}
    {next : Option Level} (h : n.ReadsAs level next) :
    load c level { scope := n.scope } = n.reread.narrowedBy [] := by
  obtain ⟨r, hr, -, -⟩ := h.resolved
  obtain ⟨p, hf, hbinding, hoperation, -, ho⟩ := resolution_of_settled hn hr
  have hslots : n.slots = p.slots := by
    rw [slots, hr]
    exact congrArg Operation.slots hoperation
  have hf' : ({ n with arguments := [], resolution := none } : Node).found? c = some p := hf
  rw [load_eq_withArguments, entered_of_readsAs hn h, resolve_of_some hf']
  show withArguments _ (enteredArguments p.slots level.arguments (fit p.slots [])) = _
  rw [enteredArguments_of_readsAs hslots h, narrowedBy_nil]
  simp only [reread, withArguments, hr, hbinding, ho, hoperation, Option.map_some]

/-- The chain below a node comes back below any node with its condition and child scope. -/
theorem below_levels {m : Node} (hc : m.condition = n.condition) (hs : m.childScope = n.childScope)
    (h : n.Follows c rest) (hv : ∀ k ∈ rest, k.resolution.isSome = true) :
    m.below c (rest.map level) = rereadAll rest := by
  induction rest generalizing n m with
  | nil =>
    rw [List.map_nil, below, if_pos (hc.trans h)]
    rfl
  | cons child rest ih =>
    obtain ⟨hne, hscope, hchild, hrest⟩ := h
    have hread := readsAs_level hchild (hv child List.mem_cons_self) hrest
    have hload : load c child.level { scope := m.childScope } = child.reread.narrowedBy [] := by
      rw [hs, ← hscope, load_of_readsAs hchild hread]
    have hbelow := ih (n := child) (m := child.reread.narrowedBy []) rfl
      ((childScope_narrowedBy _ _).trans (childScope_reread child)) hrest
      fun k hk => hv k (List.mem_cons_of_mem _ hk)
    rw [List.map_cons, below, if_neg (hc ▸ hne)]
    simp only [hload, hbelow, narrowedBy_narrowedBy, rereadAll]

end Node

namespace Rule

variable {c : Catalog} {r : Rule}

/-- The rule with all its arguments converted again. -/
def reread (r : Rule) : Rule :=
  ⟨r.root.reread.narrowedBy (Node.rereadAll r.rest), Node.rereadAll r.rest⟩

theorem build_config (h : r.Settled c) (hv : r.isValid = true) :
    ({} : Rule).build c r.config = r.reread := by
  have hall := (isValid_iff h).1 hv
  have hread := Node.readsAs_level h.root (hall r.root List.mem_cons_self) h.follows
  have hload : Node.load c r.root.level {} = r.root.reread.narrowedBy [] := by
    have := Node.load_of_readsAs h.root hread
    rwa [h.scope] at this
  have hbelow := Node.below_levels (n := r.root) (m := r.root.reread.narrowedBy []) rfl
    ((Node.childScope_narrowedBy _ _).trans (Node.childScope_reread r.root)) h.follows
    fun k hk => hall k (List.mem_cons_of_mem _ hk)
  show (⟨(Node.load c r.root.level {}).narrowedBy _, _⟩ : Rule) = _
  simp only [config, hload, hbelow, Node.narrowedBy_narrowedBy, reread]

/-- The text of a valid rule reopens as the rule with all its arguments converted again. -/
theorem ofText_text (h : r.Settled c) (hv : r.isValid = true) : ofText c r.text = .ok r.reread :=
  ofText_eq_ok_iff.2 ⟨r.config, parse_text_of_settled h hv, build_config h hv⟩

end Rule

end Segmentation

import Segmentation.Catalog.Stock
import Segmentation.Proofs.Rule.Origin
import Segmentation.Proofs.Rule.Reopening

/-!
# The text of a rule tells it apart

Two valid rules over one catalog that have one text are the same in all their parts, however they
came about. The text gives the levels of the nodes; with the scope, which comes from the node above,
a level gives the field and the operation that are found, and so the kinds of the slots; and among
finite values of one kind the text tells the values apart. Main statements:

* `resolve_eq_of_level`: scope and level decide a resolved node;
* `chain_eq_of_levels`: a node and the levels below it decide the chain below it;
* `eq_of_text`: the text decides the rule.
-/

namespace Segmentation

/-- Finite arguments that fit the same slots are the same if all their texts are. -/
theorem arguments_eq_of_raw {slots : List Slot} {as bs : List (Option Value)}
    (ha : fit slots as = as) (hb : fit slots bs = bs)
    (hfa : ∀ (i : Nat) v, as[i]?.join = some v → v.isFinite = true)
    (hfb : ∀ (i : Nat) v, bs[i]?.join = some v → v.isFinite = true)
    (h : ∀ i : Nat, as[i]?.join.map Value.raw = bs[i]?.join.map Value.raw) : as = bs := by
  have hka := (fit_eq_self_iff.1 ha).2
  have hkb := (fit_eq_self_iff.1 hb).2
  rw [← ha, ← hb]
  refine List.ext_getElem? fun i => ?_
  rw [getElem?_fit, getElem?_fit]
  cases hs : slots[i]? with
  | none => rfl
  | some slot =>
    have hi := h i
    have hplace : as[i]?.join = bs[i]?.join := by
      cases hv : as[i]?.join with
      | none =>
        rw [hv, Option.map_none, eq_comm, Option.map_eq_none_iff] at hi
        rw [hi]
      | some v =>
        rw [hv, Option.map_some, eq_comm, Option.map_eq_some_iff] at hi
        obtain ⟨w, hw, hraw⟩ := hi
        have hkind : v.kind = w.kind := by
          rw [Kind.accepts_iff.1 (hka i slot v hs hv), Kind.accepts_iff.1 (hkb i slot w hs hw)]
        rw [hw, Value.eq_of_raw (hfa i v hv) (hfb i w hw) hkind hraw.symm]
    rw [hplace]

namespace Node

variable {c : Catalog} {n m : Node} {rest rest' : List Node}

/-- A chain as it stands in a valid rule: in line with the catalog, and all its nodes are resolved
and have finite arguments. -/
structure Sound (c : Catalog) (n : Node) (rest : List Node) : Prop where
  settled : (n.resolve c).narrowedBy rest = n
  follows : n.Follows c rest
  resolved : ∀ k ∈ n :: rest, k.resolution.isSome = true
  isFinite : ∀ k ∈ n :: rest, k.Holds fun _ v => v.isFinite = true

theorem Sound.readsAs (h : n.Sound c rest) : n.ReadsAs n.level (rest.head?.map level) :=
  readsAs_level h.settled (h.resolved n List.mem_cons_self) h.follows

theorem Sound.child {child : Node} (h : n.Sound c (child :: rest)) :
    child.scope = n.childScope ∧ child.Sound c rest := by
  obtain ⟨-, hscope, hchild, hrest⟩ := h.follows
  exact ⟨hscope, hchild, hrest, fun k hk => h.resolved k (List.mem_cons_of_mem _ hk),
    fun k hk => h.isFinite k (List.mem_cons_of_mem _ hk)⟩

/-- The parts of a node that its scope and its level decide first. -/
theorem bare_eq_of_level (hn : n.Sound c rest) (hm : m.Sound c rest') (hscope : n.scope = m.scope)
    (hlevel : n.level = m.level) :
    ({ n with arguments := [], resolution := none } : Node) =
      { m with arguments := [], resolution := none } := by
  rw [← entered_of_readsAs hn.settled hn.readsAs, ← entered_of_readsAs hm.settled hm.readsAs,
    hscope, hlevel]

/-- Scope and level decide a resolved node. -/
theorem resolve_eq_of_level (hn : n.Sound c rest) (hm : m.Sound c rest')
    (hscope : n.scope = m.scope) (hlevel : n.level = m.level) : n.resolve c = m.resolve c := by
  have hbare := bare_eq_of_level hn hm hscope hlevel
  have hslots : n.slots = m.slots := by
    have hfound :
        ({ n with arguments := [], resolution := none } : Node).found? c = m.found? c := by
      rw [hbare]
      rfl
    obtain ⟨r, hr⟩ := Option.isSome_iff_exists.1 (hn.resolved n List.mem_cons_self)
    obtain ⟨p, hp, -⟩ := resolution_of_settled hn.settled hr
    rw [slots_of_found? hn.settled hp, slots_of_found? hm.settled (hfound.symm.trans hp)]
  have hraw (i : Nat) : (n.argument? i).map Value.raw = (m.argument? i).map Value.raw := by
    rw [← hn.readsAs.arguments i, ← hm.readsAs.arguments i, hlevel]
  have harguments : n.arguments = m.arguments :=
    arguments_eq_of_raw (hslots ▸ fit_arguments hn.settled) (fit_arguments hm.settled)
      (hn.isFinite n List.mem_cons_self) (hm.isFinite m List.mem_cons_self) hraw
  -- The nodes agree in all but their resolutions, and those are found anew.
  calc n.resolve c
      = ({ ({ n with arguments := [], resolution := none } : Node) with
          arguments := n.arguments } : Node).resolve c := (resolve_resolution c n none).symm
    _ = ({ ({ m with arguments := [], resolution := none } : Node) with
          arguments := m.arguments } : Node).resolve c := by rw [hbare, harguments]
    _ = m.resolve c := resolve_resolution c m none

/-- The scope of its first node and the levels of its nodes decide a chain. -/
theorem chain_eq_of_levels (hn : n.Sound c rest) (hm : m.Sound c rest') (hscope : n.scope = m.scope)
    (hlevels : (n :: rest).map level = (m :: rest').map level) : n :: rest = m :: rest' := by
  induction rest generalizing n m rest' with
  | nil =>
    obtain ⟨hlevel, hbelow⟩ := List.cons.inj hlevels
    obtain rfl : rest' = [] := List.map_eq_nil_iff.1 hbelow.symm
    rw [← hn.settled, ← hm.settled, resolve_eq_of_level hn hm hscope hlevel]
  | cons child rest ih =>
    obtain ⟨hlevel, hbelow⟩ := List.cons.inj hlevels
    have hresolve := resolve_eq_of_level hn hm hscope hlevel
    cases rest' with
    | nil => cases hbelow
    | cons child' rest' =>
      obtain ⟨hs, hchild⟩ := hn.child
      obtain ⟨hs', hchild'⟩ := hm.child
      -- The nodes give their children one scope, so the chains below are the same as well.
      have hchildScope : child.scope = child'.scope := by
        rw [hs, hs', ← childScope_resolve hn.settled, ← childScope_resolve hm.settled, hresolve]
      have hrest := ih hchild hchild' hchildScope hbelow
      have hnode : n = m := by
        rw [← hn.settled, ← hm.settled, hresolve, hrest]
      rw [hnode, hrest]

end Node

namespace Rule

variable {c : Catalog} {r r₁ r₂ : Rule}

theorem sound_of_reachable (h : Reachable c r) (hv : r.faults = []) : r.root.Sound c r.rest :=
  ⟨h.settled.root, h.settled.follows,
    (isValid_iff h.settled).1 ((faults_eq_nil_iff r).1 hv),
    isFinite_of_reachable h⟩

/-- Of two valid rules over one catalog with one text each is the other. -/
theorem eq_of_text (h₁ : Reachable c r₁) (h₂ : Reachable c r₂) (hv₁ : r₁.faults = [])
    (hv₂ : r₂.faults = []) (h : r₁.text = r₂.text) : r₁ = r₂ := by
  have hs₁ := sound_of_reachable h₁ hv₁
  have hs₂ := sound_of_reachable h₂ hv₂
  have hparse := parse_text_of_settled h₁.settled ((faults_eq_nil_iff r₁).1 hv₁)
  rw [h, parse_text_of_settled h₂.settled ((faults_eq_nil_iff r₂).1 hv₂)] at hparse
  have hlevels : r₁.nodes.map Node.level = r₂.nodes.map Node.level :=
    congrArg Config.levels (Except.ok.inj hparse).symm
  have hscope : r₁.root.scope = r₂.root.scope := h₁.settled.scope.trans h₂.settled.scope.symm
  obtain ⟨hroot, hrest⟩ := List.cons.inj (Node.chain_eq_of_levels hs₁ hs₂ hscope hlevels)
  rw [Rule.mk.injEq]
  exact ⟨hroot, hrest⟩

/-- A range that was cut to its lower bound after it was built. -/
def narrowed : Rule :=
  (({} : Rule).build Stock.catalog
    { head :=
        { operator := some "NOT"
          field := some "duration"
          operation := some "between"
          condition := some "or"
          arguments := .ofList [(0, " -0.0 "), (1, "1.5")] }
      tail := [{ field := some "city", operation := some "equals" }] }).setOperation
    Stock.catalog (some "less_than")

/-- A rule that was moved to the field of `narrowed` and then completed. -/
def completed : Rule :=
  (((({} : Rule).build Stock.catalog
    { head := { field := some "country", condition := some "or" }
      tail := [{ field := some "city", operation := some "equals" }] }).setField
    Stock.catalog (some "duration")).setOperation Stock.catalog (some "less_than")).setArgument
    Stock.catalog 0 "-0e7" |>.1.setNegate true

theorem narrowed_eq_completed :
    Reachable Stock.catalog narrowed ∧ Reachable Stock.catalog completed ∧
      narrowed.faults = [] ∧ completed.faults = [] ∧
      narrowed.text = "not duration:less_than(-0) + city:equals()" ∧
      narrowed.text = completed.text ∧ narrowed = completed := by
  have h₁ : Reachable Stock.catalog narrowed := .setOperation _ (.build _ .empty)
  have h₂ : Reachable Stock.catalog completed :=
    .setNegate _ (.setArgument _ _ (.setOperation _ (.setField _ (.build _ .empty))))
  have hv₁ : narrowed.faults = [] := by decide +kernel
  have hv₂ : completed.faults = [] := by decide +kernel
  have h : narrowed.text = completed.text := by decide +kernel
  exact ⟨h₁, h₂, hv₁, hv₂, by decide +kernel, h, eq_of_text h₁ h₂ hv₁ hv₂ h⟩

end Rule

end Segmentation

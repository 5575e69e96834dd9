import Segmentation.Proofs.Rule.Stepwise
import Segmentation.Proofs.Rule.Validity

/-!
# Joining rules

A configuration may be chained behind the last level of another one that comes to bear. What is
built from both by `or` or `with` has the nodes of the one followed by the nodes of the other: what
comes behind another connector than `and` is looked up everywhere and narrows nothing, so neither
part notices the other one. Main statements:

* `load_setCondition`: the condition of a level has no part in what its node resolves to;
* `chain_chainLast`: the nodes of two configurations that are chained;
* `chainChars_eq_flatMap`: the text of a chain, node by node;
* `joined_of_chainLast`: validity, depth and text of two rules that are joined.
-/

namespace Segmentation

/-! ## Chaining configurations -/

namespace Config

/-- The configuration of a level and the levels below it, with another configuration chained behind
the first level whose condition asks for no child. -/
def chainFrom (condition : Condition) (other : Config) (level : Level) : List Level → Config
  | [] => chain ⟨level, []⟩ condition other
  | next :: levels =>
    if level.conditionOrNone = .none then chain ⟨level, next :: levels⟩ condition other
    else withChild ⟨level, []⟩ (some (chainFrom condition other next levels))

/-- The configuration with another one chained behind its last level that comes to bear. -/
def chainLast (config : Config) (condition : Condition) (other : Config) : Config :=
  chainFrom condition other config.head config.tail

/-- Each level whose condition asks for a child has one. -/
def IsComplete (config : Config) : Prop :=
  ∀ (k : Nat) (level : Level), config.levels[k]? = some level →
    level.conditionOrNone ≠ .none → config.levels[k + 1]?.isSome = true

theorem isComplete_single {level : Level} :
    IsComplete ⟨level, []⟩ ↔ level.conditionOrNone = .none := by
  constructor
  · intro h
    by_contra hc
    exact Bool.false_ne_true (h 0 level rfl hc)
  · rintro h (_ | k) l hl hc
    · cases hl
      exact absurd h hc
    · cases hl

/-- What has to have a child is the last level. -/
theorem isComplete_cons {level next : Level} {levels : List Level} :
    IsComplete ⟨level, next :: levels⟩ ↔ IsComplete ⟨next, levels⟩ := by
  constructor
  · exact fun h k l hl hc => h (k + 1) l hl hc
  · rintro h (_ | k) l hl hc
    · rfl
    · exact h k l hl hc

/-- Chaining behind a level sets its condition and replaces what is below it. -/
theorem chain_of_ne_none {condition : Condition} (h : condition ≠ .none) (level : Level)
    (levels : List Level) (other : Config) :
    chain ⟨level, levels⟩ condition other =
      ⟨{ level with condition := some condition.word }, other.levels⟩ := by
  cases condition with
  | none => exact absurd rfl h
  | and | or | beside => rfl

end Config

/-! ## Nodes -/

namespace Node

variable {c : Catalog} {n : Node} {rest : List Node}

/-- The nodes that are made for a configuration, the first of them in a given scope. -/
def chain (c : Catalog) (scope : Scope) (config : Config) : List Node :=
  let n := load c config.head { scope }
  n.narrowedBy (n.below c config.tail) :: n.below c config.tail

theorem chain_of_below {scope : Scope} {level : Level} {levels : List Level}
    (h : (load c level { scope }).below c levels = rest) :
    chain c scope ⟨level, levels⟩ = (load c level { scope }).narrowedBy rest :: rest := by
  subst h
  rfl

theorem below_cons (h : n.condition ≠ .none) (level : Level) (levels : List Level) :
    n.below c (level :: levels) = chain c n.childScope ⟨level, levels⟩ := by
  rw [below, if_neg h]
  rfl

/-- The nodes of a single level. -/
theorem chain_of_conditionOrNone {level : Level} (h : level.conditionOrNone = .none) (scope : Scope)
    (levels : List Level) :
    chain c scope ⟨level, levels⟩ = [(load c level { scope }).narrowedBy []] := by
  have hcondition : (load c level { scope }).condition = .none :=
    (condition_load c level _).trans h
  exact chain_of_below (below_of_none hcondition levels)

theorem resolve_setCondition (c : Catalog) (n : Node) (condition : Condition) :
    ({ n with condition } : Node).resolve c = { n.resolve c with condition } := by
  have hf : ({ n with condition } : Node).found? c = n.found? c := rfl
  cases h : n.found? c with
  | none => rw [resolve_of_none h, resolve_of_none (hf.trans h)]
  | some p => rw [resolve_of_some h, resolve_of_some (hf.trans h)]

/-- With another condition a level is loaded as before, but for the condition. -/
theorem load_setCondition (c : Catalog) (level : Level) (n : Node) (condition : Condition) :
    n.load c { level with condition := some condition.word } =
      { n.load c level with condition } := by
  have hentered : n.entered { level with condition := some condition.word } =
      { n.entered level with condition } := by
    simp only [entered, Level.isNegated, Condition.ofText?, Condition.ofText_word]
    rfl
  rw [load_eq_withArguments, load_eq_withArguments c level, hentered, resolve_setCondition]
  rfl

/-- Only `and` narrows a node. -/
theorem narrowedBy_of_ne_and (h : n.condition ≠ .and) (below : List Node) :
    n.narrowedBy below = n.narrowedBy [] := by
  obtain ⟨negate, field, operation, arguments, condition, scope, resolution⟩ := n
  cases condition with
  | and => exact absurd rfl h
  | none | or | beside => rfl

/-- What narrows a node is the resolution of the first node below. -/
theorem narrowedBy_congr {rest rest' : List Node}
    (h : rest.head?.map Node.resolution = rest'.head?.map Node.resolution) (n : Node) :
    n.narrowedBy rest = n.narrowedBy rest' := by
  cases rest with
  | nil =>
    cases rest' with
    | nil => rfl
    | cons m' rest' => cases h
  | cons m rest =>
    cases rest' with
    | nil => cases h
    | cons m' rest' =>
      have hr : m.resolution = m'.resolution := Option.some.inj h
      unfold narrowedBy
      cases n.condition <;> simp only [hr]

/-- The nodes of a configuration that is chained behind a single level. -/
theorem chain_chain {condition : Condition} (hne : condition ≠ .none) (hand : condition ≠ .and)
    (level : Level) (levels : List Level) (other : Config) (scope : Scope) :
    chain c scope (Config.chain ⟨level, levels⟩ condition other) =
      { (load c level { scope }).narrowedBy [] with condition } :: chain c .global other := by
  have hscope : childScope { load c level { scope } with condition } = .global := by
    rw [childScope_eq, if_neg hand]
  have hbelow : below c (load c { level with condition := some condition.word } { scope })
      other.levels = chain c .global other := by
    rw [load_setCondition, ← hscope]
    exact below_cons hne other.head other.tail
  rw [Config.chain_of_ne_none hne, chain_of_below hbelow, load_setCondition,
    narrowedBy_of_ne_and hand, narrowedBy_nil, narrowedBy_nil]

/-- The nodes of two configurations that are chained are those of both, one after the other, but for
the condition between them. -/
theorem chain_chainLast {condition : Condition} (hne : condition ≠ .none) (hand : condition ≠ .and)
    {config : Config} (h : config.IsComplete) (other : Config) (scope : Scope) :
    ∃ init last, chain c scope config = init ++ [last] ∧ last.condition = .none ∧
      chain c scope (config.chainLast condition other) =
        init ++ { last with condition } :: chain c .global other := by
  obtain ⟨level, levels⟩ := config
  have hlast {level : Level} (levels : List Level) (scope : Scope)
      (hc : level.conditionOrNone = .none) :
      ∃ init last, chain c scope ⟨level, levels⟩ = init ++ [last] ∧ last.condition = .none ∧
        chain c scope (Config.chain ⟨level, levels⟩ condition other) =
          init ++ { last with condition } :: chain c .global other :=
    ⟨[], _, chain_of_conditionOrNone hc scope levels, (condition_load c level _).trans hc,
      chain_chain hne hand level levels other scope⟩
  induction levels generalizing level scope with
  | nil => exact hlast [] scope (Config.isComplete_single.1 h)
  | cons next levels ih =>
    by_cases hc : level.conditionOrNone = .none
    · have hchain : Config.chainLast ⟨level, next :: levels⟩ condition other =
          Config.chain ⟨level, next :: levels⟩ condition other := if_pos hc
      rw [hchain]
      exact hlast _ scope hc
    · -- The next level begins a configuration of its own, in the scope that the node gives it.
      have hchain : Config.chainLast ⟨level, next :: levels⟩ condition other =
          ⟨level, (Config.chainLast ⟨next, levels⟩ condition other).levels⟩ := if_neg hc
      have hcondition : (load c level { scope }).condition ≠ .none :=
        fun hnone => hc ((condition_load c level _).symm.trans hnone)
      obtain ⟨init, last, hleft, hnone, hright⟩ :=
        ih (load c level { scope }).childScope next (Config.isComplete_cons.1 h)
      have hbelow : below c (load c level { scope }) (next :: levels) = init ++ [last] :=
        (below_cons hcondition next levels).trans hleft
      have hbelow' : below c (load c level { scope })
          (Config.chainLast ⟨next, levels⟩ condition other).levels =
            init ++ { last with condition } :: chain c .global other :=
        (below_cons hcondition _ _).trans hright
      have hnarrow : (load c level { scope }).narrowedBy (init ++ [last]) =
          (load c level { scope }).narrowedBy
            (init ++ { last with condition } :: chain c .global other) :=
        narrowedBy_congr (by cases init <;> rfl) _
      refine ⟨(load c level { scope }).narrowedBy (init ++ [last]) :: init, last,
        chain_of_below hbelow, hnone, ?_⟩
      rw [hchain, hnarrow]
      exact chain_of_below hbelow'

/-! ## Text -/

/-- The characters of a node and of the connector behind it, if there is one. -/
def part (n : Node) : List Char :=
  n.segment ++ n.condition.connector?.getD []

/-- The text of a chain has the parts of its nodes one after the other. -/
theorem chainChars_eq_flatMap (h : n.Follows c rest) :
    n.chainChars rest = (n :: rest).flatMap part := by
  induction rest generalizing n with
  | nil => rw [List.flatMap_singleton, part, chainChars]
  | cons child rest ih =>
    obtain ⟨hc, -, -, hrest⟩ := h
    obtain ⟨connector, hconnector, hchars⟩ := chainChars_cons child rest hc
    have hpart : n.part = n.segment ++ connector := by
      rw [part, hconnector]
      rfl
    rw [hchars, ih hrest, ← List.append_assoc, ← hpart]
    rfl

end Node

/-! ## Rules -/

namespace Rule

variable {c : Catalog} {r : Rule}

theorem nodes_build (c : Catalog) (config : Config) :
    (({} : Rule).build c config).nodes = Node.chain c .global config :=
  rfl

theorem faults_build_eq_nil_iff (c : Catalog) (config : Config) :
    (({} : Rule).build c config).faults = [] ↔
      ∀ n ∈ Node.chain c .global config, n.resolution.isSome = true :=
  (faults_eq_nil_iff _).trans (isValid_iff (settled_build rfl config))

theorem text_eq_flatMap (h : r.Settled c) (hv : r.isValid = true) :
    r.text = String.ofList (r.nodes.flatMap Node.part) := by
  rw [text, chars, if_pos hv, Node.chainChars_eq_flatMap h.follows]
  rfl

/-- Two configurations that are chained by `or` or `with` build a rule that is valid just if what
each of them builds alone is valid. It is as deep as both together, and if it is valid its text is
the text of the one, the connector and the text of the other. -/
theorem joined_of_chainLast (c : Catalog) {config : Config} (h : config.IsComplete)
    {condition : Condition} (hc : condition = .or ∨ condition = .beside) (other : Config) :
    ((({} : Rule).build c (config.chainLast condition other)).faults = [] ↔
      (({} : Rule).build c config).faults = [] ∧ (({} : Rule).build c other).faults = []) ∧
    (({} : Rule).build c (config.chainLast condition other)).depth =
      (({} : Rule).build c config).depth + (({} : Rule).build c other).depth ∧
    ((({} : Rule).build c (config.chainLast condition other)).faults = [] →
      ∃ connector, condition.connector? = some connector ∧
        (({} : Rule).build c (config.chainLast condition other)).text =
          (({} : Rule).build c config).text ++ String.ofList connector ++
            (({} : Rule).build c other).text) := by
  have hne : condition ≠ .none := by rcases hc with rfl | rfl <;> nofun
  have hand : condition ≠ .and := by rcases hc with rfl | rfl <;> nofun
  obtain ⟨init, last, hleft, hlast, hjoined⟩ :=
    Node.chain_chainLast (c := c) hne hand h other .global
  have hs (config : Config) : (({} : Rule).build c config).Settled c := settled_build rfl config
  have hiff : (({} : Rule).build c (config.chainLast condition other)).faults = [] ↔
      (({} : Rule).build c config).faults = [] ∧ (({} : Rule).build c other).faults = [] := by
    rw [faults_build_eq_nil_iff, faults_build_eq_nil_iff, faults_build_eq_nil_iff, hleft, hjoined]
    simp only [List.forall_mem_append, List.forall_mem_cons, List.not_mem_nil, false_implies,
      implies_true, and_true, and_assoc]
  refine ⟨hiff, ?_, fun hv => ?_⟩
  · simp only [depth, nodes_build, hleft, hjoined, List.length_append, List.length_cons,
      List.length_nil]
    omega
  · obtain ⟨hv₁, hv₂⟩ := hiff.1 hv
    obtain ⟨k, -, hk, -⟩ := Condition.joint?_eq_some hne
    refine ⟨k.text, hk, ?_⟩
    rw [text_eq_flatMap (hs _) ((faults_eq_nil_iff _).1 hv),
      text_eq_flatMap (hs _) ((faults_eq_nil_iff _).1 hv₁),
      text_eq_flatMap (hs _) ((faults_eq_nil_iff _).1 hv₂), nodes_build, nodes_build,
      nodes_build, hleft, hjoined]
    -- The parts differ in one place only: nothing stood behind the last node, now the connector.
    have hend : last.part = last.segment := by
      rw [Node.part, hlast]
      exact List.append_nil _
    have hbetween : Node.part { last with condition } = last.segment ++ k.text := by
      rw [Node.part, hk]
      rfl
    simp only [List.flatMap_append, List.flatMap_cons, List.flatMap_nil, List.append_nil, hend,
      hbetween, String.ofList_append, String.append_assoc]

/-- Two levels in one handler. The condition of the second is not known, so what is below it does
not come to bear. -/
def returners : Config where
  head :=
    { field := some "country"
      operation := some "equals"
      condition := some "and"
      arguments := .ofList [(0, "US")] }
  tail := [
    { field := some "returning", condition := some "also", arguments := .ofList [(0, "yes")] },
    { field := some "browser" }]

/-- Two levels in another handler. -/
def readers : Config where
  head :=
    { operator := some "not"
      field := some "device"
      operation := some "contains"
      condition := some "and"
      arguments := .ofList [(0, "phone")] }
  tail := [{ field := some "page_views", operation := some "greater_than" }]

theorem joined_of_chainLast_returners :
    returners.IsComplete ∧
      (({} : Rule).build Stock.catalog (returners.chainLast .or readers)).faults = [] ∧
      (({} : Rule).build Stock.catalog returners).text = "country:equals(US).returning:is(true)" ∧
      (({} : Rule).build Stock.catalog readers).text =
        "not device:contains(phone).page_views:greater_than()" ∧
      (({} : Rule).build Stock.catalog (returners.chainLast .or readers)).depth =
        (({} : Rule).build Stock.catalog returners).depth +
          (({} : Rule).build Stock.catalog readers).depth ∧
      ∃ connector, Condition.connector? .or = some connector ∧
        (({} : Rule).build Stock.catalog (returners.chainLast .or readers)).text =
          (({} : Rule).build Stock.catalog returners).text ++ String.ofList connector ++
            (({} : Rule).build Stock.catalog readers).text := by
  have h : returners.IsComplete :=
    Config.isComplete_cons.2 (Config.isComplete_cons.2 (Config.isComplete_single.2 rfl))
  have hv : (({} : Rule).build Stock.catalog (returners.chainLast .or readers)).faults = [] := by
    decide +kernel
  obtain ⟨-, hdepth, htext⟩ := joined_of_chainLast Stock.catalog h (.inl rfl) readers
  exact ⟨h, hv, by decide +kernel, by decide +kernel, hdepth, htext hv⟩

end Rule

end Segmentation

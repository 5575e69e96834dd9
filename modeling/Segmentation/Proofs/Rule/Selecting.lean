import Segmentation.Catalog.Stock
import Segmentation.Proofs.Catalog.Offered
import Segmentation.Proofs.Rule.Resolving

/-!
# Selecting an operation

There are several ways to ask for an operation: by resolving a field in the catalog, by setting the
operation of a rule, by setting its field, which asks for the operation that the rule has, and by
building a configuration, which asks at each level. All of them give the same answer: an operation
that is offered is selected, and the first of the offer stands in for any other request and for
none. Main statements:

* `answersFor_resolve`, `answersFor_load`, `answersFor_below`: nodes have the operation that answers
  the request;
* `offered_and_selected`: what is offered, and what each way to ask for it selects.
-/

namespace Segmentation

/-! ## Nodes -/

namespace Node

variable {c : Catalog} {n m : Node} {request : Option String}

/-- A node has the operation that answers a request, if it is resolved. -/
def AnswersFor (request : Option String) (n : Node) : Prop :=
  ∀ p, n.resolution = some p → Answers p.valueType.options request n.operation

theorem answersFor_narrowedBy (h : n.AnswersFor request) (below : List Node) :
    (n.narrowedBy below).AnswersFor request := by
  intro p hp
  obtain ⟨q, hq, rfl⟩ := Option.map_eq_some_iff.1 hp
  exact h q hq

theorem answersFor_withArguments (h : n.AnswersFor request) (arguments : List (Option Value)) :
    (n.withArguments arguments).AnswersFor request := by
  intro p hp
  obtain ⟨q, hq, rfl⟩ := Option.map_eq_some_iff.1 hp
  exact h q hq

/-- Asking for the empty key is asking for none. -/
theorem answersFor_resolve (h : n.operation = request ∨ n.operation = nonempty? request) :
    (n.resolve c).AnswersFor request := by
  intro p hp
  cases hf : n.found? c with
  | none =>
    rw [resolve_of_none hf] at hp
    cases hp
  | some q =>
    obtain ⟨field, -, hq⟩ := Option.bind_eq_some_iff.1 hf
    have hrequest : c.resolveField? n.scope field request = some q := by
      rcases h with h | h
      · rw [← h, hq]
      · rw [← Catalog.resolveField?_nonempty?, ← h, hq]
    have hanswer := Catalog.answers_of_resolveField? hrequest
    rw [resolve_of_some hf] at hp ⊢
    obtain rfl := Option.some.inj hp
    exact hanswer

theorem answersFor_load (c : Catalog) (level : Level) (n : Node) :
    (n.load c level).AnswersFor level.operation := by
  rw [load_eq_withArguments]
  exact answersFor_withArguments (answersFor_resolve (.inr rfl)) _

/-- The nodes below a node have the operations that answer the requests of the levels below. -/
theorem answersFor_below {levels : List Level} {k : Nat} {level : Level}
    (hm : (n.below c levels)[k]? = some m) (hlevel : levels[k]? = some level) :
    m.AnswersFor level.operation := by
  induction levels generalizing n k with
  | nil => cases hlevel
  | cons next levels ih =>
    rw [below] at hm
    split at hm
    · cases hm
    · cases k with
      | zero =>
        obtain rfl := Option.some.inj hm
        obtain rfl := Option.some.inj hlevel
        exact answersFor_narrowedBy (answersFor_load c next _) _
      | succ k => exact ih hm hlevel

/-- Whatever operation is asked for, a node that is found has the same field, handler and value
type. -/
theorem found?_operation {p : Predicate} (h : n.found? c = some p) (operation : Option String) :
    ∃ q, ({ n with operation } : Node).found? c = some q ∧ q.toBinding = p.toBinding := by
  obtain ⟨field, hfield, hp⟩ := Option.bind_eq_some_iff.1 h
  obtain ⟨q, hq, hbinding⟩ := Catalog.resolveField?_of_request hp operation
  exact ⟨q, Option.bind_eq_some_iff.2 ⟨field, hfield, hq⟩, hbinding⟩

end Node

/-! ## Rules -/

namespace Rule

variable {c : Catalog} {r s : Rule} {k : Nat} {request : Option String}

theorem operationOptions_of_some {p : Resolution} (h : r.root.resolution = some p) :
    r.operationOptions = p.valueType.options := by
  rw [operationOptions, h]
  rfl

theorem answers_of_root (h : r.root.AnswersFor request) (hr : r.root.resolution ≠ none) :
    Answers r.operationOptions request r.root.operation := by
  obtain ⟨p, hp⟩ := Option.ne_none_iff_exists'.1 hr
  rw [operationOptions_of_some hp]
  exact h p hp

theorem getElem?_nodes_of_descend (h : r.descend? k = some s) : r.nodes[k]? = some s.root := by
  induction k generalizing r with
  | zero =>
    obtain rfl := Option.some.inj h
    rfl
  | succ k ih =>
    obtain ⟨child, hchild, h⟩ := Option.bind_eq_some_iff.1 h
    obtain ⟨root, rest⟩ := r
    cases rest with
    | nil => cases hchild
    | cons m rest =>
      obtain rfl := Option.some.inj hchild
      exact ih h

theorem answersFor_build (c : Catalog) (r : Rule) {config : Config} {level : Level} {n : Node}
    (hlevel : config.levels[k]? = some level) (hn : (r.build c config).nodes[k]? = some n) :
    n.AnswersFor level.operation := by
  cases k with
  | zero =>
    obtain rfl := Option.some.inj hn
    obtain rfl := Option.some.inj hlevel
    exact Node.answersFor_narrowedBy (Node.answersFor_load c config.head r.root) _
  | succ k => exact Node.answersFor_below hn hlevel

/-- Another operation leaves the offer of a settled rule as it is. -/
theorem operationOptions_setOperation (h : r.Settled c) (hr : r.root.resolution ≠ none)
    (request : Option String) :
    (r.setOperation c request).root.resolution ≠ none ∧
      (r.setOperation c request).operationOptions = r.operationOptions := by
  obtain ⟨p, hp⟩ := Option.ne_none_iff_exists'.1 hr
  obtain ⟨q, hq, hbinding, -⟩ := Node.resolution_of_settled h.root hp
  obtain ⟨q', hq', hbinding'⟩ := Node.found?_operation hq (nonempty? request)
  have hresolve := Node.resolve_of_some hq'
  have hset : ∃ p', (r.setOperation c request).root.resolution = some p' ∧
      p'.toBinding = p.toBinding := by
    refine ⟨_, Option.map_eq_some_iff.2 ⟨_, congrArg Node.resolution hresolve, rfl⟩, ?_⟩
    exact hbinding'.trans hbinding.symm
  obtain ⟨p', hp', hsame⟩ := hset
  refine ⟨hp' ▸ Option.some_ne_none p', ?_⟩
  rw [operationOptions_of_some hp', operationOptions_of_some hp, hsame]

/-- The ways to ask for an operation of a rule, and what the rule answers with. -/
structure Selects (c : Catalog) (r : Rule) : Prop where
  /-- Setting the operation does not change what is offered. -/
  setOperation : r.root.resolution ≠ none → ∀ request,
    (r.setOperation c request).operationOptions = r.operationOptions ∧
      Answers r.operationOptions request (r.setOperation c request).root.operation
  /-- A new field is asked for the operation that the rule has. -/
  setField : ∀ field, (r.setField c field).root.resolution ≠ none →
    Answers (r.setField c field).operationOptions r.root.operation
      (r.setField c field).root.operation
  build : ∀ (config : Config) (k : Nat) (level : Level) (s : Rule),
    config.levels[k]? = some level → (r.build c config).descend? k = some s →
      s.root.resolution ≠ none → Answers s.operationOptions level.operation s.root.operation

/-- Every value type offers all its operations, ordered by name, and the operation that stands in
for others is the first of the offer. Resolving a field, setting operation or field of a reachable
rule and building over it all select the operation that is asked for just if it is offered, and the
first of the offer if another one is asked for, or none. -/
theorem offered_and_selected :
    (∀ t : ValueType, t.OffersAll) ∧ ∀ c : Catalog,
      (∀ scope field request p, c.resolveField? scope field request = some p →
        Answers p.valueType.options request (some p.operation.key)) ∧
      ∀ r, Reachable c r → r.Selects c := by
  refine ⟨ValueType.offersAll, fun c => ⟨fun _ _ _ _ => Catalog.answers_of_resolveField?,
    fun r h => ⟨fun hr request => ?_, fun field hr => ?_, fun config k level s hlevel hs hr => ?_⟩⟩⟩
  · obtain ⟨hset, hoptions⟩ := operationOptions_setOperation h.settled hr request
    refine ⟨hoptions, hoptions ▸ answers_of_root ?_ hset⟩
    exact Node.answersFor_narrowedBy (Node.answersFor_resolve (.inr rfl)) _
  · refine answers_of_root ?_ hr
    exact Node.answersFor_narrowedBy (Node.answersFor_resolve (.inl rfl)) _
  · exact answers_of_root (answersFor_build c r hlevel (getElem?_nodes_of_descend hs)) hr

/-- Operations of which two have one name, declared behind one of a later name. -/
def flag : ValueType where
  key := "flag"
  name := "Flag"
  operations := [
    { key := "shown", name := "Shown" },
    { key := "is_set", name := "Is" },
    { key := "is", name := "Is", slots := [Stock.slot "value" .boolean] }]

/-- A field whose values are flags. -/
def banners : Draft where
  valueTypes := [flag]
  handlers := [{ key := "page", name := "Page", fields := [⟨"banner", "Banner", "flag"⟩] }]

/-- The catalog of `banners`. -/
def bannerCatalog : Catalog :=
  ⟨banners, Draft.fault?_eq_none_iff.1 (by decide +kernel)⟩

/-- A configuration that asks for an operation that is offered. -/
def shown : Config where
  head := { field := some "banner", operation := some "shown" }

/-- The two operations of one name are offered as they were declared, and the first of them stands
in for an operation that is not there. -/
theorem offered_and_selected_banners :
    Reachable bannerCatalog (({} : Rule).build bannerCatalog shown) ∧
      (({} : Rule).build bannerCatalog shown).root.resolution ≠ none ∧
      (({} : Rule).build bannerCatalog shown).operationOptions =
        [("Is", "is_set"), ("Is", "is"), ("Shown", "shown")] ∧
      ((({} : Rule).build bannerCatalog shown).setOperation bannerCatalog
        (some "hidden")).root.operation = some "is_set" ∧
      Answers (({} : Rule).build bannerCatalog shown).operationOptions (some "hidden")
        ((({} : Rule).build bannerCatalog shown).setOperation bannerCatalog
          (some "hidden")).root.operation ∧
      Answers (({} : Rule).build bannerCatalog shown).operationOptions (some "shown")
        (({} : Rule).build bannerCatalog shown).root.operation := by
  have h : Reachable bannerCatalog (({} : Rule).build bannerCatalog shown) := .build _ .empty
  have hr : (({} : Rule).build bannerCatalog shown).root.resolution ≠ none := by decide +kernel
  have htype : (({} : Rule).build bannerCatalog shown).root.resolution.map
      (fun p => p.valueType) = some flag := by decide +kernel
  obtain ⟨p, hp, hflag⟩ := Option.map_eq_some_iff.1 htype
  have hoptions : (({} : Rule).build bannerCatalog shown).operationOptions =
      [("Is", "is_set"), ("Is", "is"), ("Shown", "shown")] := by
    rw [operationOptions_of_some hp, hflag]
    simp [flag, ValueType.options, ValueType.operationsByName, Text.sortBy, Text.before,
      List.mergeSort]
  have hselects := (offered_and_selected.2 bannerCatalog).2 _ h
  refine ⟨h, hr, hoptions, by decide +kernel, (hselects.setOperation hr _).2, ?_⟩
  exact ((offered_and_selected.2 bannerCatalog).2 _ .empty).build shown 0 _ _ rfl rfl hr

end Rule

end Segmentation

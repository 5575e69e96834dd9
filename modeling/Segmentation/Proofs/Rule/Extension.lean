import Segmentation.Catalog.Stock
import Segmentation.Proofs.Rule.Expression
import Segmentation.Proofs.Rule.Loading

/-!
# Extended catalogs

A catalog may grow: value types and handlers are declared behind those that are there. New handlers
may use field keys that are taken. As the first handler with a key counts, whatever is found in the
old catalog is found in the new one as well, so a configuration of which every level is found makes
the same rule in both. Main statements:

* `lookup?_of_extends`: a field that was found is found again in the same handler;
* `below_of_extends`: nodes that were all resolved come out the same;
* `build_of_extend`: a configuration that makes a valid rule makes the same rule.
-/

namespace Segmentation

/-- A draft with more declarations behind its own. -/
def Draft.extend (d more : Draft) : Draft where
  valueTypes := d.valueTypes ++ more.valueTypes
  handlers := d.handlers ++ more.handlers

/-! ## Catalogs -/

namespace Catalog

/-- A catalog that begins with the declarations of another one. -/
structure Extends (c' c : Catalog) : Prop where
  valueTypes : c.valueTypes <+: c'.valueTypes
  handlers : c.handlers <+: c'.handlers

theorem extends_of_extend {c c' : Catalog} {more : Draft}
    (h : c'.toDraft = c.toDraft.extend more) : c'.Extends c := by
  have ht : c'.valueTypes = c.valueTypes ++ more.valueTypes := congrArg Draft.valueTypes h
  have hh : c'.handlers = c.handlers ++ more.handlers := congrArg Draft.handlers h
  exact ⟨ht ▸ List.prefix_append .., hh ▸ List.prefix_append ..⟩

variable {c c' : Catalog}

theorem valueType?_of_extends (hx : c'.Extends c) {key : String} {t : ValueType}
    (h : c.valueType? key = some t) : c'.valueType? key = some t := by
  obtain ⟨more, hmore⟩ := hx.valueTypes
  rw [valueType?, ← hmore, List.find?_append, show c.valueTypes.find? _ = some t from h,
    Option.some_or]

theorem bindingIn?_of_extends (hx : c'.Extends c) {key : String} {g : Handler} {b : Binding}
    (h : c.bindingIn? key g = some b) : c'.bindingIn? key g = some b := by
  obtain ⟨hg, hf, ht⟩ := bindingIn?_eq_some_iff.1 h
  exact bindingIn?_eq_some_iff.2 ⟨hg, hf, valueType?_of_extends hx ht⟩

/-- New handlers stand behind the one that was found. -/
theorem lookup?_of_extends (hx : c'.Extends c) {scope : Scope} {key : String} {b : Binding}
    (h : c.lookup? scope key = some b) : c'.lookup? scope key = some b := by
  obtain ⟨before, after, hsplit, hb, hother⟩ := lookup?_eq_some_iff.1 h
  obtain ⟨more, hmore⟩ := hx.handlers
  refine lookup?_eq_some_iff.2 ⟨before, after ++ more.filter scope.includes, ?_,
    bindingIn?_of_extends hx hb, hother⟩
  calc c'.handlersIn scope
    _ = c.handlersIn scope ++ more.filter scope.includes := by
      rw [handlersIn, ← hmore, List.filter_append]
      rfl
    _ = before ++ b.handler :: (after ++ more.filter scope.includes) := by
      rw [hsplit, List.append_assoc, List.cons_append]

theorem resolveField?_of_extends (hx : c'.Extends c) {scope : Scope} {field : String}
    {operation : Option String} {p : Predicate}
    (h : c.resolveField? scope field operation = some p) :
    c'.resolveField? scope field operation = some p := by
  obtain ⟨hb, ho, ha⟩ := resolveField?_eq_some_iff.1 h
  exact resolveField?_eq_some_iff.2 ⟨lookup?_of_extends hx hb, ho, ha⟩

end Catalog

/-! ## Nodes -/

namespace Node

variable {c c' : Catalog} {n : Node}

theorem found?_of_extends (hx : c'.Extends c) {p : Predicate} (h : n.found? c = some p) :
    n.found? c' = some p := by
  obtain ⟨field, hfield, hp⟩ := Option.bind_eq_some_iff.1 h
  exact Option.bind_eq_some_iff.2 ⟨field, hfield, Catalog.resolveField?_of_extends hx hp⟩

theorem resolve_of_extends (hx : c'.Extends c) (h : (n.resolve c).resolution.isSome = true) :
    n.resolve c' = n.resolve c := by
  cases hf : n.found? c with
  | none =>
    rw [resolve_of_none hf] at h
    cases h
  | some p => rw [resolve_of_some hf, resolve_of_some (found?_of_extends hx hf)]

theorem load_of_extends (hx : c'.Extends c) {level : Level}
    (h : (n.load c level).resolution.isSome = true) : n.load c' level = n.load c level := by
  have hresolved : ((n.entered level).resolve c).resolution.isSome = true := by
    rw [load_eq_withArguments] at h
    exact Option.isSome_map.symm.trans h
  rw [load_eq, load_eq, resolve_of_extends hx hresolved]

theorem isSome_resolution_narrowedBy (n : Node) (below : List Node) :
    (n.narrowedBy below).resolution.isSome = n.resolution.isSome :=
  Option.isSome_map

/-- The scope of the first node below comes from a node that is the same in both catalogs, and so on
down the chain. -/
theorem below_of_extends (hx : c'.Extends c) {levels : List Level}
    (h : ∀ m ∈ n.below c levels, m.resolution.isSome = true) :
    n.below c' levels = n.below c levels := by
  induction levels generalizing n with
  | nil =>
    rw [below, below]
    split
    · rfl
    · rename_i hc
      rw [below, if_neg hc] at h
      rw [load_of_extends hx (h _ (List.mem_singleton.2 rfl))]
  | cons level levels ih =>
    rw [below, below]
    split
    · rfl
    · rename_i hc
      rw [below, if_neg hc] at h
      obtain ⟨hchild, hrest⟩ := List.forall_mem_cons.1 h
      rw [isSome_resolution_narrowedBy] at hchild
      simp only [load_of_extends hx hchild, ih hrest]

end Node

/-! ## Rules -/

namespace Rule

/-- A configuration that makes a valid rule makes the same valid rule, node by node with scopes and
resolutions, after more value types and handlers are declared. -/
theorem build_of_extend {d more : Draft} {c c' : Catalog} (hc : d.check = .ok c)
    (hc' : (d.extend more).check = .ok c') {config : Config}
    (hv : (({} : Rule).build c config).faults = []) :
    (({} : Rule).build c' config).faults = [] ∧
      ({} : Rule).build c' config = ({} : Rule).build c config := by
  obtain rfl := Draft.check_eq_ok_iff.1 hc
  have hx : c'.Extends c := Catalog.extends_of_extend (Draft.check_eq_ok_iff.1 hc')
  have hsettled : (({} : Rule).build c config).Settled c := settled_build rfl config
  have hall := (isValid_iff hsettled).1 ((faults_eq_nil_iff _).1 hv)
  obtain ⟨hroot, hrest⟩ := List.forall_mem_cons.1 hall
  have hload : ({} : Node).load c' config.head = ({} : Node).load c config.head :=
    Node.load_of_extends hx ((Node.isSome_resolution_narrowedBy ..).symm.trans hroot)
  have hbuild : ({} : Rule).build c' config = ({} : Rule).build c config := by
    rw [build, build, hload, Node.below_of_extends hx hrest]
  rw [hbuild]
  exact ⟨hv, rfl⟩

/-- A shop that has fields of its own for countries and cities, and prices. -/
def shop : Draft where
  valueTypes := [
    { key := "price"
      name := "Price"
      operations := [Stock.unary .float "equals" "Is"] }]
  handlers := [
    { key := "shop"
      name := "Shop"
      fields := [
        ⟨"country", "Country", "price"⟩,
        ⟨"city", "City", "price"⟩,
        ⟨"total", "Total", "price"⟩] }]

/-- The stock catalog with a shop. -/
def stockWithShop : Catalog :=
  ⟨Stock.draft.extend shop, Draft.fault?_eq_none_iff.1 (by decide +kernel)⟩

/-- A configuration with keys that the shop has as well, before and after `and`. -/
def travelling : Config where
  head :=
    { operator := some "not"
      field := some "country"
      operation := some "equals"
      condition := some "and"
      arguments := .ofList [(0, "US")] }
  tail := [
    { field := some "city", operation := some "above", condition := some "or" },
    { field := some "city", operation := some "starts_with", arguments := .ofList [(0, "A.")] }]

theorem build_of_extend_shop :
    Stock.draft.check = .ok Stock.catalog ∧
      (Stock.draft.extend shop).check = .ok stockWithShop ∧
      (({} : Rule).build Stock.catalog travelling).faults = [] ∧
      (({} : Rule).build Stock.catalog travelling).text =
        "not country:equals(US).city:contains() + city:starts_with(\"A\\x2e\")" ∧
      (({} : Rule).build stockWithShop travelling).faults = [] ∧
      ({} : Rule).build stockWithShop travelling = ({} : Rule).build Stock.catalog travelling := by
  have hc : Stock.draft.check = .ok Stock.catalog := Draft.check_eq_ok_iff.2 rfl
  have hc' : (Stock.draft.extend shop).check = .ok stockWithShop := Draft.check_eq_ok_iff.2 rfl
  have hv : (({} : Rule).build Stock.catalog travelling).faults = [] := by decide +kernel
  exact ⟨hc, hc', hv, by decide +kernel, build_of_extend hc hc' hv⟩

end Rule

end Segmentation

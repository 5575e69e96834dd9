import Segmentation.Proofs.Rule.Origin
import Segmentation.Proofs.Rule.Reopening

/-!
# Rules that come back

A rule that is reopened from its text comes back as it was just if every slot recalls its argument:
it has no choices, or the text of the argument picks a choice whose key has that value. In a steady
catalog, such as the stock catalog, all slots of all rules do. In other catalogs a slot can offer a
value under a key that is not the text of the value; the value is then lost.

Main statements:

* `ofText_text_stock`: over the stock catalog every valid rule comes back;
* `text_reopened_iff`: over any catalog, which rules come back with their text;
* `text_not_reopened`: a rule that does not.
-/

namespace Segmentation

namespace Node

variable {c : Catalog} {n : Node} {rest : List Node}

/-! ## Nodes -/

/-- Every slot recalls its argument. -/
def Recalled (n : Node) : Prop :=
  ∀ i slot v, n.slots[i]? = some slot → n.argument? i = some v → slot.Recalls v

theorem rereadArguments_of_recalled (hn : (n.resolve c).narrowedBy rest = n)
    (hfinite : n.Holds fun _ v => v.isFinite = true) (h : n.Recalled) :
    n.rereadArguments = n.arguments := by
  have hfit := fit_arguments hn
  obtain ⟨-, hkind⟩ := fit_eq_self_iff.1 hfit
  rw [← hfit]
  refine List.ext_getElem? fun i => ?_
  rw [getElem?_rereadArguments, getElem?_fit]
  cases hs : n.slots[i]? with
  | none => rfl
  | some slot =>
    show some ((n.argument? i).bind _) = some ((n.argument? i).filter _)
    cases hv : n.argument? i with
    | none => rfl
    | some v =>
      have hk := hkind i slot v hs hv
      have hconvert := (Slot.convert_raw_iff hk (hfinite i v hv)).2 (h i slot v hs hv)
      rw [Option.bind_some, hconvert, Option.filter_some_pos hk]
      rfl

theorem reread_of_recalled (hn : (n.resolve c).narrowedBy rest = n)
    (hfinite : n.Holds fun _ v => v.isFinite = true) (h : n.Recalled) : n.reread = n := by
  rw [reread, rereadArguments_of_recalled hn hfinite h, withArguments_arguments hn]

theorem rereadAll_of_recalled (hn : (n.resolve c).narrowedBy rest = n) (h : n.Follows c rest)
    (hfinite : ∀ m ∈ n :: rest, m.Holds fun _ v => v.isFinite = true)
    (hrec : ∀ m ∈ n :: rest, m.Recalled) : rereadAll (n :: rest) = n :: rest := by
  have hroot := reread_of_recalled hn (hfinite n List.mem_cons_self) (hrec n List.mem_cons_self)
  induction rest generalizing n with
  | nil => rw [rereadAll, hroot, rereadAll, narrowedBy_of_settled hn]
  | cons child rest ih =>
    obtain ⟨-, -, hchild, hrest⟩ := h
    have hfinite' (m : Node) (hm : m ∈ child :: rest) := hfinite m (List.mem_cons_of_mem _ hm)
    have hrec' (m : Node) (hm : m ∈ child :: rest) := hrec m (List.mem_cons_of_mem _ hm)
    have hbelow := ih hchild hrest hfinite' hrec' (reread_of_recalled hchild
      (hfinite' child List.mem_cons_self) (hrec' child List.mem_cons_self))
    rw [rereadAll, hbelow, hroot, narrowedBy_of_settled hn]

theorem level_narrowedBy (n : Node) (below : List Node) : (n.narrowedBy below).level = n.level := by
  unfold level written
  cases hr : n.resolution with
  | none => simp only [narrowedBy, hr, Option.map_none]
  | some r => simp only [narrowedBy, hr, Option.map_some]

theorem map_level_rereadAll (nodes : List Node) :
    (rereadAll nodes).map level = nodes.map fun n => n.reread.level := by
  induction nodes with
  | nil => rfl
  | cons n nodes ih => rw [rereadAll, List.map_cons, List.map_cons, level_narrowedBy, ih]

/-- If a node is read as before once its arguments were converted again, they were recalled. -/
theorem recalled_of_level (hn : (n.resolve c).narrowedBy rest = n)
    (hfinite : n.Holds fun _ v => v.isFinite = true) (hv : n.resolution.isSome = true)
    (h : n.reread.level = n.level) : n.Recalled := by
  intro i slot v hs hi
  obtain ⟨r, hr⟩ := Option.isSome_iff_exists.1 hv
  obtain ⟨p, -, -, -, harguments, -⟩ := resolution_of_settled hn hr
  have hr' : n.reread.resolution = some { r with arguments := n.rereadArguments } := by
    rw [reread, withArguments, hr]
    rfl
  have hget := get?_level hr i
  rw [← h, get?_level hr', Predicate.argument?, Predicate.argument?, harguments] at hget
  have hraw : ((slot.convert v.raw).toOption).map Value.raw = some v.raw := by
    have hleft : n.rereadArguments[i]?.join.map Value.raw = (n.argument? i).map Value.raw := hget
    rw [getElem?_rereadArguments, hs, hi] at hleft
    exact hleft
  -- The text is converted to a value with that text, and there is no other one of this kind.
  obtain ⟨w, hw, hwraw⟩ := Option.map_eq_some_iff.1 hraw
  have hconvert := Except.toOption_eq_some_iff.1 hw
  have hk := (fit_eq_self_iff.1 (fit_arguments hn)).2 i slot v hs hi
  have hkind := (Slot.kind_convert hconvert).trans (Kind.accepts_iff.1 hk).symm
  have hwv : w = v := Value.eq_of_raw (Slot.isFinite_convert hconvert) (hfinite i v hi) hkind hwraw
  exact (Slot.convert_raw_iff hk (hfinite i v hi)).1 (hwv ▸ hconvert)

theorem isSome_resolution_rereadAll {nodes : List Node}
    (h : ∀ n ∈ nodes, n.resolution.isSome = true) :
    ∀ n ∈ rereadAll nodes, n.resolution.isSome = true := by
  induction nodes with
  | nil =>
    intro n hn
    cases hn
  | cons m nodes ih =>
    intro n hn
    rcases List.mem_cons.1 hn with rfl | hn
    · show ((m.resolution.map _).map _).isSome = true
      rw [Option.isSome_map, Option.isSome_map]
      exact h m List.mem_cons_self
    · exact ih (fun k hk => h k (List.mem_cons_of_mem _ hk)) n hn

end Node

/-! ## Rules -/

namespace Rule

variable {c : Catalog} {r : Rule}

theorem reread_of_recalled (h : Reachable c r) (hrec : ∀ n ∈ r.nodes, n.Recalled) :
    r.reread = r := by
  have hs := h.settled
  have hall := Node.rereadAll_of_recalled hs.root hs.follows (isFinite_of_reachable h) hrec
  obtain ⟨hroot, hrest⟩ := List.cons.inj hall
  show (⟨r.root.reread.narrowedBy (Node.rereadAll r.rest), Node.rereadAll r.rest⟩ : Rule) = r
  rw [hroot, hrest]

theorem isValid_reread (h : r.Settled c) (hv : r.isValid = true) : r.reread.isValid = true := by
  have hs := (Reachable.ofText (ofText_text h hv)).settled
  exact (isValid_iff hs).2 (Node.isSome_resolution_rereadAll ((isValid_iff h).1 hv))

/-- A rule that has the same text after all its arguments are converted again had them recalled. -/
theorem recalled_of_text (h : Reachable c r) (hv : r.isValid = true)
    (htext : r.reread.text = r.text) : ∀ n ∈ r.nodes, n.Recalled := by
  have hs := h.settled
  have hs' := (Reachable.ofText (ofText_text hs hv)).settled
  have hparse := parse_text_of_settled hs' (isValid_reread hs hv)
  rw [htext, parse_text_of_settled hs hv] at hparse
  have hconfig := Except.ok.inj hparse
  have hlevels : r.nodes.map Node.level = (Node.rereadAll r.nodes).map Node.level :=
    congrArg Config.levels hconfig
  rw [Node.map_level_rereadAll] at hlevels
  intro n hn
  obtain ⟨k, hk⟩ := List.getElem?_of_mem hn
  have hsettled := (Node.settled_getElem? hs.root hs.follows hk).1
  exact Node.recalled_of_level hsettled (isFinite_of_reachable h n hn)
    ((isValid_iff hs).1 hv n hn) (List.map_inj_left.1 hlevels n hn).symm

/-- In a steady catalog no sequence of changes leaves an argument that its slot does not recall. -/
theorem recalled_of_steady (hc : c.Steady) (h : Reachable c r) : ∀ n ∈ r.nodes, n.Recalled := by
  have hs := h.settled
  have hkept := argument_of_reachable (P := fun i v => ∀ slot, c.HasSlot i slot →
    slot.kind.accepts v = true → slot.Recalls v)
    (fun i slot raw v hslot hv slot' hslot' hk => Catalog.recalls_of_steady hc hslot hslot' hv hk) h
  intro n hn i slot v hslot hv
  obtain ⟨k, hk⟩ := List.getElem?_of_mem hn
  have hsettled := (Node.settled_getElem? hs.root hs.follows hk).1
  have hkind := (fit_eq_self_iff.1 (Node.fit_arguments hsettled)).2 i slot v hslot hv
  exact hkept n hn i v hv slot (Node.hasSlot_of_settled hsettled hslot) hkind

theorem ofText_text_of_steady (hc : c.Steady) (h : Reachable c r) (hv : r.faults = []) :
    ofText c r.text = .ok r := by
  rw [ofText_text h.settled ((faults_eq_nil_iff r).1 hv),
    reread_of_recalled h (recalled_of_steady hc h)]

/-! ## The stock catalog -/

/-- Over the stock catalog a valid rule is the same after it was stored as text and reopened,
whatever was built and edited before. -/
theorem ofText_text_stock {r : Rule} (h : Reachable Stock.catalog r) (hv : r.faults = []) :
    ofText Stock.catalog r.text = .ok r :=
  ofText_text_of_steady Stock.steady h hv

/-- A rule in which an argument was kept: it was entered as the lower bound of a range. -/
def halved : Rule :=
  (({} : Rule).build Stock.catalog
    { head :=
        { field := some "duration"
          operation := some "between"
          condition := some "and"
          arguments := .ofList [(0, "-0.0"), (1, "1.5")] }
      tail := [
        { operator := some "not"
          field := some "started_at"
          operation := some "within_last"
          arguments := .ofList [(0, "3"), (1, "Weeks")] }] }).setOperation
    Stock.catalog (some "less_than")

theorem ofText_text_halved :
    Reachable Stock.catalog halved ∧ halved.faults = [] ∧
      halved.text = "duration:less_than(-0).not started_at:within_last(3, weeks)" ∧
      ofText Stock.catalog halved.text = .ok halved := by
  have h : Reachable Stock.catalog halved := .setOperation _ (.build _ .empty)
  have hv : halved.faults = [] := by decide +kernel
  exact ⟨h, hv, by decide +kernel, ofText_text_stock h hv⟩

/-! ## All catalogs -/

/-- A valid rule can always be reopened, and is valid again; its text is the same just if all slots
recall their arguments. -/
theorem text_reopened_iff (h : Reachable c r) (hv : r.faults = []) :
    ∃ r', ofText c r.text = .ok r' ∧ r'.faults = [] ∧
      (r'.text = r.text ↔ ∀ n ∈ r.nodes, n.Recalled) := by
  have hvalid := (faults_eq_nil_iff r).1 hv
  refine ⟨r.reread, ofText_text h.settled hvalid, ?_, fun htext => ?_, fun hrec => ?_⟩
  · exact (faults_eq_nil_iff _).2 (isValid_reread h.settled hvalid)
  · exact recalled_of_text h hvalid htext
  · rw [reread_of_recalled h hrec]

/-- A catalog that offers truth values as `yes` and `no`. They are written `true` and `false`. -/
def answers : Catalog where
  valueTypes := [
    { key := "flag"
      name := "Flag"
      operations := [
        { key := "is"
          name := "Is"
          slots := [
            { name := "value"
              kind := .boolean
              choices := [⟨"Yes", "yes"⟩, ⟨"No", "no"⟩] }] }] }]
  handlers := [{ key := "user", name := "User", fields := [⟨"active", "Active", "flag"⟩] }]
  wellFormed := Draft.fault?_eq_none_iff.1 (by decide +kernel)

/-- A rule with one of the answers. -/
def answered : Rule :=
  ({} : Rule).build answers
    { head :=
        { field := some "active"
          operation := some "is"
          arguments := .ofList [(0, "yes")] } }

theorem answered_reopened_iff :
    Reachable answers answered ∧ answered.faults = [] ∧
      ∃ r', ofText answers answered.text = .ok r' ∧ r'.faults = [] ∧
        (r'.text = answered.text ↔ ∀ n ∈ answered.nodes, n.Recalled) := by
  have h : Reachable answers answered := .build _ .empty
  have hv : answered.faults = [] := by decide +kernel
  exact ⟨h, hv, text_reopened_iff h hv⟩

/-- The answer is written as `active:is(true)` and reopened as `active:is()`. -/
theorem text_not_reopened :
    answered.faults = [] ∧
      ¬ ∃ r', ofText answers answered.text = .ok r' ∧ r'.text = answered.text := by
  have hs : answered.Settled answers := (Reachable.build _ .empty).settled
  refine ⟨by decide +kernel, fun ⟨r', hr', htext⟩ => ?_⟩
  rw [ofText_text hs (by decide +kernel)] at hr'
  rw [← Except.ok.inj hr'] at htext
  exact absurd htext (by decide +kernel)

end Rule

end Segmentation

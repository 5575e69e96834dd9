import Segmentation.Proofs.Form.ReadBack
import Segmentation.Proofs.Text.Spelling

/-!
# Names of one argument

Several entries of an object can name one argument, as the index in a name may have a plus sign and
zeros in front. The one whose name comes last in the order of texts decides. That is the entry under
the documented name, `argument` and the digits of the index, with one exception: for the index zero
the names with more zeros come after it. Main statements:

* `get?_arguments_iff`: the entry that decides;
* `argumentIndex?_eq_some_iff`: the names of an argument;
* `documented_name_decides`: when the entry under the documented name decides, and which one decides
  otherwise;
* `padded_zero_decides`: an object for which it does not.
-/

namespace Segmentation

namespace Form

variable {entries : List (String × Form)} {i : Nat}

/-! ## The entry that decides -/

/-- The text of an argument is that of the entry with the last name among those that hold a text for
the argument. -/
theorem get?_arguments_iff (hnodup : (entries.map Prod.fst).Nodup) {t : String} :
    (arguments entries).get? i = some t ↔
      ∃ e ∈ entries, heldArgument? e = some (i, t) ∧
        ∀ e' ∈ entries, ∀ s, heldArgument? e' = some (i, s) → e'.1 ≤ e.1 := by
  have hperm := Text.sortBy_perm Prod.fst entries
  have hsorted := Text.pairwise_sortBy Prod.fst entries
  have hdistinct : ((Text.sortBy Prod.fst entries).map Prod.fst).Nodup :=
    (hperm.map Prod.fst).nodup_iff.2 hnodup
  rw [arguments_eq, Arguments.get?_ofList, List.lookup_eq_some_iff]
  simp only [← hperm.mem_iff]
  generalize Text.sortBy Prod.fst entries = sorted at hsorted hdistinct
  constructor
  · rintro ⟨later, earlier, hsplit, hlater⟩
    have hheld := congrArg List.reverse hsplit
    rw [List.reverse_reverse, List.reverse_append, List.reverse_cons, List.append_assoc,
      List.singleton_append] at hheld
    obtain ⟨front, rest, rfl, -, hrest⟩ := List.filterMap_eq_append_iff.1 hheld
    obtain ⟨skipped, e, back, rfl, -, he, hback⟩ := List.filterMap_eq_cons_iff.1 hrest
    rw [← List.append_assoc] at hsorted ⊢
    obtain ⟨-, -, hbefore⟩ := List.pairwise_append.1 hsorted
    refine ⟨e, List.mem_append_right _ List.mem_cons_self, he, fun e' he' s hs => ?_⟩
    rcases List.mem_append.1 he' with he' | he'
    · exact of_decide_eq_true (hbefore e' he' e List.mem_cons_self)
    · rcases List.mem_cons.1 he' with rfl | he'
      · exact String.le_refl _
      · have hmem : (i, s) ∈ later.reverse := hback ▸ List.mem_filterMap.2 ⟨e', he', hs⟩
        exact absurd rfl (bne_iff_ne.1 (hlater _ (List.mem_reverse.1 hmem)))
  · rintro ⟨e, he, htext, hlast⟩
    obtain ⟨front, back, rfl⟩ := List.append_of_mem he
    refine ⟨(back.filterMap heldArgument?).reverse, (front.filterMap heldArgument?).reverse, ?_, ?_⟩
    · rw [List.filterMap_append, List.filterMap_cons_some htext, List.reverse_append,
        List.reverse_cons, List.append_assoc, List.singleton_append]
    · rintro ⟨j, s⟩ hp
      obtain ⟨e', he', hs⟩ := List.mem_filterMap.1 (List.mem_reverse.1 hp)
      refine bne_iff_ne.2 fun hj => ?_
      have hj : i = j := hj
      subst hj
      have hmem : e' ∈ front ++ e :: back := List.mem_append_right _ (List.mem_cons_of_mem _ he')
      have hbehind := (List.pairwise_cons.1 (List.pairwise_append.1 hsorted).2.1).1 e' he'
      have hname : e.1 = e'.1 :=
        String.le_antisymm (of_decide_eq_true hbehind) (hlast e' hmem s hs)
      rw [List.map_append, List.map_cons, List.nodup_append, List.nodup_cons] at hdistinct
      exact hdistinct.2.1.1 (hname ▸ List.mem_map_of_mem he')

/-! ## Names of an argument -/

/-- A name of the argument at an index: its digits behind zeros. -/
def paddedName (zeros i : Nat) : String :=
  String.ofList (argumentName ++ Text.Numeral.spelled zeros i)

/-- A name of the argument at an index: its digits behind a plus sign and zeros. -/
def signedName (zeros i : Nat) : String :=
  String.ofList (argumentName ++ '+' :: Text.Numeral.spelled zeros i)

theorem argumentIndex?_eq_some_iff {name : String} : argumentIndex? name = some i ↔
    i < UInt64.size ∧ ∃ zeros, name = paddedName zeros i ∨ name = signedName zeros i := by
  have hname (cs : List Char) : name = String.ofList cs ↔ name.toList = cs :=
    ⟨fun h => by rw [h, String.toList_ofList], fun h => by rw [← h, String.ofList_toList]⟩
  simp only [paddedName, signedName, hname]
  unfold argumentIndex?
  split
  · rename_i hprefix
    obtain ⟨cs, hcs⟩ := List.isPrefixOf_iff_prefix.1 hprefix
    rw [← hcs, List.drop_left, Option.filter_eq_some_iff, Text.Numeral.natural?_eq_some_iff,
      decide_eq_true_eq, and_comm]
    simp only [List.append_cancel_left_eq]
  · rename_i hprefix
    constructor
    · intro h
      cases h
    · rintro ⟨-, zeros, h | h⟩
      · exact absurd (List.isPrefixOf_iff_prefix.2 ⟨_, h.symm⟩) hprefix
      · exact absurd (List.isPrefixOf_iff_prefix.2 ⟨_, h.symm⟩) hprefix

theorem append_lt {cs ds : List Char} (h : cs < ds) :
    String.ofList (argumentName ++ cs) < String.ofList (argumentName ++ ds) := by
  show (String.ofList _).toList < (String.ofList _).toList
  rw [String.toList_ofList, String.toList_ofList]
  exact List.append_left_lt h

/-- The name with the digits alone comes last, unless the index is zero. -/
theorem paddedName_lt {zeros : Nat} (hz : 0 < zeros) (hi : 0 < i) :
    paddedName zeros i < nameOfArgument i :=
  append_lt (Text.Numeral.spelled_lt_ofNat hz hi)

theorem signedName_lt (zeros more i j : Nat) : signedName zeros i < paddedName more j :=
  append_lt (Text.Numeral.plus_lt_spelled _ _ _)

theorem paddedName_zero_lt {zeros more : Nat} (h : zeros < more) :
    paddedName zeros 0 < paddedName more 0 :=
  append_lt (Text.Numeral.spelled_zero_lt h)

/-! ## Texts under a name -/

/-- The text that an object holds for an argument under a name. -/
def heldText? (entries : List (String × Form)) (name : String) : Option String :=
  (entries.lookup name).bind argument?

theorem heldText?_eq_some_iff (hnodup : (entries.map Prod.fst).Nodup) {name s : String} :
    heldText? entries name = some s ↔ ∃ form, (name, form) ∈ entries ∧ form.argument? = some s := by
  simp only [heldText?, Option.bind_eq_some_iff, lookup_eq_some_iff_mem hnodup]

theorem heldArgument?_eq_some_iff {e : String × Form} {s : String} :
    heldArgument? e = some (i, s) ↔ argumentIndex? e.1 = some i ∧ e.2.argument? = some s := by
  simp only [heldArgument?, Option.bind_eq_some_iff, Option.map_eq_some_iff, Prod.mk.injEq]
  constructor
  · rintro ⟨j, hj, s', hs, rfl, rfl⟩
    exact ⟨hj, hs⟩
  · rintro ⟨hi, hs⟩
    exact ⟨i, hi, s, hs, rfl, rfl⟩

/-- The last of the names of an argument that an object holds a text under. -/
structure LastName (entries : List (String × Form)) (i : Nat) (name : String) : Prop where
  index : argumentIndex? name = some i
  last : ∀ name' s, argumentIndex? name' = some i → heldText? entries name' = some s → name' ≤ name

theorem get?_arguments_iff_lastName (hnodup : (entries.map Prod.fst).Nodup) {t : String} :
    (arguments entries).get? i = some t ↔
      ∃ name, LastName entries i name ∧ heldText? entries name = some t := by
  rw [get?_arguments_iff hnodup]
  constructor
  · rintro ⟨⟨name, form⟩, hmem, hheld, hlast⟩
    obtain ⟨hindex, htext⟩ := heldArgument?_eq_some_iff.1 hheld
    refine ⟨name, ⟨hindex, fun name' s hindex' hs => ?_⟩,
      (heldText?_eq_some_iff hnodup).2 ⟨form, hmem, htext⟩⟩
    obtain ⟨form', hmem', htext'⟩ := (heldText?_eq_some_iff hnodup).1 hs
    exact hlast _ hmem' s (heldArgument?_eq_some_iff.2 ⟨hindex', htext'⟩)
  · rintro ⟨name, ⟨hindex, hlast⟩, ht⟩
    obtain ⟨form, hmem, htext⟩ := (heldText?_eq_some_iff hnodup).1 ht
    refine ⟨_, hmem, heldArgument?_eq_some_iff.2 ⟨hindex, htext⟩, fun e' he' s hs => ?_⟩
    obtain ⟨hindex', htext'⟩ := heldArgument?_eq_some_iff.1 hs
    exact hlast _ s hindex' ((heldText?_eq_some_iff hnodup).2 ⟨e'.2, he', htext'⟩)

theorem lastName_of_pos (hi : 0 < i) (hsize : i < UInt64.size) :
    LastName entries i (nameOfArgument i) := by
  refine ⟨argumentIndex?_nameOfArgument hsize, fun name' s hindex _ => ?_⟩
  obtain ⟨-, zeros, rfl | rfl⟩ := argumentIndex?_eq_some_iff.1 hindex
  · rcases Nat.eq_zero_or_pos zeros with rfl | hz
    · exact String.le_refl _
    · exact String.not_lt.1 (String.lt_asymm (paddedName_lt hz hi))
  · exact String.not_lt.1 (String.lt_asymm (signedName_lt zeros 0 i i))

/-- Of the names of the argument at the index zero the one with the most zeros comes last. -/
theorem lastName_zero_iff {zeros : Nat} : LastName entries 0 (paddedName zeros 0) ↔
    ∀ more, zeros < more → heldText? entries (paddedName more 0) = none := by
  have hindex (zeros : Nat) : argumentIndex? (paddedName zeros 0) = some 0 :=
    argumentIndex?_eq_some_iff.2 ⟨by decide, zeros, .inl rfl⟩
  constructor
  · rintro ⟨-, hlast⟩ more hmore
    refine Option.eq_none_iff_forall_not_mem.2 fun s hs => ?_
    exact String.not_lt.2 (hlast _ s (hindex more) hs) (paddedName_zero_lt hmore)
  · intro hnone
    refine ⟨hindex zeros, fun name' s hindex' hs => ?_⟩
    obtain ⟨-, more, rfl | rfl⟩ := argumentIndex?_eq_some_iff.1 hindex'
    · rcases Nat.lt_trichotomy more zeros with hless | rfl | hmore
      · exact String.not_lt.1 (String.lt_asymm (paddedName_zero_lt hless))
      · exact String.le_refl _
      · rw [hnone more hmore] at hs
        cases hs
    · exact String.not_lt.1 (String.lt_asymm (signedName_lt more zeros 0 0))

end Form

namespace Config

open Form (heldText? nameOfArgument paddedName LastName)

variable {entries : List (String × Form)} {c : Config}

theorem arguments_of_ofForm? (h : ofForm? (.object entries) = some c) :
    c.head.arguments = Form.arguments entries := by
  simp only [ofForm?, Form.levels?, Option.map_eq_some_iff, Option.bind_eq_some_iff] at h
  obtain ⟨⟨head, tail⟩, ⟨level, hlevel, levels, -, heq⟩, rfl⟩ := h
  obtain ⟨rfl, rfl⟩ := Prod.mk.inj heq
  simp only [Form.level?, bind, Option.bind_eq_some_iff, pure, Option.some.injEq] at hlevel
  obtain ⟨_, -, _, -, _, -, _, -, rfl⟩ := hlevel
  rfl

/-- An object that holds a text under the documented name of an argument, `argument` and the digits
of its index, is read as one with this text as the argument just if the index is not zero or the last
of the names of zero with a text holds the same. -/
theorem documented_name_decides (hnodup : (entries.map Prod.fst).Nodup)
    (h : ofForm? (.object entries) = some c) {i : Nat} (hi : i < UInt64.size) {t : String}
    (ht : heldText? entries (nameOfArgument i) = some t) :
    c.head.arguments.get? i = some t ↔
      0 < i ∨ ∃ zeros, heldText? entries (paddedName zeros 0) = some t ∧
        ∀ more, zeros < more → heldText? entries (paddedName more 0) = none := by
  rw [arguments_of_ofForm? h, Form.get?_arguments_iff_lastName hnodup]
  rcases Nat.eq_zero_or_pos i with rfl | hpos
  · simp only [Nat.lt_irrefl, false_or, ← Form.lastName_zero_iff]
    constructor
    · rintro ⟨name, hname, htext⟩
      obtain ⟨-, zeros, rfl | rfl⟩ := Form.argumentIndex?_eq_some_iff.1 hname.index
      · exact ⟨zeros, htext, hname⟩
      · have hle := hname.last _ t (Form.argumentIndex?_nameOfArgument hi) ht
        exact absurd (Form.signedName_lt zeros 0 0 0) (String.not_lt.2 hle)
    · rintro ⟨zeros, htext, hname⟩
      exact ⟨_, hname, htext⟩
  · exact ⟨fun _ => .inl hpos, fun _ => ⟨_, Form.lastName_of_pos hpos hi, ht⟩⟩

/-- An object with four names of one argument, the documented one between others. -/
def manyNames : List (String × Form) := [
  ("argument0010", .text "padded"),
  ("field", .text "country"),
  ("argument10", .boolean true),
  ("argument+10", .number (.whole 5)),
  ("argument010", .text "shorter")]

theorem documented_name_among_many :
    (manyNames.map Prod.fst).Nodup ∧
      heldText? manyNames (nameOfArgument 10) = some "true" ∧
      ∃ c, ofForm? (.object manyNames) = some c ∧ c.head.arguments.get? 10 = some "true" := by
  have hnodup : (manyNames.map Prod.fst).Nodup := by decide
  have htext : heldText? manyNames (nameOfArgument 10) = some "true" := by decide
  obtain ⟨c, hc⟩ : ∃ c, ofForm? (.object manyNames) = some c := ⟨_, rfl⟩
  refine ⟨hnodup, htext, c, hc, ?_⟩
  exact (documented_name_decides hnodup hc (by decide) htext).2 (.inl (by decide))

/-- An object with two names for zero. -/
def twoZeros : List (String × Form) :=
  [("argument0", .text "a"), ("argument00", .text "b")]

/-- The text under the documented name does not become the argument. -/
theorem padded_zero_decides :
    heldText? twoZeros (nameOfArgument 0) = some "a" ∧
      ∃ c, ofForm? (.object twoZeros) = some c ∧ c.head.arguments.get? 0 = some "b" := by
  have hnodup : (twoZeros.map Prod.fst).Nodup := by decide
  obtain ⟨c, hc⟩ : ∃ c, ofForm? (.object twoZeros) = some c := ⟨_, rfl⟩
  refine ⟨by decide, c, hc, ?_⟩
  rw [arguments_of_ofForm? hc, Form.get?_arguments_iff_lastName hnodup]
  refine ⟨paddedName 1 0, Form.lastName_zero_iff.2 fun more hmore => ?_, by decide⟩
  refine Option.eq_none_iff_forall_not_mem.2 fun s hs => ?_
  obtain ⟨form, hmem, -⟩ := (Form.heldText?_eq_some_iff hnodup).1 hs
  have hname : paddedName more 0 ∈ ["argument0", "argument00"] :=
    List.mem_map_of_mem (f := Prod.fst) hmem
  rcases List.mem_cons.1 hname with hname | hname
  · exact String.lt_irrefl _ (hname ▸ Form.paddedName_zero_lt (Nat.lt_trans Nat.zero_lt_one hmore))
  · exact String.lt_irrefl _ (List.mem_singleton.1 hname ▸ Form.paddedName_zero_lt hmore)

end Config

end Segmentation

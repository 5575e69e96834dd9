import Mathlib.Control.Monad.Basic
import Segmentation.Expr.Report
import Segmentation.Proofs.Expr.Derivation

/-!
# Where reading gives up

Reading gives up behind the beginning of an expression. Each reader takes what it takes from the
front of its input, and what it has taken when it gives up can be completed to a text of its kind,
only not by what stands there. Main statements:

* `givesUp_moreArguments`, `givesUp_segment`, `givesUp_rules`: where each reader gives up;
* `begins_of_error`: the place that is reported is a place between two characters of the input, and
  some expression begins with the text before it.
-/

namespace Segmentation.Expr

/-! ## Beginnings -/

/-- The input before the place of a failure begins a text with a property. -/
def GivesUp (P : List Char → Prop) (cs : List Char) (f : Failure) : Prop :=
  ∃ before more, cs = before ++ f.rest ∧ P (before ++ more)

/-- The text of a segment of the grammar. -/
def IsSegment (cs : List Char) : Prop :=
  ∃ s : Segment, s.WellFormed ∧ s.text = cs

/-- The text of arguments after the first, with the parenthesis behind them. -/
def IsArgumentEnd (cs : List Char) : Prop :=
  ∃ more, (∀ p ∈ more, ∀ c ∈ p.1, isGap c = true) ∧ (∀ p ∈ more, ∀ a ∈ p.2, a.WellFormed) ∧
    moreText more ++ [')'] = cs

/-- The text of an expression of the grammar. -/
def IsExpression (cs : List Char) : Prop :=
  ∃ e : Expression, e.WellFormed ∧ e.text = cs

variable {P Q : List Char → Prop} {cs rest : List Char} {f : Failure}

/-- A failure at the very beginning. -/
theorem givesUp_of_rest (hrest : f.rest = cs) {more : List Char} (h : P more) : GivesUp P cs f :=
  ⟨[], more, hrest.symm, h⟩

/-- What was read in front of the input of a reader belongs to the beginning. -/
theorem GivesUp.behind (h : GivesUp P cs f) (front : List Char)
    (hPQ : ∀ text, P text → Q (front ++ text)) : GivesUp Q (front ++ cs) f := by
  obtain ⟨before, more, hcs, hP⟩ := h
  refine ⟨front ++ before, more, ?_, ?_⟩
  · rw [hcs, List.append_assoc]
  · rw [List.append_assoc]
    exact hPQ _ hP

theorem bind_eq_error_iff {α β : Type} {x : Except Failure α} {g : α → Except Failure β} :
    x >>= g = .error f ↔ x = .error f ∨ ∃ a, x = .ok a ∧ g a = .error f := by
  cases x <;> simp [bind, Except.bind]

theorem rest_of_expect {c : Char} (h : expect c cs = .error f) : f.rest = cs := by
  unfold expect at h
  split at h
  · split at h
    · cases h
    · rw [← Except.error.inj h]
  · rw [← Except.error.inj h]

theorem rest_of_key {expected : Expectation} (h : key expected cs = .error f) : f.rest = cs := by
  unfold key at h
  split at h
  · cases h
  · rw [← Except.error.inj h]

/-! ## Arguments -/

theorem givesUp_moreArguments (h : moreArguments cs = .error f) : GivesUp IsArgumentEnd cs f := by
  have hend : IsArgumentEnd [')'] := ⟨[], by simp, by simp, rfl⟩
  fun_induction moreArguments cs with
  | case1 => cases h
  | case2 => cases h
  | case3 r next failure hfailure ih =>
    have hsound := optionalArgument_sound (r.dropWhile isGap)
    have hgap : ∀ c ∈ r.takeWhile isGap, isGap c = true := List.all_eq_true.1 List.all_takeWhile
    have hinput : ',' :: r = ',' :: (r.takeWhile isGap ++ optionalText next.1) ++ next.2 := by
      rw [List.cons_append, List.append_assoc, ← hsound.1, List.takeWhile_append_dropWhile]
    rw [hinput]
    refine (ih (hfailure.trans h)).behind _ ?_
    rintro text ⟨more, hgaps, hmore, rfl⟩
    refine ⟨(r.takeWhile isGap, next.1) :: more, List.forall_mem_cons.2 ⟨hgap, hgaps⟩,
      List.forall_mem_cons.2 ⟨hsound.2, hmore⟩, ?_⟩
    rw [moreText, List.flatMap_cons, ← moreText, List.append_assoc]
  | case4 => exact givesUp_of_rest (by rw [← Except.error.inj h]) hend

/-! ## Segments -/

/-- A segment without arguments. -/
def plainSegment (negated : Bool) (field operation : List Char) : Segment where
  negated
  field
  operation
  first := none
  more := []

theorem isSegment_plain (negated : Bool) {field operation : List Char} (hf : IsIdentifier field)
    (ho : IsIdentifier operation) :
    IsSegment ((if negated then negation else []) ++ (field ++ ':' :: (operation ++ ['(', ')']))) :=
  ⟨plainSegment negated field operation, ⟨hf, ho, nofun, nofun, nofun⟩, rfl⟩

theorem givesUp_segment (h : segment cs = .error f) : GivesUp IsSegment cs f := by
  have hkey : IsIdentifier ['a'] := show Text.isIdentifier (String.ofList ['a']) = true by decide
  have h₀ := negation?_sound cs
  simp only [segment] at h
  generalize negation? cs = start at h h₀
  obtain ⟨negated, r₀⟩ := start
  -- Where a part is missing, what was found before it goes on with the shortest of that part.
  rcases bind_eq_error_iff.1 h with h | ⟨⟨field, r₁⟩, hfield, h⟩
  · refine ⟨if negated then negation else [], ['a', ':', 'a', '(', ')'], ?_, ?_⟩
    · rw [rest_of_key h]
      exact h₀
    · exact isSegment_plain negated hkey hkey
  obtain ⟨h₁, hf⟩ : r₀ = field ++ r₁ ∧ IsIdentifier field := key_sound hfield
  rcases bind_eq_error_iff.1 h with h | ⟨⟨_, r₂⟩, hcolon, h⟩
  · refine ⟨(if negated then negation else []) ++ field, [':', 'a', '(', ')'], ?_, ?_⟩
    · rw [rest_of_expect h, List.append_assoc, ← h₁]
      exact h₀
    · rw [List.append_assoc]
      exact isSegment_plain negated hf hkey
  have h₂ : r₁ = ':' :: r₂ := expect_sound hcolon
  rcases bind_eq_error_iff.1 h with h | ⟨⟨operation, r₃⟩, hoperation, h⟩
  · refine ⟨(if negated then negation else []) ++ (field ++ [':']), ['a', '(', ')'], ?_, ?_⟩
    · rw [rest_of_key h, List.append_assoc, List.append_assoc, List.singleton_append, ← h₂, ← h₁]
      exact h₀
    · rw [List.append_assoc, List.append_assoc]
      exact isSegment_plain negated hf hkey
  obtain ⟨h₃, ho⟩ : r₂ = operation ++ r₃ ∧ IsIdentifier operation := key_sound hoperation
  rcases bind_eq_error_iff.1 h with h | ⟨⟨_, r₄⟩, hopening, h⟩
  · refine ⟨(if negated then negation else []) ++ (field ++ ':' :: operation), ['(', ')'], ?_, ?_⟩
    · rw [rest_of_expect h, List.append_assoc, List.append_assoc, List.cons_append, ← h₃, ← h₂, ← h₁]
      exact h₀
    · rw [List.append_assoc, List.append_assoc, List.cons_append]
      exact isSegment_plain negated hf ho
  have h₄ : r₃ = '(' :: r₄ := expect_sound hopening
  obtain ⟨h₅, ha⟩ := optionalArgument_sound r₄
  rcases bind_eq_error_iff.1 h with h | ⟨_, _, h⟩
  · have hfront : cs = (if negated then negation else []) ++ (field ++ ':' :: (operation ++
        '(' :: optionalText (optionalArgument r₄).1)) ++ (optionalArgument r₄).2 := by
      simp only [List.append_assoc, List.cons_append]
      rw [← h₅, ← h₄, ← h₃, ← h₂, ← h₁]
      exact h₀
    rw [hfront]
    refine (givesUp_moreArguments h).behind _ ?_
    rintro text ⟨more, hgaps, hmore, rfl⟩
    refine ⟨⟨negated, field, operation, (optionalArgument r₄).1, more⟩, ⟨hf, ho, ha, hgaps, hmore⟩, ?_⟩
    simp only [Segment.text, List.append_assoc, List.cons_append]
  · cases h

/-! ## Expressions -/

theorem givesUp_rules (h : rules cs = .error f) : GivesUp IsExpression cs f := by
  have hsingle (text : List Char) : IsSegment text → IsExpression text := by
    rintro ⟨s, hs, rfl⟩
    exact ⟨⟨s, []⟩, ⟨hs, nofun⟩, List.append_nil _⟩
  fun_induction rules cs with
  | case1 cs failure hhead =>
    obtain rfl := Except.error.inj h
    exact (givesUp_segment hhead).behind [] hsingle
  | case2 => cases h
  | case3 cs head rest hhead hconnector hrest =>
    obtain rfl := Except.error.inj h
    obtain ⟨hcs, hw⟩ := segment_sound hhead
    exact ⟨head.text, [], hcs, hsingle _ ⟨head, hw, (List.append_nil _).symm⟩⟩
  | case4 => cases h
  | case5 cs head rest hhead connector next hconnector failure hnext ih =>
    obtain rfl := Except.error.inj h
    obtain ⟨hcs, hw⟩ := segment_sound hhead
    rw [hcs, connector?_sound hconnector, ← List.append_assoc]
    refine (ih hnext).behind _ ?_
    rintro text ⟨e, he, rfl⟩
    refine ⟨⟨head, (connector, e.head) :: e.tail⟩,
      ⟨hw, List.forall_mem_cons.2 ⟨he.head, he.tail⟩⟩, ?_⟩
    simp only [Expression.text, List.flatMap_cons, List.append_assoc]

/-! ## Places -/

theorem byteSize_eq (cs : List Char) : byteSize cs = (String.ofList cs).utf8ByteSize := by
  have hfold (n : Nat) : cs.foldl (fun n c => n + c.utf8Size) n =
      n + (String.ofList cs).utf8ByteSize := by
    induction cs generalizing n with
    | nil => rfl
    | cons c cs ih =>
      rw [List.foldl_cons, ih, String.ofList_cons, String.utf8ByteSize_append,
        String.utf8ByteSize_singleton, Nat.add_assoc]
  rw [byteSize, hfold, Nat.zero_add]

/-- The input without the line breaks at its end. -/
def withoutLineBreaks (s : String) : String :=
  String.ofList (Text.dropEnd isLineBreak s.toList)

theorem read_eq_error_of_parse {s : String} {e : Error} (h : parse s = .error e) :
    read s = .error e := by
  rw [parse] at h
  cases hr : read s with
  | ok _ =>
    rw [hr] at h
    cases h
  | error _ =>
    rw [hr] at h
    rw [Except.error.inj h]

/-- The characters before the place and those from there on are the input, and the former begin an
expression. -/
theorem input_of_error {s : String} {e : Error} (h : read s = .error e) :
    Text.dropEnd isLineBreak s.toList = e.before ++ e.rest ∧
      ∃ more, IsExpression (e.before ++ more) := by
  simp only [read] at h
  split at h
  · cases h
  · rename_i f hf
    obtain rfl := Except.error.inj h
    obtain ⟨before, more, hcs, hmore⟩ := givesUp_rules hf
    have htake : (Text.dropEnd isLineBreak s.toList).take
        ((Text.dropEnd isLineBreak s.toList).length - f.rest.length) = before := by
      rw [hcs, List.length_append, Nat.add_sub_cancel, List.take_left]
    simp only [htake]
    exact ⟨hcs, more, hmore⟩

/-- Where an input is refused, the reported place lies in the input without the line breaks at its
end, on a boundary between characters, and the text before it is the beginning of a text that is
read. -/
theorem begins_of_error {s : String} {e : Error} (h : parse s = .error e) :
    withoutLineBreaks s = String.ofList e.before ++ String.ofList e.rest ∧
      e.offset = (String.ofList e.before).utf8ByteSize ∧
      e.offset ≤ (withoutLineBreaks s).utf8ByteSize ∧
      (⟨e.offset⟩ : String.Pos.Raw).IsValid (withoutLineBreaks s) ∧
      ∃ more c, parse (String.ofList e.before ++ more) = .ok c := by
  obtain ⟨hinput, more, x, hx, hmore⟩ := input_of_error (read_eq_error_of_parse h)
  have hsplit : withoutLineBreaks s = String.ofList e.before ++ String.ofList e.rest := by
    rw [withoutLineBreaks, hinput, String.ofList_append]
  have hoffset : e.offset = (String.ofList e.before).utf8ByteSize := byteSize_eq e.before
  refine ⟨hsplit, hoffset, ?_, ?_, String.ofList more, x.config, ?_⟩
  · rw [hsplit, hoffset, String.utf8ByteSize_append]
    exact Nat.le_add_right _ _
  · rw [String.Pos.Raw.isValid_iff_exists_append]
    exact ⟨_, _, hsplit, congrArg String.Pos.Raw.mk hoffset⟩
  · rw [← String.ofList_append, ← hmore]
    exact parse_text hx

/-- What is found in a text whose second rule has an argument that is not closed. -/
def unclosed : Error where
  before := "a:b(é).not not:is(1, ".toList
  rest := "\"x)".toList
  expected := .comma

theorem begins_of_unclosed :
    parse "a:b(é).not not:is(1, \"x)\r\n" = .error unclosed ∧ unclosed.offset = 22 ∧
      (⟨22⟩ : String.Pos.Raw).IsValid (withoutLineBreaks "a:b(é).not not:is(1, \"x)\r\n") ∧
      ∃ more c, parse (String.ofList unclosed.before ++ more) = .ok c := by
  have h : parse "a:b(é).not not:is(1, \"x)\r\n" = .error unclosed := by decide +kernel
  have hoffset : unclosed.offset = 22 := by decide +kernel
  obtain ⟨-, -, -, hvalid, hbegins⟩ := begins_of_error h
  exact ⟨h, hoffset, hoffset ▸ hvalid, hbegins⟩

end Segmentation.Expr

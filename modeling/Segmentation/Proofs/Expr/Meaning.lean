import Segmentation.Expr.Grammar

/-!
# What an expression says

The configuration of an expression, read off its parts: the text at an index is the argument that
was written at that place, and the levels are those of the segments, each with the condition of the
connector behind it. Main statements:

* `get?_arguments`, `levels_configFrom_cons`: the parts of the configuration;
* `parse_text`: the text of a well-formed expression means what the expression says.
-/

namespace Segmentation.Expr

/-! ## Arguments by place -/

/-- The text that an optional argument stands for. -/
def optionalValue (a : Option Argument) : Option String :=
  a.map fun a => String.ofList a.value

/-- Arguments with the places of a list, numbered from `k`, hold for each number from `k` on what is
written there, and before `k` what they held. -/
theorem get?_foldl_places (places : List (Option Argument)) (k : Nat) (a : Arguments) (i : Nat) :
    (((places.zipIdx k).filterMap fun (argument, i) =>
      argument.map fun a => (i, String.ofList a.value)).foldl (fun a (i, s) => a.insert i s) a).get? i =
      (if k ≤ i then optionalValue places[i - k]?.join else none).or (a.get? i) := by
  induction places generalizing k a with
  | nil => simp [optionalValue]
  | cons p places ih =>
    have hnext (h : k < i) : (p :: places)[i - k]? = places[i - (k + 1)]? := by
      rw [show i - k = i - (k + 1) + 1 by omega, List.getElem?_cons_succ]
    rw [List.zipIdx_cons, List.filterMap_cons]
    cases p with
    | none =>
      simp only [Option.map_none]
      rw [ih]
      by_cases h : k < i
      · rw [if_pos (show k + 1 ≤ i by omega), if_pos (show k ≤ i by omega), hnext h]
      · rw [if_neg (show ¬ k + 1 ≤ i by omega)]
        split
        · obtain rfl : k = i := by omega
          rw [Nat.sub_self]
          rfl
        · rfl
    | some b =>
      simp only [Option.map_some]
      rw [List.foldl_cons, ih, Arguments.get?_insert]
      by_cases h : k < i
      · rw [if_pos (show k + 1 ≤ i by omega), if_pos (show k ≤ i by omega), hnext h,
          if_neg (show ¬ i = k by omega)]
      · rw [if_neg (show ¬ k + 1 ≤ i by omega)]
        by_cases hk : i = k
        · subst hk
          rw [if_pos rfl, if_pos (Nat.le_refl i), Nat.sub_self]
          rfl
        · rw [if_neg hk, if_neg (show ¬ k ≤ i by omega)]

theorem get?_arguments (s : Segment) (i : Nat) :
    s.arguments.get? i = optionalValue s.places[i]?.join := by
  have h := get?_foldl_places s.places 0 {} i
  rw [if_pos (Nat.zero_le i), Nat.sub_zero] at h
  exact h.trans (Option.or_none)

/-! ## Levels -/

/-- A level has the condition of the connector behind its segment, and the next level below it. -/
theorem levels_configFrom_cons (s next : Segment) (k : Connector)
    (rest : List (Connector × Segment)) :
    (configFrom s ((k, next) :: rest)).levels =
      { s.level with condition := some k.condition.word } :: (configFrom next rest).levels := by
  cases k <;> rfl

/-! ## Texts -/

/-- An expression ends with the parenthesis of its last segment. -/
theorem text_eq_append_paren (e : Expression) : ∃ cs, e.text = cs ++ [')'] := by
  obtain ⟨head, tail⟩ := e
  have hsegment (s : Segment) : ∃ cs, s.text = cs ++ [')'] :=
    ⟨(if s.negated then negation else []) ++ (s.field ++ ':' :: (s.operation ++
      '(' :: (optionalText s.first ++ moreText s.more))), by simp [Segment.text]⟩
  show ∃ cs, head.text ++ tailText tail = cs ++ [')']
  induction tail generalizing head with
  | nil =>
    obtain ⟨cs, h⟩ := hsegment head
    exact ⟨cs, by rw [h, tailText, List.flatMap_nil, List.append_nil]⟩
  | cons p tail ih =>
    obtain ⟨k, next⟩ := p
    obtain ⟨cs, h⟩ := ih next
    exact ⟨head.text ++ (k.text ++ cs), by
      rw [tailText_cons, h, List.append_assoc, List.append_assoc]⟩

/-- No character of an expression is taken for a line break behind it. -/
theorem dropEnd_text (e : Expression) : Text.dropEnd isLineBreak e.text = e.text := by
  obtain ⟨cs, h⟩ := text_eq_append_paren e
  rw [h, Text.dropEnd, List.reverse_append, List.reverse_singleton, List.singleton_append,
    List.dropWhile_cons_of_neg (by decide), List.reverse_cons, List.reverse_reverse]

theorem read_text {e : Expression} (h : e.WellFormed) : read (String.ofList e.text) = .ok e := by
  simp only [read, String.toList_ofList, dropEnd_text, rules_eq_ok_iff.2 ⟨h, rfl⟩]

theorem parse_text {e : Expression} (h : e.WellFormed) :
    parse (String.ofList e.text) = .ok e.config := by
  rw [parse, read_text h]
  rfl

end Segmentation.Expr

import Segmentation.Proofs.Expr.Meaning

/-!
# Derivations

A derivation of a text is an expression of the grammar whose text it is, once the line breaks at the
end of the text are taken away. What an expression says about a configuration is stated part by
part, level by level, and without regard to how a configuration is put together (`Expression.Says`).

Main statement: `parse_iff_derivation`. Reading finds a configuration exactly if the text has a
derivation that says it; no text has two derivations; and all other texts are refused. It rests on

* `read_eq_ok_iff`: the reader finds exactly the expressions of the text;
* `says_iff`: what an expression says is its configuration and no other.
-/

namespace Segmentation.Expr

/-- A way to derive a text from the grammar. -/
structure Derivation (s : String) where
  expression : Expression
  wellFormed : expression.WellFormed
  text_eq : expression.text = Text.dropEnd isLineBreak s.toList

/-! ## What an expression says -/

/-- A level has what a segment says, given the connector behind the segment if there is one. -/
structure Segment.Says (s : Segment) (behind : Option Connector) (level : Level) : Prop where
  operator : level.operator = if s.negated then some "not" else none
  field : level.field = some (String.ofList s.field)
  operation : level.operation = some (String.ofList s.operation)
  /-- There is a text at an index just if an argument was written at that place. -/
  arguments : ∀ i, level.arguments.get? i = optionalValue s.places[i]?.join
  condition : level.condition = behind.map fun k => k.condition.word

/-- Levels have what a segment and the segments joined to it say: one level for each, and one below
another just if a connector joins the two. -/
inductive ChainSays : Segment → List (Connector × Segment) → List Level → Prop
  | last {s : Segment} {level : Level} : s.Says none level → ChainSays s [] [level]
  | joined {s next : Segment} {k : Connector} {tail : List (Connector × Segment)} {level : Level}
      {levels : List Level} :
    s.Says (some k) level → ChainSays next tail levels →
      ChainSays s ((k, next) :: tail) (level :: levels)

/-- A configuration has what an expression says. -/
def Expression.Says (e : Expression) (c : Config) : Prop :=
  ChainSays e.head e.tail c.levels

theorem Segment.says_level (s : Segment) (behind : Option Connector) :
    s.Says behind { s.level with condition := behind.map fun k => k.condition.word } :=
  ⟨rfl, rfl, rfl, get?_arguments s, rfl⟩

/-- No two levels have what a segment says. -/
theorem Segment.says_unique {s : Segment} {behind : Option Connector} {level level' : Level}
    (h : s.Says behind level) (h' : s.Says behind level') : level = level' := by
  have harguments : level.arguments = level'.arguments :=
    Arguments.eq_of_get? fun i => (h.arguments i).trans (h'.arguments i).symm
  rw [Level.mk.injEq]
  exact ⟨h.operator.trans h'.operator.symm, h.field.trans h'.field.symm,
    h.operation.trans h'.operation.symm, h.condition.trans h'.condition.symm, harguments⟩

theorem chainSays_configFrom (s : Segment) (tail : List (Connector × Segment)) :
    ChainSays s tail (configFrom s tail).levels := by
  induction tail generalizing s with
  | nil => exact .last (s.says_level none)
  | cons p tail ih =>
    obtain ⟨k, next⟩ := p
    rw [levels_configFrom_cons]
    exact .joined (s.says_level (some k)) (ih next)

theorem chainSays_unique {s : Segment} {tail : List (Connector × Segment)}
    {levels levels' : List Level} (h : ChainSays s tail levels) (h' : ChainSays s tail levels') :
    levels = levels' := by
  induction h generalizing levels' with
  | last h =>
    cases h' with
    | last h' => rw [Segment.says_unique h h']
  | joined h _ ih =>
    cases h' with
    | joined h' hrest => rw [Segment.says_unique h h', ih hrest]

/-- What an expression says is its configuration. -/
theorem says_iff {e : Expression} {c : Config} : e.Says c ↔ c = e.config := by
  have hconfig : e.Says e.config := chainSays_configFrom e.head e.tail
  constructor
  · intro h
    obtain ⟨hhead, htail⟩ := List.cons.inj (chainSays_unique h hconfig)
    rw [Config.mk.injEq]
    exact ⟨hhead, htail⟩
  · rintro rfl
    exact hconfig

/-! ## Texts and their derivations -/

theorem read_eq_ok_iff {s : String} {e : Expression} :
    read s = .ok e ↔ e.WellFormed ∧ e.text = Text.dropEnd isLineBreak s.toList := by
  rw [← rules_eq_ok_iff, read]
  cases rules (Text.dropEnd isLineBreak s.toList) <;> simp

theorem parse_eq_ok_iff {s : String} {c : Config} :
    parse s = .ok c ↔ ∃ e, read s = .ok e ∧ e.config = c := by
  rw [parse]
  cases read s <;> simp [Except.map]

/-- The expression of a derivation is the one that is read. -/
theorem Derivation.read_eq {s : String} (d : Derivation s) : read s = .ok d.expression :=
  read_eq_ok_iff.2 ⟨d.wellFormed, d.text_eq⟩

theorem nonempty_derivation_iff {s : String} :
    Nonempty (Derivation s) ↔ ∃ e, read s = .ok e := by
  constructor
  · rintro ⟨d⟩
    exact ⟨d.expression, d.read_eq⟩
  · rintro ⟨e, he⟩
    obtain ⟨hw, ht⟩ := read_eq_ok_iff.1 he
    exact ⟨⟨e, hw, ht⟩⟩

theorem derivation_unique {s : String} (d d' : Derivation s) : d = d' := by
  have h := d.read_eq.symm.trans d'.read_eq
  rw [Derivation.mk.injEq]
  exact Except.ok.inj h

/-- A text has at most one derivation, reading finds what it says, and a text without one is
refused. -/
theorem parse_iff_derivation (s : String) :
    Subsingleton (Derivation s) ∧
      (∀ c, parse s = .ok c ↔ ∃ d : Derivation s, d.expression.Says c) ∧
      ((∃ e, parse s = .error e) ↔ ¬ Nonempty (Derivation s)) := by
  refine ⟨⟨derivation_unique⟩, fun c => ?_, ?_⟩
  · rw [parse_eq_ok_iff]
    constructor
    · rintro ⟨e, he, rfl⟩
      obtain ⟨hw, ht⟩ := read_eq_ok_iff.1 he
      exact ⟨⟨e, hw, ht⟩, says_iff.2 rfl⟩
    · rintro ⟨d, hd⟩
      exact ⟨d.expression, d.read_eq, (says_iff.1 hd).symm⟩
  · rw [nonempty_derivation_iff, parse]
    cases read s <;> simp [Except.map]

/-- A field may be called `not`, and line breaks at the end do not count. -/
example :
    (parse "not not:is(, \"a\\x2e\").b:in(x)\r\n").toOption = some
      { head :=
          { operator := some "not"
            field := some "not"
            operation := some "is"
            condition := some "and"
            arguments := .ofList [(1, "a.")] }
        tail := [
          { field := some "b"
            operation := some "in"
            arguments := .ofList [(0, "x")] }] } := by
  decide +kernel

end Segmentation.Expr

import Segmentation.Proofs.Rule.Connectors

/-!
# Line endings

A text that was stored may come back with carriage returns in front of its line feeds and with line
breaks behind it. The line feeds of a rule's text are the connectors of `with` and nothing else, and
the reader takes a carriage return and a line feed for the same connector, so the text still means
the same.

Main statements:

* `parse_append`: line breaks behind a text do not count;
* `text_withReturns`: carriage returns in a text are carriage returns in the connectors of its
  expression, provided that its segments have no line feed;
* `parse_withReturns`: the text of a reachable rule means the same with other line endings.
-/

namespace Segmentation

namespace Text

/-- Characters with a carriage return in front of each line feed. -/
def withReturns (cs : List Char) : List Char :=
  cs.flatMap fun c => if c = '\n' then ['\r', '\n'] else [c]

theorem withReturns_append (cs ds : List Char) :
    withReturns (cs ++ ds) = withReturns cs ++ withReturns ds :=
  List.flatMap_append

theorem withReturns_of_not_mem {cs : List Char} (h : '\n' ∉ cs) : withReturns cs = cs := by
  induction cs with
  | nil => rfl
  | cons c cs ih =>
    rw [List.mem_cons, not_or] at h
    obtain ⟨hc, hcs⟩ := h
    rw [withReturns, List.flatMap_cons, ← withReturns, ih hcs, if_neg (Ne.symm hc)]
    rfl

theorem dropEnd_append {p : Char → Bool} {tail : List Char} (h : ∀ c ∈ tail, p c = true)
    (cs : List Char) : dropEnd p (cs ++ tail) = dropEnd p cs := by
  have hreverse : ∀ c ∈ tail.reverse, p c = true := fun c hc => h c (List.mem_reverse.1 hc)
  rw [dropEnd, List.reverse_append, List.dropWhile_append_of_pos hreverse, dropEnd]

end Text

namespace Expr

/-! ## Expressions -/

/-- Line breaks behind a text do not count. -/
theorem parse_append {ending : String} (h : ∀ c ∈ ending.toList, isLineBreak c = true)
    (s : String) : parse (s ++ ending) = parse s := by
  rw [parse, parse, read, read, String.toList_append, Text.dropEnd_append h]

/-- The connector with a carriage return in front of its line feed. -/
def Connector.withReturn : Connector → Connector
  | lineFeed => carriageReturnLineFeed
  | k => k

theorem Connector.condition_withReturn (k : Connector) : k.withReturn.condition = k.condition := by
  cases k <;> rfl

/-- Only a connector that has a carriage return already would get a second one. -/
theorem Connector.text_withReturn {k : Connector} (h : k ≠ .carriageReturnLineFeed) :
    Text.withReturns k.text = k.withReturn.text := by
  cases k with
  | carriageReturnLineFeed => exact absurd rfl h
  | point | plus | lineFeed => rfl

/-- The expression with a carriage return in front of the line feed of each connector. -/
def Expression.withReturns (e : Expression) : Expression :=
  ⟨e.head, e.tail.map fun (k, s) => (k.withReturn, s)⟩

theorem Expression.wellFormed_withReturns {e : Expression} (h : e.WellFormed) :
    e.withReturns.WellFormed :=
  ⟨h.head, List.forall_mem_map.2 h.tail⟩

theorem Expression.config_withReturns (e : Expression) : e.withReturns.config = e.config := by
  obtain ⟨head, tail⟩ := e
  show configFrom head (tail.map fun (k, s) => (k.withReturn, s)) = configFrom head tail
  induction tail generalizing head with
  | nil => rfl
  | cons p tail ih =>
    obtain ⟨k, next⟩ := p
    rw [List.map_cons, configFrom, configFrom, ih, Connector.condition_withReturn]

/-- Line feeds are nowhere but in connectors, and there without carriage returns. -/
structure Expression.LineFed (e : Expression) : Prop where
  head : '\n' ∉ e.head.text
  tail : ∀ p ∈ e.tail, p.1 ≠ .carriageReturnLineFeed ∧ '\n' ∉ p.2.text

theorem withReturns_tailText {tail : List (Connector × Segment)}
    (h : ∀ p ∈ tail, p.1 ≠ .carriageReturnLineFeed ∧ '\n' ∉ p.2.text) :
    Text.withReturns (tailText tail) = tailText (tail.map fun (k, s) => (k.withReturn, s)) := by
  induction tail with
  | nil => rfl
  | cons p tail ih =>
    obtain ⟨k, next⟩ := p
    obtain ⟨⟨hk, hnext⟩, h⟩ := List.forall_mem_cons.1 h
    rw [List.map_cons, tailText_cons, tailText_cons, Text.withReturns_append,
      Text.withReturns_append, Connector.text_withReturn hk, Text.withReturns_of_not_mem hnext,
      ih h]

theorem Expression.text_withReturns {e : Expression} (h : e.LineFed) :
    Text.withReturns e.text = e.withReturns.text := by
  show Text.withReturns (e.head.text ++ tailText e.tail) =
    e.head.text ++ tailText e.withReturns.tail
  rw [Text.withReturns_append, Text.withReturns_of_not_mem h.head, withReturns_tailText h.tail]
  rfl

/-- With carriage returns an expression of the grammar still means the same. -/
theorem parse_withReturns_text {e : Expression} (hw : e.WellFormed) (h : e.LineFed) :
    parse (String.ofList (Text.withReturns e.text)) = .ok e.config := by
  rw [Expression.text_withReturns h, parse_text (Expression.wellFormed_withReturns hw),
    Expression.config_withReturns]

end Expr

/-! ## Rules -/

theorem Condition.joint?_ne_carriageReturn (condition : Condition) :
    condition.joint? ≠ some .carriageReturnLineFeed := by
  cases condition <;> nofun

namespace Node

variable {n : Node} {rest : List Node}

theorem not_mem_text_written (h : n.HasKeys) : '\n' ∉ n.written.text := by
  have hresolved : n.resolution.isSome = true := by
    obtain ⟨p, hp, -⟩ := h
    rw [hp, Option.isSome_some]
  rw [text_written hresolved]
  exact not_mem_segment h (.inr rfl)

/-- Behind a node line feeds are nowhere but in the connectors. -/
theorem lineFed_joined (h : ∀ m ∈ rest, m.HasKeys) :
    ∀ p ∈ n.joined rest, p.1 ≠ .carriageReturnLineFeed ∧ '\n' ∉ p.2.text := by
  induction rest generalizing n with
  | nil => exact List.forall_mem_nil _
  | cons m rest ih =>
    obtain ⟨hm, hrest⟩ := List.forall_mem_cons.1 h
    rw [joined]
    split
    · rename_i k hk
      refine List.forall_mem_cons.2 ⟨⟨?_, not_mem_text_written hm⟩, ih hrest⟩
      rintro rfl
      exact n.condition.joint?_ne_carriageReturn hk
    · exact List.forall_mem_nil _

end Node

namespace Rule

variable {c : Catalog} {r : Rule}

theorem lineFed_expression (h : r.Settled c) (hv : r.isValid = true) : r.expression.LineFed := by
  obtain ⟨hroot, hrest⟩ := List.forall_mem_cons.1 (hasKeys_of_settled h hv)
  exact ⟨Node.not_mem_text_written hroot, Node.lineFed_joined hrest⟩

/-- The text of a valid rule parses, and it parses to the same if it has a carriage return in front
of each line feed and ends with any line breaks. -/
theorem parse_withReturns (h : Reachable c r) (hv : r.faults = []) {ending : String}
    (hending : ∀ x ∈ ending.toList, x = '\r' ∨ x = '\n') :
    ∃ config, Expr.parse r.text = .ok config ∧
      Expr.parse (String.ofList (Text.withReturns r.text.toList) ++ ending) = .ok config := by
  have hs := h.settled
  have hvalid := (faults_eq_nil_iff r).1 hv
  have hbreaks : ∀ x ∈ ending.toList, Expr.isLineBreak x = true := fun x hx => by
    simpa [Expr.isLineBreak] using hending x hx
  refine ⟨r.expression.config, ?_, ?_⟩
  · rw [parse_text_of_settled hs hvalid, config_expression hs]
  · rw [Expr.parse_append hbreaks, text_eq_expression hs hvalid, String.toList_ofList]
    exact Expr.parse_withReturns_text (wellFormed_expression hs hvalid)
      (lineFed_expression hs hvalid)

/-- A rule over three lines, with line breaks inside an argument. -/
def lines : Rule :=
  ({} : Rule).build Stock.catalog
    { head :=
        { field := some "country"
          operation := some "equals"
          condition := some "with"
          arguments := .ofList [(0, "a\r\nb")] }
      tail := [
        { operator := some "not", field := some "city", condition := some "and" },
        { field := some "region", condition := some "with" },
        { field := some "browser" }] }

theorem parse_withReturns_lines :
    Reachable Stock.catalog lines ∧ lines.faults = [] ∧
      (∀ x ∈ "\n\r\r\n".toList, x = '\r' ∨ x = '\n') ∧
      String.ofList (Text.withReturns lines.text.toList) =
        "country:equals(\"a\\r\\nb\")\r\nnot city:contains().region:contains()\r\n" ++
          "browser:contains()" ∧
      ∃ config, Expr.parse lines.text = .ok config ∧
        Expr.parse (String.ofList (Text.withReturns lines.text.toList) ++ "\n\r\r\n") =
          .ok config := by
  have h : Reachable Stock.catalog lines := .build _ .empty
  have hv : lines.faults = [] := by decide +kernel
  have hending : ∀ x ∈ "\n\r\r\n".toList, x = '\r' ∨ x = '\n' := by simp
  exact ⟨h, hv, hending, by decide +kernel, parse_withReturns h hv hending⟩

end Rule

end Segmentation

import Segmentation.Catalog.Stock
import Segmentation.Proofs.Rule.Expression
import Segmentation.Proofs.Text.Split

/-!
# Connectors in the text of a rule

Whoever takes the text of a rule apart looks for its connectors. They stand between the nodes and
nowhere else: keys are identifiers, strings are written with escapes for the characters of
connectors, and in all other values a plus sign is never followed by a blank.

Main statements:

* `avoidsAll_segment`: no connector begins in the segment of a node, whatever is behind it;
* `occurrences_chainChars`, `splitAll_chainChars`: what this says of a chain, by induction on it;
* `connectors_of_text`: the connectors of a text are the conditions of the rule, and splitting the
  text at them gives the segments of its nodes.
-/

namespace Segmentation

open Text (Avoids AvoidsAll occurrences splitAll)

/-! ## Characters of values -/

theorem not_mem_of_class {p : Char → Bool} {cs : List Char} (h : ∀ c ∈ cs, p c = true) {x : Char}
    (hx : p x = false) : x ∉ cs := by
  intro hm
  rw [h x hm] at hx
  cases hx

/-- No character of a connector is written between quotes, but for the blank. -/
theorem Text.Quoted.Item.not_mem_text_escape (c : Char) {x : Char}
    (hx : x = '.' ∨ x = '\n' ∨ x = '+') : x ∉ (escape c).text := by
  unfold escape
  split <;> rcases hx with rfl | rfl | rfl <;> simp_all [Item.text, eq_comm]

theorem Text.Quoted.not_mem_encode (cs : List Char) {x : Char}
    (hx : x = '.' ∨ x = '\n' ∨ x = '+') : x ∉ encode cs := by
  have hquote : x ≠ '"' := by
    rcases hx with rfl | rfl | rfl <;> decide
  intro hm
  rw [encode, List.mem_cons, List.mem_append, List.mem_singleton] at hm
  rcases hm with h | h | h
  · exact hquote h
  · obtain ⟨i, hi, hm⟩ := List.mem_flatMap.1 h
    obtain ⟨c, -, rfl⟩ := List.mem_map.1 hi
    exact Item.not_mem_text_escape c hx hm
  · exact hquote h

/-- A value has no point and no line feed, and no plus sign or else no blank. -/
theorem Value.chars_apart (v : Value) :
    '.' ∉ v.chars ∧ '\n' ∉ v.chars ∧ ('+' ∉ v.chars ∨ ' ' ∉ v.chars) := by
  by_cases hv : v.kind = .string
  · cases v with
    | string s =>
      rw [chars, Text.Quoted.write]
      split
      · rename_i hbare
        have hall := List.all_eq_true.1 (Bool.and_eq_true_iff.1 hbare).2
        exact ⟨not_mem_of_class hall (by decide), not_mem_of_class hall (by decide),
          .inl (not_mem_of_class hall (by decide))⟩
      · exact ⟨Text.Quoted.not_mem_encode _ (by simp), Text.Quoted.not_mem_encode _ (by simp),
          .inl (Text.Quoted.not_mem_encode _ (by simp))⟩
    | _ => cases hv
  · have hall : ∀ c ∈ v.chars, isPlainChar c = true := fun _ hc => isPlainChar_of_mem_chars hv hc
    exact ⟨not_mem_of_class hall (by decide), not_mem_of_class hall (by decide),
      .inr (not_mem_of_class hall (by decide))⟩

/-! ## Predicates -/

theorem mem_intercalate {separator : List Char} {parts : List (List Char)} {x : Char}
    (h : x ∈ separator.intercalate parts) : x ∈ separator ∨ ∃ part ∈ parts, x ∈ part := by
  induction parts with
  | nil => cases h
  | cons part parts ih =>
    cases parts with
    | nil =>
      rw [List.intercalate_singleton] at h
      exact .inr ⟨part, List.mem_cons_self, h⟩
    | cons next parts =>
      rw [List.intercalate_cons_cons, List.mem_append, List.mem_append] at h
      rcases h with (h | h) | h
      · exact .inr ⟨part, List.mem_cons_self, h⟩
      · exact .inl h
      · exact (ih h).imp_right fun ⟨q, hq, hx⟩ => ⟨q, List.mem_cons_of_mem _ hq, hx⟩

namespace Predicate

variable {p : Predicate}

theorem argumentChars_apart (a : Option Value) :
    '.' ∉ argumentChars a ∧ '\n' ∉ argumentChars a ∧
      ('+' ∉ argumentChars a ∨ ' ' ∉ argumentChars a) := by
  cases a with
  | none => simp [argumentChars]
  | some v => exact v.chars_apart

/-- In an argument no plus sign stands before a blank, unless the blank is behind the argument. -/
theorem avoids_argument (a : Option Value) {d : Char} (hd : d ≠ ' ') (rest : List Char) :
    Avoids ['+', ' '] (argumentChars a) (d :: rest) := by
  obtain ⟨-, -, hplus | hblank⟩ := argumentChars_apart a
  · exact Text.avoids_of_not_mem hplus
  · exact Text.avoids_pair hblank hd

theorem avoids_arguments (arguments : List (Option Value)) (rest : List Char) :
    Avoids ['+', ' '] ([',', ' '].intercalate (arguments.map argumentChars)) (')' :: rest) := by
  induction arguments with
  | nil => trivial
  | cons a arguments ih =>
    cases arguments with
    | nil =>
      rw [List.map_cons, List.map_nil, List.intercalate_singleton]
      exact avoids_argument a (by decide) rest
    | cons b arguments =>
      rw [List.map_cons, List.map_cons, List.intercalate_cons_cons, List.append_assoc,
        ← List.map_cons]
      refine Text.avoids_append.2 ⟨avoids_argument a (by decide) _, Text.avoids_append.2 ⟨?_, ih⟩⟩
      exact Text.avoids_of_not_mem (by decide)

/-- The keys of a predicate are identifiers. -/
def HasKeys (p : Predicate) : Prop :=
  Text.isIdentifier p.field.key = true ∧ Text.isIdentifier p.operation.key = true

theorem not_mem_key {key : String} (h : Text.isIdentifier key = true) {x : Char}
    (hx : Text.isIdentifierPart x = false) : x ∉ key.toList := by
  obtain ⟨c, cs, hkey, hc, hcs⟩ := Expr.isIdentifier_ofList.1
    (show Expr.IsIdentifier key.toList by rwa [Expr.IsIdentifier, String.ofList_toList])
  rw [hkey]
  refine not_mem_of_class (p := Text.isIdentifierPart) (fun d hd => ?_) hx
  rcases List.mem_cons.1 hd with rfl | hd
  · exact Text.isIdentifierPart_of_start hc
  · exact hcs d hd

/-- A predicate has no point and no line feed. -/
theorem not_mem_chars (h : p.HasKeys) {x : Char} (hx : x = '.' ∨ x = '\n') : x ∉ p.chars := by
  have hpart : Text.isIdentifierPart x = false := by
    rcases hx with rfl | rfl <;> decide
  have hmark : x ≠ ':' ∧ x ≠ '(' ∧ x ≠ ')' ∧ x ∉ [',', ' '] := by
    rcases hx with rfl | rfl <;> decide
  intro hm
  simp only [chars, List.mem_append, List.mem_cons, List.not_mem_nil, or_false] at hm
  rcases hm with hm | hm | hm | hm | hm | hm
  · exact not_mem_key h.1 hpart hm
  · exact hmark.1 hm
  · exact not_mem_key h.2 hpart hm
  · exact hmark.2.1 hm
  · rcases mem_intercalate hm with hm | ⟨part, hpart, hm⟩
    · exact hmark.2.2.2 hm
    · obtain ⟨a, -, rfl⟩ := List.mem_map.1 hpart
      rcases hx with rfl | rfl
      · exact (argumentChars_apart a).1 hm
      · exact (argumentChars_apart a).2.1 hm
  · exact hmark.2.2.1 hm

/-- In a predicate no plus sign stands before a blank, whatever is behind it. -/
theorem avoids_plus_blank (h : p.HasKeys) (rest : List Char) : Avoids ['+', ' '] p.chars rest := by
  have hmark (d : Char) (hd : d ≠ '+') (cs : List Char) : ¬ ['+', ' '] <+: d :: cs :=
    fun hp => hd (List.cons_prefix_cons.1 hp).1.symm
  refine Text.avoids_append.2 ⟨Text.avoids_of_not_mem (not_mem_key h.1 (by decide)), ?_⟩
  refine ⟨hmark ':' (by decide) _, Text.avoids_append.2 ⟨?_, ?_⟩⟩
  · exact Text.avoids_of_not_mem (not_mem_key h.2 (by decide))
  · refine ⟨hmark '(' (by decide) _, Text.avoids_append.2 ⟨avoids_arguments p.arguments rest, ?_⟩⟩
    exact ⟨hmark ')' (by decide) _, trivial⟩

theorem chars_eq_concat (p : Predicate) : ∃ cs, p.chars = cs ++ [')'] :=
  ⟨p.field.key.toList ++ ':' :: (p.operation.key.toList ++
    '(' :: [',', ' '].intercalate (p.arguments.map argumentChars)), by simp [chars]⟩

end Predicate

/-! ## Connectors -/

/-- The connectors, in the order in which a text is split at them. -/
def connectors : List (List Char) :=
  [['\n'], [' ', '+', ' '], ['.']]

namespace Condition

variable {k l : Condition} {s t : List Char}

theorem mem_connectors : s ∈ connectors ↔ ∃ k : Condition, k.connector? = some s := by
  constructor
  · intro h
    simp only [connectors, List.mem_cons, List.not_mem_nil, or_false] at h
    rcases h with rfl | rfl | rfl
    · exact ⟨.beside, rfl⟩
    · exact ⟨.or, rfl⟩
    · exact ⟨.and, rfl⟩
  · rintro ⟨k, hk⟩
    cases k <;> cases hk <;> simp [connectors]

theorem connector_ne_nil (hk : k.connector? = some s) : s ≠ [] := by
  cases k <;> cases hk <;> simp

/-- No connector begins in another one. -/
theorem avoids_connector (hk : k.connector? = some s) (hl : l.connector? = some t) (h : k ≠ l)
    (rest : List Char) : Avoids s t rest := by
  cases k <;> cases hk <;> cases l <;> cases hl <;> simp_all [Avoids]

/-- No connector begins inside itself either, unless what is behind it completes one. -/
theorem avoids_tail_connector (hk : k.connector? = some s) {rest : List Char}
    (h : ¬ ['+', ' '] <+: rest) : Avoids s s.tail rest := by
  cases k <;> cases hk <;> simp_all [Avoids]

end Condition

/-! ## Nodes -/

namespace Node

variable {c : Catalog} {n : Node} {rest : List Node}

/-- A node has a predicate, and the keys in it are identifiers. -/
def HasKeys (n : Node) : Prop :=
  ∃ r, n.resolution = some r ∧ r.HasKeys

theorem segment_of_some {r : Resolution} (h : n.resolution = some r) :
    n.segment = (if n.negate then ['n', 'o', 't', ' '] else []) ++ r.chars := by
  simp only [segment, h]

theorem segment_eq_concat (h : n.HasKeys) : ∃ cs, n.segment = cs ++ [')'] := by
  obtain ⟨r, hr, -⟩ := h
  obtain ⟨cs, hcs⟩ := r.chars_eq_concat
  rw [segment_of_some hr, hcs, ← List.append_assoc]
  exact ⟨_, rfl⟩

theorem not_mem_segment (h : n.HasKeys) {x : Char} (hx : x = '.' ∨ x = '\n') :
    x ∉ n.segment := by
  obtain ⟨r, hr, hkeys⟩ := h
  rw [segment_of_some hr, List.mem_append, not_or]
  refine ⟨?_, Predicate.not_mem_chars hkeys hx⟩
  rcases hx with rfl | rfl <;> split <;> decide

theorem avoids_plus_blank (h : n.HasKeys) (rest : List Char) :
    Avoids ['+', ' '] n.segment rest := by
  obtain ⟨r, hr, hkeys⟩ := h
  rw [segment_of_some hr]
  refine Text.avoids_append.2 ⟨Text.avoids_of_not_mem ?_, Predicate.avoids_plus_blank hkeys rest⟩
  split <;> decide

/-- No connector begins in the segment of a node, whatever is behind it. -/
theorem avoidsAll_segment (h : n.HasKeys) : AvoidsAll connectors n.segment := by
  intro separator hs rest
  simp only [connectors, List.mem_cons, List.not_mem_nil, or_false] at hs
  rcases hs with rfl | rfl | rfl
  · exact Text.avoids_of_not_mem (not_mem_segment h (.inr rfl))
  · -- The segment ends with a bracket, so a blank in it is before a character of the segment.
    obtain ⟨cs, hcs⟩ := segment_eq_concat h
    have hplus := avoids_plus_blank h rest
    rw [hcs] at hplus ⊢
    exact Text.avoids_concat hplus (by decide)
  · exact Text.avoids_of_not_mem (not_mem_segment h (.inl rfl))

/-- Behind a connector with a segment no further plus sign stands before a blank. -/
theorem not_plus_blank_prefix (h : n.HasKeys) (rest : List Node) :
    ¬ ['+', ' '] <+: n.chainChars rest := by
  obtain ⟨cs, hcs⟩ := segment_eq_concat h
  have hne : n.segment ≠ [] := by simp [hcs]
  obtain ⟨ds, hds⟩ : ∃ ds, n.chainChars rest = n.segment ++ ds := by
    cases rest with
    | nil => exact ⟨_, rfl⟩
    | cons child rest =>
      rw [chainChars]
      split
      · exact ⟨_, rfl⟩
      · exact ⟨[], (List.append_nil _).symm⟩
  rw [hds]
  exact Text.not_prefix_of_avoids (avoids_plus_blank h ds) hne

theorem chainChars_cons (child : Node) (rest : List Node) (h : n.condition ≠ .none) :
    ∃ s, n.condition.connector? = some s ∧
      n.chainChars (child :: rest) = n.segment ++ (s ++ child.chainChars rest) := by
  obtain ⟨k, -, hk, -⟩ := Condition.joint?_eq_some h
  exact ⟨k.text, hk, by simp only [chainChars, hk]⟩

theorem chainChars_nil (h : n.condition = .none) : n.chainChars [] = n.segment := by
  simp [chainChars, h, Condition.connector?]

/-- A connector occurs in the text of a chain as often as its condition joins two nodes. -/
theorem occurrences_chainChars {k : Condition} {s : List Char} (hk : k.connector? = some s)
    (h : n.Follows c rest) (hkeys : ∀ m ∈ n :: rest, m.HasKeys) :
    occurrences s (n.chainChars rest) = ((n :: rest).dropLast.map Node.condition).count k := by
  have hs := Condition.mem_connectors.2 ⟨k, hk⟩
  induction rest generalizing n with
  | nil =>
    have havoids := avoidsAll_segment (hkeys n List.mem_cons_self) s hs []
    rw [chainChars_nil h, ← List.append_nil n.segment, Text.occurrences_append havoids]
    rfl
  | cons child rest ih =>
    obtain ⟨hc, -, -, hrest⟩ := h
    obtain ⟨t, ht, hchars⟩ := chainChars_cons child rest hc
    have hbelow : ∀ m ∈ child :: rest, m.HasKeys := fun m hm => hkeys m (List.mem_cons_of_mem _ hm)
    have havoids := avoidsAll_segment (hkeys n List.mem_cons_self) s hs (t ++ child.chainChars rest)
    rw [hchars, Text.occurrences_append havoids, List.dropLast_cons_cons, List.map_cons,
      List.count_cons, ← ih hrest hbelow]
    by_cases hnk : n.condition = k
    · obtain rfl : s = t := Option.some.inj (hk.symm.trans (hnk ▸ ht))
      have hnext := not_plus_blank_prefix (hbelow child List.mem_cons_self) rest
      rw [Text.occurrences_separator (Condition.connector_ne_nil hk)
        (Condition.avoids_tail_connector hk hnext), if_pos (beq_iff_eq.2 hnk), Nat.add_comm]
    · rw [Text.occurrences_append (Condition.avoids_connector hk ht (Ne.symm hnk) _),
        if_neg (by simpa using hnk), Nat.add_zero]

/-- Splitting the text of a chain at all connectors gives the segments of its nodes. -/
theorem splitAll_chainChars (h : n.Follows c rest) (hkeys : ∀ m ∈ n :: rest, m.HasKeys) :
    splitAll connectors (n.chainChars rest) = (n :: rest).map segment := by
  induction rest generalizing n with
  | nil =>
    have havoids := avoidsAll_segment (hkeys n List.mem_cons_self)
    rw [chainChars_nil h, Text.splitAll_of_avoidsAll havoids]
    rfl
  | cons child rest ih =>
    obtain ⟨hc, -, -, hrest⟩ := h
    obtain ⟨t, ht, hchars⟩ := chainChars_cons child rest hc
    have hother : ∀ s ∈ connectors, s ≠ t → ∀ cs, Avoids s t cs := by
      intro s hs hst
      obtain ⟨k, hk⟩ := Condition.mem_connectors.1 hs
      refine Condition.avoids_connector hk ht fun hkn => hst ?_
      rw [hkn, ht] at hk
      exact (Option.some.inj hk).symm
    rw [hchars, Text.splitAll_joined (Condition.mem_connectors.2 ⟨_, ht⟩)
      (Condition.connector_ne_nil ht) hother (avoidsAll_segment (hkeys n List.mem_cons_self)),
      ih hrest fun m hm => hkeys m (List.mem_cons_of_mem _ hm)]
    rfl

end Node

/-! ## Rules -/

namespace Rule

variable {c : Catalog} {r : Rule}

/-- The conditions that join two nodes of a rule. -/
def links (r : Rule) : List Condition :=
  r.nodes.dropLast.map Node.condition

theorem hasKeys_of_settled (h : r.Settled c) (hv : r.isValid = true) :
    ∀ n ∈ r.nodes, n.HasKeys := by
  intro n hn
  obtain ⟨rest, hsettled⟩ := h.node hn
  obtain ⟨p, hp⟩ := Option.isSome_iff_exists.1 ((isValid_iff h).1 hv n hn)
  exact ⟨p, hp, Node.isIdentifier_of_settled hsettled hp⟩

/-- In the text of a valid rule each connector occurs as often as its condition joins two nodes, and
the pieces between the connectors are those of the nodes: the negation, if there is one, and the
predicate. -/
theorem connectors_of_text (h : Reachable c r) (hv : r.faults = []) :
    r.text.toList.count '.' = r.links.count .and ∧
      occurrences [' ', '+', ' '] r.text.toList = r.links.count .or ∧
      r.text.toList.count '\n' = r.links.count .beside ∧
      (splitAll connectors r.text.toList).length = r.depth ∧
      ∀ (k : Nat) (n : Node), r.nodes[k]? = some n → ∃ p, n.resolution = some p ∧
        (splitAll connectors r.text.toList)[k]? =
          some ((if n.negate then ['n', 'o', 't', ' '] else []) ++ p.chars) := by
  have hs := h.settled
  have hvalid := (faults_eq_nil_iff r).1 hv
  have hkeys := hasKeys_of_settled hs hvalid
  have htext : r.text.toList = r.root.chainChars r.rest := by
    rw [text, chars, if_pos hvalid, String.toList_ofList]
  have hpieces : splitAll connectors r.text.toList = r.nodes.map Node.segment := by
    rw [htext]
    exact Node.splitAll_chainChars hs.follows hkeys
  have hcount {k : Condition} {s : List Char} (hk : k.connector? = some s) :
      occurrences s r.text.toList = r.links.count k := by
    rw [htext]
    exact Node.occurrences_chainChars hk hs.follows hkeys
  refine ⟨?_, hcount rfl, ?_, ?_, fun k n hn => ?_⟩
  · rw [← Text.occurrences_singleton]
    exact hcount rfl
  · rw [← Text.occurrences_singleton]
    exact hcount rfl
  · rw [hpieces, List.length_map]
    rfl
  · obtain ⟨p, hp, -⟩ := hkeys n (List.mem_of_getElem? hn)
    exact ⟨p, hp, by rw [hpieces, List.getElem?_map, hn, Option.map_some, Node.segment_of_some hp]⟩

/-- A rule with points, plus signs and a line feed in its arguments. -/
def joined : Rule :=
  ({} : Rule).build Stock.catalog
    { head :=
        { field := some "country"
          operation := some "equals"
          condition := some "and"
          arguments := .ofList [(0, "a. + b\n")] }
      tail := [
        { field := some "first_seen"
          operation := some "between"
          condition := some "or"
          arguments := .ofList [(0, "+12345-01-05"), (1, "2024-01-01")] },
        { operator := some "not"
          field := some "duration"
          operation := some "greater_than"
          condition := some "with"
          arguments := .ofList [(0, "2.5")] },
        { field := some "city", operation := some "starts_with" }] }

theorem connectors_of_text_joined :
    Reachable Stock.catalog joined ∧ joined.faults = [] ∧
      joined.links = [.and, .or, .beside] ∧
      joined.text =
        "country:equals(\"a\\x2e \\x2b b\\n\").first_seen:between(+12345-01-05, 2024-01-01)" ++
        " + not duration:greater_than(25e-1)\ncity:starts_with()" ∧
      joined.text.toList.count '.' = joined.links.count .and ∧
      occurrences [' ', '+', ' '] joined.text.toList = joined.links.count .or ∧
      joined.text.toList.count '\n' = joined.links.count .beside ∧
      (splitAll connectors joined.text.toList).length = joined.depth ∧
      ∀ (k : Nat) (n : Node), joined.nodes[k]? = some n → ∃ p, n.resolution = some p ∧
        (splitAll connectors joined.text.toList)[k]? =
          some ((if n.negate then ['n', 'o', 't', ' '] else []) ++ p.chars) := by
  have h : Reachable Stock.catalog joined := .build _ .empty
  have hv : joined.faults = [] := by decide +kernel
  exact ⟨h, hv, by decide +kernel, by decide +kernel, connectors_of_text h hv⟩

end Rule

end Segmentation

import Segmentation.Expr.Basic
import Segmentation.Text.Blank

/-!
# Reading expressions

An expression is read from left to right. Each function takes characters and returns what it found
and the characters behind it, or the characters at which it had to give up and what it expected
there. Line breaks at the end of an input do not belong to the expression.

Main statements: `length_lt_of_segment` and `length_le_of_optionalArgument`, which show that reading
goes forward.
-/

namespace Segmentation.Expr

/-- What an input lacks where reading gives up; `other` where a colon, an opening parenthesis or the
end was due. -/
inductive Expectation
  | field
  | operation
  | comma
  | other
  deriving DecidableEq, Repr

/-- Where reading gives up: what is left of the input there, and what was expected. -/
structure Failure where
  rest : List Char
  expected : Expectation
  deriving DecidableEq, Repr

/-- What was read, and the characters behind it. -/
abbrev Read (α : Type) :=
  Except Failure (α × List Char)

/-- An identifier: characters that may begin one, and then characters that may continue it. -/
def identifier? (cs : List Char) : Option (List Char × List Char) :=
  let start := cs.takeWhile Text.isIdentifierStart
  let rest := cs.dropWhile Text.isIdentifierStart
  if start = [] then none
  else some (start ++ rest.takeWhile Text.isIdentifierPart, rest.dropWhile Text.isIdentifierPart)

/-- An argument. Quoted text that has no end is no argument. -/
def argument? : List Char → Option (Argument × List Char)
  | '"' :: cs => (Text.Quoted.read? cs).map fun (items, rest) => (.quoted items, rest)
  | cs =>
    let run := cs.takeWhile isArgumentChar
    if run = [] then none else some (.bare run, cs.dropWhile isArgumentChar)

/-- An argument that may be missing. -/
def optionalArgument (cs : List Char) : Option Argument × List Char :=
  match argument? cs with
  | some (argument, rest) => (some argument, rest)
  | none => (none, cs)

theorem length_le_dropWhile (p : Char → Bool) (cs : List Char) :
    (cs.dropWhile p).length ≤ cs.length :=
  (List.dropWhile_sublist p).length_le

theorem length_le_of_optionalArgument (cs : List Char) :
    (optionalArgument cs).2.length ≤ cs.length := by
  unfold optionalArgument
  split
  · rename_i argument rest h
    unfold argument? at h
    split at h
    · rename_i cs
      obtain ⟨⟨items, r⟩, hr, heq⟩ := Option.map_eq_some_iff.1 h
      obtain ⟨-, rfl⟩ := Prod.mk.inj heq
      have := congrArg List.length (Text.Quoted.eq_of_read? hr).1
      simp only [List.length_append, List.length_cons] at this ⊢
      omega
    · dsimp only at h
      split at h
      · cases h
      · obtain ⟨-, rfl⟩ := Prod.mk.inj (Option.some.inj h)
        exact length_le_dropWhile _ _
  · exact Nat.le_refl _

/-- The arguments after the first up to the closing parenthesis. -/
def moreArguments : List Char → Read (List (List Char × Option Argument))
  | ')' :: rest => .ok ([], rest)
  | ',' :: rest =>
    let gap := rest.takeWhile isGap
    let next := optionalArgument (rest.dropWhile isGap)
    match moreArguments next.2 with
    | .ok (more, rest) => .ok ((gap, next.1) :: more, rest)
    | .error failure => .error failure
  | cs => .error ⟨cs, .comma⟩
termination_by cs => cs.length
decreasing_by
  have h₁ := length_le_of_optionalArgument (rest.dropWhile isGap)
  have h₂ := length_le_dropWhile isGap rest
  simp only [List.length_cons]
  omega

/-- Whether a rule is negated, and what follows. -/
def negation? : List Char → Bool × List Char
  | 'n' :: 'o' :: 't' :: ' ' :: rest => (true, rest)
  | cs => (false, cs)

/-- The characters behind a given one. -/
def expect (c : Char) : List Char → Read Unit
  | d :: rest => if d = c then .ok ((), rest) else .error ⟨d :: rest, .other⟩
  | [] => .error ⟨[], .other⟩

/-- The key of a field or an operation. -/
def key (expected : Expectation) (cs : List Char) : Read (List Char) :=
  match identifier? cs with
  | some found => .ok found
  | none => .error ⟨cs, expected⟩

/-- One rule. -/
def segment (cs : List Char) : Except Failure (Segment × List Char) := do
  let (negated, cs) := negation? cs
  let (field, cs) ← key .field cs
  let ((), cs) ← expect ':' cs
  let (operation, cs) ← key .operation cs
  let ((), cs) ← expect '(' cs
  let (first, cs) := optionalArgument cs
  let (more, cs) ← moreArguments cs
  return ({ negated, field, operation, first, more }, cs)

/-- A connector. -/
def connector? : List Char → Option (Connector × List Char)
  | '.' :: rest => some (.point, rest)
  | ' ' :: '+' :: ' ' :: rest => some (.plus, rest)
  | '\n' :: rest => some (.lineFeed, rest)
  | '\r' :: '\n' :: rest => some (.carriageReturnLineFeed, rest)
  | _ => none

theorem length_lt_of_identifier {cs found rest : List Char}
    (h : identifier? cs = some (found, rest)) : rest.length < cs.length := by
  simp only [identifier?] at h
  split at h
  · cases h
  · rename_i hs
    obtain ⟨-, rfl⟩ := Prod.mk.inj (Option.some.inj h)
    have h₁ := length_le_dropWhile Text.isIdentifierPart (cs.dropWhile Text.isIdentifierStart)
    have h₂ := congrArg List.length
      (List.takeWhile_append_dropWhile (p := Text.isIdentifierStart) (l := cs))
    have h₃ := List.length_pos_iff.2 hs
    rw [List.length_append] at h₂
    omega

theorem length_lt_of_key {expected : Expectation} {cs found rest : List Char}
    (h : key expected cs = .ok (found, rest)) : rest.length < cs.length := by
  unfold key at h
  split at h
  · rename_i hi
    rw [Except.ok.inj h] at hi
    exact length_lt_of_identifier hi
  · cases h

theorem length_lt_of_expect {c : Char} {cs rest : List Char} (h : expect c cs = .ok ((), rest)) :
    rest.length < cs.length := by
  unfold expect at h
  split at h
  · split at h
    · obtain ⟨-, rfl⟩ := Prod.mk.inj (Except.ok.inj h)
      exact Nat.lt_succ_self _
    · cases h
  · cases h

theorem length_lt_of_moreArguments {cs rest : List Char} {more : List (List Char × Option Argument)}
    (h : moreArguments cs = .ok (more, rest)) : rest.length < cs.length := by
  fun_induction moreArguments cs generalizing more rest with
  | case1 r =>
    obtain ⟨-, rfl⟩ := Prod.mk.inj (Except.ok.inj h)
    exact Nat.lt_succ_self _
  | case2 =>
    rename_i r gap next m s hs ih
    obtain ⟨-, rfl⟩ := Prod.mk.inj (Except.ok.inj h)
    have h₁ : next.2.length ≤ _ := length_le_of_optionalArgument (r.dropWhile isGap)
    have h₂ := length_le_dropWhile isGap r
    have h₃ := ih hs
    simp only [List.length_cons]
    omega
  | case3 => cases h
  | case4 => cases h

theorem length_le_negation (cs : List Char) : (negation? cs).2.length ≤ cs.length := by
  unfold negation?
  split
  · simp only [List.length_cons]
    omega
  · exact Nat.le_refl _

theorem length_lt_of_segment {cs rest : List Char} {s : Segment} (h : segment cs = .ok (s, rest)) :
    rest.length < cs.length := by
  simp only [segment, bind, Except.bind, pure, Except.pure] at h
  have h₀ := length_le_negation cs
  split at h
  · cases h
  · rename_i field hfield
    have h₁ := length_lt_of_key hfield
    split at h
    · cases h
    · rename_i colon hcolon
      have h₂ := length_lt_of_expect hcolon
      split at h
      · cases h
      · rename_i operation hoperation
        have h₃ := length_lt_of_key hoperation
        split at h
        · cases h
        · rename_i opening hopening
          have h₄ := length_lt_of_expect hopening
          have h₅ := length_le_of_optionalArgument opening.2
          split at h
          · cases h
          · rename_i more hmore
            have h₆ := length_lt_of_moreArguments hmore
            obtain ⟨-, rfl⟩ := Prod.mk.inj (Except.ok.inj h)
            omega

theorem length_lt_of_connector {cs rest : List Char} {c : Connector}
    (h : connector? cs = some (c, rest)) : rest.length < cs.length := by
  unfold connector? at h
  split at h <;> first
    | (cases h; done)
    | (obtain ⟨-, rfl⟩ := Prod.mk.inj (Option.some.inj h); simp only [List.length_cons]; omega)

/-- A rule and the rules joined to it, up to the end of the input. -/
def rules (cs : List Char) : Except Failure Expression :=
  match _ : segment cs with
  | .error failure => .error failure
  | .ok (head, rest) =>
    match _ : connector? rest with
    | none => if rest = [] then .ok ⟨head, []⟩ else .error ⟨rest, .other⟩
    | some (connector, next) =>
      match rules next with
      | .ok e => .ok ⟨head, (connector, e.head) :: e.tail⟩
      | .error failure => .error failure
termination_by cs.length
decreasing_by
  exact Nat.lt_trans (length_lt_of_connector ‹_›) (length_lt_of_segment ‹_›)

/-- The characters that may end an input without belonging to its expression. -/
def isLineBreak (c : Char) : Bool :=
  c == '\r' || c == '\n'

/-- Why an input is no expression: the characters before the place where reading gave up, those from
there on, and what was expected. -/
structure Error where
  before : List Char
  rest : List Char
  expected : Expectation
  deriving DecidableEq, Repr

/-- The expression in a text. -/
def read (s : String) : Except Error Expression :=
  let cs := Text.dropEnd isLineBreak s.toList
  match rules cs with
  | .ok e => .ok e
  | .error failure =>
    .error ⟨cs.take (cs.length - failure.rest.length), failure.rest, failure.expected⟩

/-- The configuration that a text stands for. -/
def parse (s : String) : Except Error Config :=
  (read s).map Expression.config

end Segmentation.Expr

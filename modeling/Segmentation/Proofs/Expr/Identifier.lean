import Segmentation.Expr.Grammar

/-!
# Keys and identifiers

The check of a key looks at its first character and then at all the others. The reader takes a run of
characters that may begin an identifier, and behind it a run of characters that may continue one. Both
mean the same texts, so a key that was accepted is read back wherever it ends in an expression, and
no other key would be. Main statements:

* `isIdentifierPart_iff`: the characters of identifiers;
* `identifier?_eq_some_iff`: reading takes an identifier that nothing behind it prolongs;
* `identifier?_append_iff`: reading takes just the texts that the check accepts.
-/

namespace Segmentation.Expr

open Text (StopsAt isIdentifier isIdentifierPart)

/-- A letter from `A` to `Z` or from `a` to `z`, a digit from `0` to `9` or an underscore. -/
def IsWordChar (c : Char) : Prop :=
  ('A' ≤ c ∧ c ≤ 'Z') ∨ ('a' ≤ c ∧ c ≤ 'z') ∨ ('0' ≤ c ∧ c ≤ '9') ∨ c = '_'

theorem isIdentifierPart_iff {c : Char} : isIdentifierPart c = true ↔ IsWordChar c := by
  have hpart : isIdentifierPart c = (c.isUpper || c.isLower || c.isDigit || c == '_') := rfl
  have hupper : c.isUpper = decide ('A' ≤ c ∧ c ≤ 'Z') := rfl
  have hlower : c.isLower = (decide ('a' ≤ c) && decide (c ≤ 'z')) := rfl
  have hdigit : c.isDigit = (decide ('0' ≤ c) && decide (c ≤ '9')) := rfl
  simp only [hpart, hupper, hlower, hdigit, Bool.or_eq_true, Bool.and_eq_true, decide_eq_true_eq,
    beq_iff_eq, or_assoc, IsWordChar]

theorem stopsAt_of_not_isWordChar {rest : List Char} (h : ∀ c ∈ rest.head?, ¬ IsWordChar c) :
    StopsAt isIdentifierPart rest :=
  fun c hc => Bool.eq_false_iff.2 fun hpart => h c hc (isIdentifierPart_iff.1 hpart)

/-- What is taken is an identifier, and what is left behind it does not prolong it. -/
theorem identifier?_eq_some_iff {cs found rest : List Char} :
    identifier? cs = some (found, rest) ↔
      cs = found ++ rest ∧ IsIdentifier found ∧ StopsAt isIdentifierPart rest := by
  constructor
  · exact identifier?_sound
  · rintro ⟨rfl, hfound, hrest⟩
    exact identifier?_text hfound hrest

/-- In front of anything that does not prolong it, a text is taken as an identifier, all of it and
nothing more, just if the check of keys accepts it. -/
theorem identifier?_append_iff {s rest : String} (h : ∀ c ∈ rest.toList.head?, ¬ IsWordChar c) :
    identifier? (s ++ rest).toList = some (s.toList, rest.toList) ↔ isIdentifier s = true := by
  have hkey : IsIdentifier s.toList ↔ isIdentifier s = true := by
    rw [IsIdentifier, String.ofList_toList]
  rw [String.toList_append, identifier?_eq_some_iff, hkey]
  constructor
  · rintro ⟨-, hs, -⟩
    exact hs
  · intro hs
    exact ⟨rfl, hs, stopsAt_of_not_isWordChar h⟩

/-- A letter outside ASCII ends an identifier, and a digit does not begin one. -/
theorem identifier?_append_accented :
    (∀ c ∈ "é_9".toList.head?, ¬ IsWordChar c) ∧
      identifier? ("_9caf" ++ "é_9").toList = some ("_9caf".toList, "é_9".toList) ∧
      identifier? ("9caf" ++ "é_9").toList ≠ some ("9caf".toList, "é_9".toList) := by
  have h : ∀ c ∈ "é_9".toList.head?, ¬ IsWordChar c := by simp [IsWordChar]
  refine ⟨h, (identifier?_append_iff h).2 (by decide), fun hread => ?_⟩
  exact absurd ((identifier?_append_iff h).1 hread) (by decide)

end Segmentation.Expr

import Mathlib.Control.Monad.Basic
import Mathlib.Data.List.Forall2
import Segmentation.Proofs.Expr.Derivation

/-!
# Escapes

What a quoted argument stands for is told item by item: a plain character for itself, a backslash
with one of five characters for a fixed one, `\x` with two hexadecimal digits for the ASCII
character with that code, and every other escape for the characters it is written with
(`Item.Denotes`).

The reader keeps to this with one exception. It takes the two characters behind `\x` for a number,
and a number may have a plus sign in place of its first digit; so `\x+5` is read as the character
with the code 5, where its four characters should stay. Main statements:

* `hexDigit?_eq_some_iff`: the hexadecimal digits;
* `denotes_value_iff`: which items the reader gets right;
* `decoded_iff`: what is read for a quoted argument, and when that is what it stands for;
* `signed_code_decoded`: an argument that is read as another one.
-/

namespace Segmentation

namespace Text.Quoted

/-! ## Hexadecimal digits -/

/-- A hexadecimal digit of either case with its value. -/
def IsHexDigit (c : Char) (v : Nat) : Prop :=
  v < 16 ∧ (c = Nat.digitChar v ∨ c = (Nat.digitChar v).toUpper)

instance (c : Char) (v : Nat) : Decidable (IsHexDigit c v) :=
  inferInstanceAs (Decidable (_ ∧ _))

theorem toNat_lt_of_hexDigit? {c : Char} {v : Nat} (h : hexDigit? c = some v) : c.toNat < 128 := by
  have hle (d : Char) (hd : d.toNat < 128) (hc : c ≤ d) : c.toNat < 128 :=
    Nat.lt_of_le_of_lt (UInt32.le_iff_toNat_le.1 hc) hd
  unfold hexDigit? at h
  split at h
  · rename_i hdigit
    simp only [Char.isDigit, Bool.and_eq_true, decide_eq_true_eq] at hdigit
    exact hle '9' (by decide) hdigit.2
  · split at h
    · rename_i hlower
      exact hle 'f' (by decide) hlower.2
    · split at h
      · rename_i hupper
        exact hle 'F' (by decide) hupper.2
      · cases h

theorem hexDigit?_eq_some_iff {c : Char} {v : Nat} : hexDigit? c = some v ↔ IsHexDigit c v := by
  constructor
  · intro h
    have hascii : ∀ n < 128, ∀ w ∈ hexDigit? (Char.ofNat n), IsHexDigit (Char.ofNat n) w := by decide
    have hc := hascii c.toNat (toNat_lt_of_hexDigit? h)
    rw [Char.ofNat_toNat] at hc
    exact hc v h
  · rintro ⟨hv, rfl | rfl⟩
    · revert v
      decide
    · revert v
      decide

theorem not_isHexDigit {c : Char} (h : hexDigit? c = none) (v : Nat) : ¬ IsHexDigit c v := by
  intro hv
  rw [hexDigit?_eq_some_iff.2 hv] at h
  cases h

/-! ## Items -/

namespace Item

/-- What an item stands for. -/
inductive Denotes : Item → List Char → Prop
  | plain (c : Char) : Denotes (.plain c) [c]
  | quote : Denotes (.escaped '"') ['"']
  | backslash : Denotes (.escaped '\\') ['\\']
  | lineFeed : Denotes (.escaped 'n') ['\n']
  | tab : Denotes (.escaped 't') ['\t']
  | carriageReturn : Denotes (.escaped 'r') ['\r']
  | unknown {c : Char} (h : c ∉ ['"', '\\', 'n', 't', 'r']) : Denotes (.escaped c) ['\\', c]
  | code {a b : Char} {x y : Nat} (ha : IsHexDigit a x) (hb : IsHexDigit b y)
      (h : 16 * x + y < 128) : Denotes (.coded a b) [Char.ofNat (16 * x + y)]
  | noCode {a b : Char} (h : ∀ x y, IsHexDigit a x → IsHexDigit b y → 128 ≤ 16 * x + y) :
    Denotes (.coded a b) ['\\', 'x', a, b]

/-- A plus sign and a hexadecimal digit where a code should stand. -/
inductive Signed : Item → Nat → Prop
  | mk {b : Char} {y : Nat} (hb : IsHexDigit b y) : Signed (.coded '+' b) y

variable {i : Item} {cs ds : List Char} {y : Nat}

theorem code?_eq_some_iff {a b : Char} (ha : a ≠ '+') {n : Nat} :
    code? a b = some n ↔ ∃ x y, IsHexDigit a x ∧ IsHexDigit b y ∧ n = 16 * x + y := by
  simp only [code?, if_neg ha, Option.bind_eq_some_iff, Option.map_eq_some_iff,
    hexDigit?_eq_some_iff, eq_comm (b := n)]
  constructor
  · rintro ⟨x, hx, y, hy, hn⟩
    exact ⟨x, y, hx, hy, hn⟩
  · rintro ⟨x, y, hx, hy, hn⟩
    exact ⟨x, hx, y, hy, hn⟩

/-- An item stands for one text. -/
theorem Denotes.unique (h : i.Denotes cs) (h' : i.Denotes ds) : cs = ds := by
  have hdigit {c : Char} {v w : Nat} (hv : IsHexDigit c v) (hw : IsHexDigit c w) : v = w :=
    Option.some.inj ((hexDigit?_eq_some_iff.2 hv).symm.trans (hexDigit?_eq_some_iff.2 hw))
  cases h with
  | code ha hb h =>
    cases h' with
    | code ha' hb' _ => rw [hdigit ha ha', hdigit hb hb']
    | noCode h' => exact absurd (h' _ _ ha hb) (Nat.not_le_of_lt h)
  | noCode h =>
    cases h' with
    | code ha' hb' h' => exact absurd (h _ _ ha' hb') (Nat.not_le_of_lt h')
    | noCode => rfl
  | unknown h => cases h' <;> simp_all
  | plain => cases h'; rfl
  | quote => cases h' <;> simp_all
  | backslash => cases h' <;> simp_all
  | lineFeed => cases h' <;> simp_all
  | tab => cases h' <;> simp_all
  | carriageReturn => cases h' <;> simp_all

/-- The value of a plus sign and a digit is the character with the code of the digit. -/
theorem value_of_signed (h : i.Signed y) : i.value = [Char.ofNat y] := by
  cases h with
  | mk hb =>
    have hlt : y < 128 := Nat.lt_trans hb.1 (by decide)
    simp only [value, code?, if_true, hexDigit?_eq_some_iff.2 hb, if_pos hlt]

/-- All other items are read as what they stand for. -/
theorem denotes_value (h : ∀ y, ¬ i.Signed y) : i.Denotes i.value := by
  cases i with
  | plain c => exact .plain c
  | escaped c =>
    rcases Decidable.em (c ∈ ['"', '\\', 'n', 't', 'r']) with hc | hc
    · simp only [List.mem_cons, List.not_mem_nil, or_false] at hc
      rcases hc with rfl | rfl | rfl | rfl | rfl
      · exact .quote
      · exact .backslash
      · exact .lineFeed
      · exact .tab
      · exact .carriageReturn
    · have hvalue : (escaped c).value = ['\\', c] := by
        unfold value
        split <;> simp_all
      rw [hvalue]
      exact .unknown hc
  | coded a b =>
    cases hcode : code? a b with
    | none =>
      have hvalue : (coded a b).value = ['\\', 'x', a, b] := by simp only [value, hcode]
      rw [hvalue]
      refine .noCode fun x y ha hb => absurd hcode ?_
      have hplus : a ≠ '+' := by
        rintro rfl
        exact not_isHexDigit (by decide) x ha
      rw [(code?_eq_some_iff hplus).2 ⟨x, y, ha, hb, rfl⟩]
      exact Option.some_ne_none _
    | some n =>
      have hplus : a ≠ '+' := by
        rintro rfl
        rw [code?, if_pos rfl] at hcode
        exact h n (.mk (hexDigit?_eq_some_iff.1 hcode))
      obtain ⟨x, y, ha, hb, rfl⟩ := (code?_eq_some_iff hplus).1 hcode
      by_cases hlt : 16 * x + y < 128
      · have hvalue : (coded a b).value = [Char.ofNat (16 * x + y)] := by
          simp only [value, hcode, if_pos hlt]
        rw [hvalue]
        exact .code ha hb hlt
      · have hvalue : (coded a b).value = ['\\', 'x', a, b] := by
          simp only [value, hcode, if_neg hlt]
        rw [hvalue]
        refine .noCode fun x' y' ha' hb' => ?_
        have hcode' := (code?_eq_some_iff hplus).2 ⟨x', y', ha', hb', rfl⟩
        rw [hcode, Option.some.injEq] at hcode'
        omega

/-- A signed code stands for the four characters that it is written with. -/
theorem denotes_of_signed (h : i.Signed y) : i.Denotes i.text := by
  cases h with
  | mk hb => exact .noCode fun x _ ha => absurd ha (not_isHexDigit (by decide) x)

/-- An item stands for as many characters as are read for it, or for more if it is a signed code. -/
theorem length_value_of_denotes (h : i.Denotes cs) :
    i.value.length ≤ cs.length ∧ ∀ y, i.Signed y → i.value.length < cs.length := by
  have hsigned {y : Nat} (hy : i.Signed y) : i.value.length < cs.length := by
    rw [h.unique (denotes_of_signed hy), value_of_signed hy]
    cases hy
    exact Nat.lt_of_sub_eq_succ rfl
  refine ⟨?_, fun y => hsigned⟩
  by_cases hy : ∃ y, i.Signed y
  · obtain ⟨y, hy⟩ := hy
    exact Nat.le_of_lt (hsigned hy)
  · exact Nat.le_of_eq (congrArg List.length ((denotes_value (not_exists.1 hy)).unique h))

end Item

/-! ## Quoted text -/

/-- What items stand for, one after the other. -/
def Denotes (items : List Item) (cs : List Char) : Prop :=
  ∃ parts, List.Forall₂ Item.Denotes items parts ∧ cs = parts.flatten

/-- Every item stands for at least as many characters as are read for it, and for more if it is a
signed code. -/
theorem length_value_of_denotes {items : List Item} {cs : List Char} (h : Denotes items cs) :
    (value items).length ≤ cs.length ∧
      ((∃ i ∈ items, ∃ y, i.Signed y) → (value items).length < cs.length) := by
  obtain ⟨parts, hparts, rfl⟩ := h
  induction hparts with
  | nil => simp [value]
  | @cons i part items parts hi _ ih =>
    obtain ⟨hle, hlt⟩ := Item.length_value_of_denotes hi
    rw [value, List.flatMap_cons, ← value, List.flatten_cons, List.length_append,
      List.length_append]
    refine ⟨Nat.add_le_add hle ih.1, ?_⟩
    rintro ⟨j, hj, y, hy⟩
    rcases List.mem_cons.1 hj with rfl | hj
    · exact Nat.add_lt_add_of_lt_of_le (hlt y hy) ih.1
    · exact Nat.add_lt_add_of_le_of_lt hle (ih.2 ⟨j, hj, y, hy⟩)

/-- What is read is what the items stand for just if there are no signed codes among them. -/
theorem denotes_value_iff {items : List Item} :
    Denotes items (value items) ↔ ∀ i ∈ items, ∀ y, ¬ i.Signed y := by
  constructor
  · intro h i hi y hy
    exact Nat.lt_irrefl _ ((length_value_of_denotes h).2 ⟨i, hi, y, hy⟩)
  · intro h
    refine ⟨items.map Item.value, ?_, ?_⟩
    · rw [List.forall₂_map_right_iff, List.forall₂_same]
      exact fun i hi => Item.denotes_value (h i hi)
    · exact List.flatMap_def ..

end Text.Quoted

/-! ## Arguments of expressions -/

namespace Expr

open Text.Quoted (Item Denotes)

/-- The segments of an expression, in order. -/
def Expression.segments (e : Expression) : List Segment :=
  e.head :: e.tail.map Prod.snd

/-- The level at a place has what the segment at that place says. -/
theorem says_getElem? {s segment : Segment} {tail : List (Connector × Segment)} {levels : List Level}
    (h : ChainSays s tail levels) {k : Nat} (hk : (s :: tail.map Prod.snd)[k]? = some segment) :
    ∃ level behind, levels[k]? = some level ∧ segment.Says behind level := by
  induction h generalizing k with
  | @last s level h =>
    cases k with
    | zero =>
      obtain rfl := Option.some.inj hk
      exact ⟨level, none, rfl, h⟩
    | succ k => cases hk
  | @joined s next j tail level levels h _ ih =>
    cases k with
    | zero =>
      obtain rfl := Option.some.inj hk
      exact ⟨level, some j, rfl, h⟩
    | succ k => exact ih hk

/-- What is read for a quoted argument: its items one after the other, where the character with the
code of the digit is read for a signed code, and for each other item what it stands for. That is
what the argument stands for just if there are no signed codes among the items. -/
theorem decoded_iff {s : String} {c : Config} (h : parse s = .ok c) (d : Derivation s) {k i : Nat}
    {segment : Segment} {items : List Item} (hsegment : d.expression.segments[k]? = some segment)
    (hplace : segment.places[i]? = some (some (.quoted items))) :
    ∃ level text, c.levels[k]? = some level ∧ level.arguments.get? i = some text ∧
      text.toList = items.flatMap Item.value ∧
      (∀ item ∈ items, (∃ y, item.Signed y ∧ item.value = [Char.ofNat y]) ∨
        item.Denotes item.value) ∧
      (Denotes items text.toList ↔ ∀ item ∈ items, ∀ y, ¬ item.Signed y) := by
  obtain rfl : d.expression.config = c := by
    rw [parse, d.read_eq] at h
    exact Except.ok.inj h
  obtain ⟨level, behind, hlevel, hmeaning⟩ :=
    says_getElem? (says_iff.2 rfl : d.expression.Says d.expression.config) hsegment
  have hget : level.arguments.get? i = some (String.ofList (Text.Quoted.value items)) := by
    rw [hmeaning.arguments, hplace]
    rfl
  refine ⟨level, _, hlevel, hget, String.toList_ofList, fun item hitem => ?_, ?_⟩
  · by_cases hy : ∃ y, item.Signed y
    · obtain ⟨y, hy⟩ := hy
      exact .inl ⟨y, hy, Item.value_of_signed hy⟩
    · exact .inr (Item.denotes_value (not_exists.1 hy))
  · rw [String.toList_ofList]
    exact Text.Quoted.denotes_value_iff

/-- Two rules, the second with a quoted argument at its second place. -/
def escapedExpression : Expression where
  head := ⟨false, ['a'], ['b'], some (.bare ['x']), []⟩
  tail := [(.point, ⟨true, ['c'], ['d'], none, [([' '], some (.quoted
    [.coded '4' 'b', .escaped 'q', .coded '8' '0', .plain 'é', .coded '0' 'A', .coded '+' 'g']))]⟩)]

theorem decoded_escaped :
    read "a:b(x).not c:d(, \"\\x4b\\q\\x80é\\x0A\\x+g\")" = .ok escapedExpression ∧
      ∃ text,
        (escapedExpression.config.levels[1]?.bind fun level => level.arguments.get? 1) = some text ∧
        Denotes [.coded '4' 'b', .escaped 'q', .coded '8' '0', .plain 'é', .coded '0' 'A',
          .coded '+' 'g'] text.toList := by
  have h : read "a:b(x).not c:d(, \"\\x4b\\q\\x80é\\x0A\\x+g\")" = .ok escapedExpression := by
    decide +kernel
  have hparse := parse_eq_ok_iff.2 ⟨_, h, rfl⟩
  obtain ⟨hwellFormed, hexpression⟩ := read_eq_ok_iff.1 h
  obtain ⟨level, text, hlevel, htext, -, -, hiff⟩ :=
    @decoded_iff _ _ hparse ⟨_, hwellFormed, hexpression⟩ 1 1 _ _ rfl rfl
  refine ⟨h, text, ?_, hiff.2 ?_⟩
  · rw [hlevel]
    exact htext
  · rintro item hitem y ⟨hb⟩
    simp only [List.mem_cons, List.not_mem_nil, Item.coded.injEq, or_false, reduceCtorEq,
      false_or, Char.reduceEq, false_and, true_and] at hitem
    subst hitem
    exact Text.Quoted.not_isHexDigit (by decide) y hb

/-- A rule whose argument is a signed code. -/
def signedExpression : Expression where
  head := ⟨false, ['f'], ['o'], some (.quoted [.coded '+' '5']), []⟩
  tail := []

/-- A signed code is read as one character, although it stands for four. -/
theorem signed_code_decoded :
    read "f:o(\"\\x+5\")" = .ok signedExpression ∧
      (parse "f:o(\"\\x+5\")").toOption = some
        { head :=
            { field := some "f"
              operation := some "o"
              arguments := .ofList [(0, "\x05")] } } ∧
      Denotes [.coded '+' '5'] "\\x+5".toList ∧ ¬ Denotes [.coded '+' '5'] "\x05".toList := by
  have hsigned : Item.Signed (.coded '+' '5') 5 := .mk (by decide)
  refine ⟨by decide +kernel, by decide +kernel, ?_, ?_⟩
  · exact ⟨_, .cons (Item.denotes_of_signed hsigned) .nil, by decide +kernel⟩
  · intro h
    exact Text.Quoted.denotes_value_iff.1 h _ List.mem_cons_self 5 hsigned

end Expr

end Segmentation

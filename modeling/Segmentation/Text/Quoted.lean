import Segmentation.Text.Alphanumeric

/-!
# Bare and quoted text

How a text is written as an argument of an expression, and how quoted text is read.

A text made of alphanumeric characters and `_ - / @ :` is written as it is (*bare*); any other text
stands between quotes. Between the quotes a backslash begins an escape, and the characters `.` and
`+`, which connect rules, are written as escapes of their codes, so that they never show.

Quoted text is read as a sequence of *items*: a plain character, a backslash with one character, or
`\x` with two characters. Main statements:

* `value_escape`: the item that is written for a character stands for it;
* `read?_items`, `eq_of_read?`: reading finds exactly the items before the closing quote.
-/

namespace Segmentation.Text.Quoted

/-- What may stand between quotes. -/
inductive Item
  | plain (c : Char)
  | escaped (c : Char)
  | coded (a b : Char)
  deriving DecidableEq, Repr

/-- The value of a hexadecimal digit of either case. -/
def hexDigit? (c : Char) : Option Nat :=
  if c.isDigit then some (c.toNat - '0'.toNat)
  else if 'a' ≤ c ∧ c ≤ 'f' then some (c.toNat - 'a'.toNat + 10)
  else if 'A' ≤ c ∧ c ≤ 'F' then some (c.toNat - 'A'.toNat + 10)
  else none

/-- The number in two characters: two hexadecimal digits, or a plus sign and one. -/
def code? (a b : Char) : Option Nat :=
  if a = '+' then hexDigit? b
  else (hexDigit? a).bind fun x => (hexDigit? b).map fun y => 16 * x + y

namespace Item

/-- The characters that an item is written with. -/
def text : Item → List Char
  | plain c => [c]
  | escaped c => ['\\', c]
  | coded a b => ['\\', 'x', a, b]

/-- The characters that an item stands for. An escape without a meaning stands for itself, and so
does a code that is no number below 128. -/
def value : Item → List Char
  | plain c => [c]
  | escaped '"' => ['"']
  | escaped '\\' => ['\\']
  | escaped 'n' => ['\n']
  | escaped 't' => ['\t']
  | escaped 'r' => ['\r']
  | escaped c => ['\\', c]
  | coded a b =>
    match code? a b with
    | some n => if n < 128 then [Char.ofNat n] else ['\\', 'x', a, b]
    | none => ['\\', 'x', a, b]

/-- Items that can be told apart: a quote or a backslash is never plain, and the code escape
takes two characters. -/
def WellFormed : Item → Prop
  | plain c => c ≠ '"' ∧ c ≠ '\\'
  | escaped c => c ≠ 'x'
  | coded _ _ => True

/-- The item that a character is written as. -/
def escape : Char → Item
  | '"' => escaped '"'
  | '\\' => escaped '\\'
  | '\n' => escaped 'n'
  | '\t' => escaped 't'
  | '\r' => escaped 'r'
  | '.' => coded '2' 'e'
  | '+' => coded '2' 'b'
  | c => plain c

theorem value_escape (c : Char) : (escape c).value = [c] := by
  unfold escape
  split <;> rfl

theorem wellFormed_escape (c : Char) : (escape c).WellFormed := by
  unfold escape
  split <;> simp_all [WellFormed]

end Item

/-- The items up to the closing quote, and what follows the quote. -/
def read? : List Char → Option (List Item × List Char)
  | [] => none
  | '"' :: rest => some ([], rest)
  | '\\' :: 'x' :: a :: b :: rest => (read? rest).map fun (items, r) => (.coded a b :: items, r)
  | '\\' :: 'x' :: _ => none
  | '\\' :: c :: rest => (read? rest).map fun (items, r) => (.escaped c :: items, r)
  | '\\' :: [] => none
  | c :: rest => (read? rest).map fun (items, r) => (.plain c :: items, r)

/-- The characters that items stand for. -/
def value (items : List Item) : List Char :=
  items.flatMap Item.value

/-- The characters that items are written with. -/
def text (items : List Item) : List Char :=
  items.flatMap Item.text

/-- The characters of a bare text. -/
def isBareChar (c : Char) : Bool :=
  isAlphanumeric c || c == '_' || c == '-' || c == '/' || c == '@' || c == ':'

/-- Whether a text is written without quotes. -/
def isBare (cs : List Char) : Bool :=
  !cs.isEmpty && cs.all isBareChar

/-- A text between quotes. -/
def encode (cs : List Char) : List Char :=
  '"' :: (text (cs.map Item.escape) ++ ['"'])

/-- A text as an argument of an expression. -/
def write (cs : List Char) : List Char :=
  if isBare cs then cs else encode cs

/-! ## Reading back -/

theorem read?_items {items : List Item} (h : ∀ i ∈ items, i.WellFormed) (rest : List Char) :
    read? (text items ++ '"' :: rest) = some (items, rest) := by
  induction items with
  | nil => rfl
  | cons i items ih =>
    have ih := ih fun j hj => h j (List.mem_cons_of_mem _ hj)
    have hi := h i List.mem_cons_self
    rw [text, List.flatMap_cons, List.append_assoc, ← text]
    cases i with
    | plain c =>
      obtain ⟨_, hb⟩ := hi
      simp [Item.text, read?, hb, ih]
    | escaped c =>
      have hx : c ≠ 'x' := hi
      simp [Item.text, read?, hx, ih]
    | coded a b => simp [Item.text, read?, ih]

theorem eq_of_read? {cs : List Char} {items : List Item} {rest : List Char}
    (h : read? cs = some (items, rest)) :
    cs = text items ++ '"' :: rest ∧ ∀ i ∈ items, i.WellFormed := by
  fun_induction read? cs generalizing items rest with
  | case1 => simp at h
  | case2 r => simp_all [text]
  | case3 a b r ih =>
    obtain ⟨⟨is, r'⟩, hr, heq⟩ := Option.map_eq_some_iff.1 h
    obtain ⟨rfl, rfl⟩ := Prod.mk.inj heq
    obtain ⟨rfl, hw⟩ := ih hr
    exact ⟨rfl, by simpa [Item.WellFormed] using hw⟩
  | case4 => simp at h
  | case5 c r _ hx ih =>
    obtain ⟨⟨is, r'⟩, hr, heq⟩ := Option.map_eq_some_iff.1 h
    obtain ⟨rfl, rfl⟩ := Prod.mk.inj heq
    obtain ⟨rfl, hw⟩ := ih hr
    refine ⟨rfl, ?_⟩
    simp_all [Item.WellFormed]
  | case6 => simp at h
  | case7 c r hq _ _ hcons hnil ih =>
    have hb : c ≠ '\\' := by
      rintro rfl
      cases r with
      | nil => exact hnil rfl rfl
      | cons d t => exact hcons d t rfl rfl
    obtain ⟨⟨is, r'⟩, hr, heq⟩ := Option.map_eq_some_iff.1 h
    obtain ⟨rfl, rfl⟩ := Prod.mk.inj heq
    obtain ⟨rfl, hw⟩ := ih hr
    refine ⟨rfl, fun i hi => ?_⟩
    rcases List.mem_cons.1 hi with rfl | hi
    · exact ⟨hq, hb⟩
    · exact hw i hi

theorem value_escapes (cs : List Char) : value (cs.map Item.escape) = cs := by
  induction cs with
  | nil => rfl
  | cons c cs ih =>
    rw [List.map_cons, value, List.flatMap_cons, ← value, ih, Item.value_escape]
    rfl

end Segmentation.Text.Quoted

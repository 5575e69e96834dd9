import Segmentation.Catalog.Stock
import Segmentation.Proofs.Decimal.Beyond
import Segmentation.Proofs.Form.ReadBack
import Segmentation.Proofs.Rule.Building
import Segmentation.Proofs.Value.ReadBack

/-!
# Whole numbers in forms

A whole number of a form may have any count of digits. It is kept exactly if it fits into 64 bits and
rounded otherwise; as an argument it is written out again, and the slot for the argument reads that
text. Rounding does not bring a number back into the range of an integer slot, so the slot gets
exactly the number of the form, or nothing. Main statements:

* `ofLiteral?_of_inside`, `text_of_beyond`: the text for a number inside and outside the range;
* `int64?_text_iff`: what is read from it;
* `ofForm?_insert`: an object with one more entry, for its only argument;
* `exact_or_unset`: the value in the slot of a new rule.
-/

namespace Segmentation

open Decimal (Binary64)
open Text.Numeral (integer? int64? toInt64? ofNat sign signed)

/-! ## Literals -/

/-- The literal of a whole number: its digits, behind a minus sign if it has one. -/
def Number.literal (negative : Bool) (n : Nat) : List Char :=
  sign negative ++ ofNat n

namespace Number

variable {negative : Bool} {n : Nat} {x : Number}

theorem integer?_literal (negative : Bool) (n : Nat) :
    integer? (literal negative n) = some (signed negative n) := by
  have hdigits : ∀ c ∈ ofNat n, c ≠ '-' ∧ c ≠ '+' := fun c hc =>
    Text.Numeral.ne_sign_of_isDigit (Text.Numeral.isDigit_of_mem_ofNat hc)
  rw [literal, Text.Numeral.integer?_sign_append negative hdigits, Text.Numeral.digits?_ofNat,
    Option.map_some]

theorem ofLiteral?_literal (negative : Bool) (n : Nat) : ofLiteral? (literal negative n) =
    if fits (signed negative n) ∧ literal negative n ≠ ['-', '0'] then
      some (whole (signed negative n))
    else real? (literal negative n) := by
  rw [ofLiteral?, integer?_literal]

/-- Whole numbers of 64 bits with a sign are kept exactly. -/
theorem fits_of_toInt {m : Int} {k : Int64} (h : k.toInt = m) : fits m = true := by
  have hmin : Int64.minValue.toInt ≤ k.toInt := Int64.le_iff_toInt_le.1 (Int64.minValue_le k)
  have hmax : k.toInt ≤ Int64.maxValue.toInt := Int64.le_iff_toInt_le.1 (Int64.le_maxValue k)
  have hbound : Int64.maxValue.toInt < UInt64.size := by decide
  rw [fits, ← h, Bool.and_eq_true, decide_eq_true_eq, decide_eq_true_eq]
  exact ⟨hmin, Int.lt_of_le_of_lt hmax hbound⟩

/-- As a floating-point number a literal denotes the nearest one, with the sign of the literal. -/
theorem ofText?_literal (negative : Bool) (n : Nat) :
    Binary64.ofText? (literal negative n) = some ((Decimal.mk n 0).toBinary64 negative) := by
  have hdigits : ∀ c ∈ ofNat n, c.isDigit = true := fun _ => Text.Numeral.isDigit_of_mem_ofNat
  have hdecimal := Decimal.ofText?_digits (Text.Numeral.ofNat_ne_nil n) hdigits
  rw [literal]
  cases hcs : ofNat n with
  | nil => exact absurd hcs (Text.Numeral.ofNat_ne_nil n)
  | cons c cs =>
    rw [Binary64.ofText?_sign_append negative (hdigits c (hcs ▸ List.mem_cons_self)), ← hcs, hdecimal,
      ofNat, Nat.ofDigitChars_ten_toDigits, Option.map_some]

/-! ## Texts of literals -/

/-- A number of a form in the range of the signed numbers of 64 bits has a text that is read as this
number. Zero with a minus sign is read as zero, although it is kept as a floating-point number. -/
theorem ofLiteral?_of_inside {k : Int64} (hk : k.toInt = signed negative n) :
    ∃ x, ofLiteral? (literal negative n) = some x ∧ int64? x.text = some k := by
  have hk' : toInt64? (signed negative n) = some k := Text.Numeral.toInt64?_eq_some_iff.2 hk
  rw [ofLiteral?_literal]
  by_cases hzero : literal negative n = ['-', '0']
  · have hsigned : signed negative n = 0 := by
      have hread := integer?_literal negative n
      rw [hzero] at hread
      exact (Option.some.inj hread).symm
    rw [hsigned] at hk'
    refine ⟨real (.finite true .zero), ?_, ?_⟩
    · rw [if_neg (fun h => h.2 hzero), hzero]
      decide +kernel
    · rw [← hk']
      decide +kernel
  · refine ⟨whole (signed negative n), if_pos ⟨fits_of_toInt hk, hzero⟩, ?_⟩
    rw [text, hk']
    show int64? (Text.Numeral.ofInt (signed negative n)) = some k
    rw [int64?, Text.Numeral.integer?_ofInt, Option.bind_some, hk']

theorem toInt64?_of_beyond (hbeyond : ∀ k : Int64, k.toInt ≠ signed negative n) :
    toInt64? (signed negative n) = none ∧ 2 ^ 63 ≤ n := by
  have hnone : toInt64? (signed negative n) = none :=
    Option.eq_none_iff_forall_not_mem.2 fun k hk =>
      hbeyond k (Text.Numeral.toInt64?_eq_some_iff.1 hk)
  have hrange := Text.Numeral.toInt64?_eq_none_iff.1 hnone
  have habs := Text.Numeral.natAbs_signed negative n
  exact ⟨hnone, by omega⟩

/-- A number of a form beyond the range has the text of the nearest floating-point number, also if
it fits into 64 bits without a sign. -/
theorem text_of_beyond (hbeyond : ∀ k : Int64, k.toInt ≠ signed negative n)
    (h : ofLiteral? (literal negative n) = some x) :
    x.text = ((Decimal.mk n 0).toBinary64 negative).plainText := by
  obtain ⟨hnone, hlarge⟩ := toInt64?_of_beyond hbeyond
  rw [ofLiteral?_literal] at h
  split at h
  · have hsign : decide (signed negative n < 0) = negative := by
      cases negative with
      | true => exact decide_eq_true (show -(n : Int) < 0 by omega)
      | false => exact decide_eq_false (show ¬ (n : Int) < 0 by omega)
    rw [← Option.some.inj h, text, hnone]
    show (Binary64.ofInt (signed negative n)).plainText = _
    rw [Binary64.ofInt, hsign, Text.Numeral.natAbs_signed]
  · rw [real?, ofText?_literal, Option.map_eq_some_iff] at h
    obtain ⟨y, hy, rfl⟩ := h
    obtain ⟨hy, -⟩ := Option.filter_eq_some_iff.1 hy
    rw [← Option.some.inj hy]
    rfl

/-- The text for a number of a form is read as a signed number of 64 bits just if it is that number. -/
theorem int64?_text_iff (h : ofLiteral? (literal negative n) = some x) {k : Int64} :
    int64? x.text = some k ↔ k.toInt = signed negative n := by
  constructor
  · intro hk
    by_cases hinside : ∃ j : Int64, j.toInt = signed negative n
    · obtain ⟨j, hj⟩ := hinside
      obtain ⟨y, hy, htext⟩ := ofLiteral?_of_inside hj
      obtain rfl := Option.some.inj (h.symm.trans hy)
      rw [← Option.some.inj (htext.symm.trans hk), hj]
    · have hbeyond := not_exists.1 hinside
      rw [text_of_beyond hbeyond h, Binary64.int64?_toBinary64 (toInt64?_of_beyond hbeyond).2] at hk
      cases hk
  · intro hk
    obtain ⟨y, hy, htext⟩ := ofLiteral?_of_inside hk
    obtain rfl := Option.some.inj (h.symm.trans hy)
    exact htext

/-- No text of a number has blanks around it. -/
theorem isBlank_of_mem_plainText {y : Binary64} {c : Char} (h : c ∈ y.plainText) :
    Text.isBlank c = false := by
  have hfloat (y : Binary64) : (Value.float y).kind ≠ .string := Kind.noConfusion
  cases y with
  | finite negative m =>
    rcases List.mem_append.1 h with h | h
    · cases negative
      · cases h
      · rw [List.mem_singleton.1 h]
        decide
    · rcases Decimal.mem_plainText h with hdigit | rfl
      · exact isBlank_of_isPlainChar (isPlainChar_of_isDigit hdigit)
      · decide
  -- The words for other numbers are the same as in expressions.
  | infinite negative =>
    have hchars : c ∈ (Value.float (.infinite negative)).chars := h
    exact isBlank_of_isPlainChar (Value.isPlainChar_of_mem_chars (hfloat _) hchars)
  | nan =>
    have hchars : c ∈ (Value.float .nan).chars := h
    exact isBlank_of_isPlainChar (Value.isPlainChar_of_mem_chars (hfloat _) hchars)

theorem isBlank_of_mem_text {c : Char} (h : c ∈ x.text) : Text.isBlank c = false := by
  cases x with
  | whole m =>
    simp only [text] at h
    split at h
    · rename_i k hk
      obtain rfl := Text.Numeral.toInt64?_eq_some_iff.1 hk
      have hkind : (Value.integer k).kind ≠ .string := Kind.noConfusion
      exact isBlank_of_isPlainChar (Value.isPlainChar_of_mem_chars hkind h)
    · exact isBlank_of_mem_plainText h
  | real y => exact isBlank_of_mem_plainText h

/-- An integer slot reads the numeral in the text of a number. -/
theorem convert_text {slot : Slot} (hkind : slot.kind = .integer) (hchoices : slot.choices = [])
    (x : Number) :
    (slot.convert (String.ofList x.text)).toOption = (int64? x.text).map Value.integer := by
  have hread : Kind.integer.read? (String.ofList x.text) = (int64? x.text).map Value.integer := by
    rw [Kind.read?, String.toList_ofList, trimmed_of_not_isBlank fun _ => isBlank_of_mem_text]
  rw [Slot.convert, if_pos hchoices, hkind, Kind.convert, hread]
  cases int64? x.text <;> rfl

end Number

/-! ## The only argument of an object -/

namespace Form

variable {before after : List (String × Form)} {name : String} {form : Form} {i : Nat} {t : String}

theorem ne_of_fixed {name' : String} (hname : argumentIndex? name = some i)
    (h : name' ∈ fixedNames) : name' ≠ name := by
  rintro rfl
  rw [argumentIndex?_of_fixed h] at hname
  cases hname

theorem lookup_insert_of_ne {name' : String} (h : name' ≠ name) :
    (before ++ (name, form) :: after).lookup name' = (before ++ after).lookup name' := by
  rw [List.lookup_append, List.lookup_append, List.lookup_cons, beq_false_of_ne h]

/-- Entries without names of arguments hold no arguments. -/
theorem filterMap_heldArgument?_of_forall {entries : List (String × Form)}
    (h : ∀ e ∈ entries, argumentIndex? e.1 = none) : entries.filterMap heldArgument? = [] := by
  refine List.filterMap_eq_nil_iff.2 fun e he => ?_
  rw [heldArgument?, h e he]
  rfl

/-- The arguments are those of the one entry for an argument, if there is but one. -/
theorem arguments_insert (hname : argumentIndex? name = some i) (ht : form.argument? = some t)
    (hother : ∀ e ∈ before ++ after, argumentIndex? e.1 = none) :
    arguments (before ++ (name, form) :: after) = (arguments (before ++ after)).insert i t := by
  obtain ⟨hbefore, hafter⟩ := List.forall_mem_append.1 hother
  have hsome : heldArgument? (name, form) = some (i, t) := by
    rw [heldArgument?, hname, ht]
    rfl
  have hrest := (Text.sortBy_perm Prod.fst (before ++ after)).filterMap heldArgument?
  have hperm := (Text.sortBy_perm Prod.fst (before ++ (name, form) :: after)).filterMap heldArgument?
  rw [filterMap_heldArgument?_of_forall hother, List.perm_nil] at hrest
  rw [List.filterMap_append, List.filterMap_cons_some hsome,
    filterMap_heldArgument?_of_forall hbefore, filterMap_heldArgument?_of_forall hafter,
    List.nil_append, List.perm_singleton] at hperm
  rw [arguments_eq, arguments_eq, hperm, hrest]
  rfl

theorem level?_insert (hname : argumentIndex? name = some i) (ht : form.argument? = some t)
    (hother : ∀ e ∈ before ++ after, argumentIndex? e.1 = none) :
    level? (before ++ (name, form) :: after) =
      (level? (before ++ after)).map fun l => { l with arguments := l.arguments.insert i t } := by
  have hsame (name' : String) (h : name' ∈ fixedNames) :
      text? (before ++ (name, form) :: after) name' = text? (before ++ after) name' := by
    rw [text?, text?, lookup_insert_of_ne (ne_of_fixed hname h)]
  rw [level?, level?, hsame "operator" (by decide), hsame "field" (by decide),
    hsame "operation" (by decide), hsame "condition" (by decide), arguments_insert hname ht hother]
  simp only [bind, Option.map_bind, Function.comp_def]
  rfl

end Form

namespace Config

variable {before after : List (String × Form)} {name : String} {form : Form} {i : Nat} {t : String}

/-- An object with one more entry, for its only argument, is read as before but for this argument. -/
theorem ofForm?_insert (hname : Form.argumentIndex? name = some i) (ht : form.argument? = some t)
    (hother : ∀ e ∈ before ++ after, Form.argumentIndex? e.1 = none) :
    ofForm? (.object (before ++ (name, form) :: after)) =
      (ofForm? (.object (before ++ after))).map fun c => c.withArgument i t := by
  have hchild : "child" ≠ name := Form.ne_of_fixed hname (by decide)
  rw [ofForm?, ofForm?, Form.levels?, Form.levels?, Form.level?_insert hname ht hother,
    Form.childLevels?_eq, Form.childLevels?_eq, Form.lookup_insert_of_ne hchild]
  simp only [Option.bind_map, Option.map_bind, Option.map_map, Function.comp_def, withArgument]

end Config

/-! ## The slot of a new rule -/

namespace Rule

variable {catalog : Catalog} {before after : List (String × Form)} {config : Config}
  {field : String} {p : Predicate} {i : Nat} {slot : Slot}

/-- A number of a form that is the only argument goes to its slot in the root of a new rule as its
text. -/
theorem argument?_of_number {x : Number}
    (hrest : Config.ofForm? (.object (before ++ after)) = some config)
    (hother : ∀ e ∈ before ++ after, Form.argumentIndex? e.1 = none)
    (hfield : nonempty? config.head.field = some field)
    (hp : catalog.resolveField? .global field config.head.operation = some p)
    (hi : i < UInt64.size) (hslot : p.slots[i]? = some slot) :
    ∃ sent, Config.ofForm?
        (.object (before ++ (Form.nameOfArgument i, .number x) :: after)) = some sent ∧
      (({} : Rule).build catalog sent).slot? 0 i = some slot ∧
      (({} : Rule).build catalog sent).argument? 0 i =
        (slot.convert (String.ofList x.text)).toOption := by
  have htext : (Form.number x).argument? = some (String.ofList x.text) := rfl
  have hsent := Config.ofForm?_insert (Form.argumentIndex?_nameOfArgument hi) htext hother
  rw [hrest, Option.map_some] at hsent
  have hslots : (({} : Rule).build catalog (config.withArgument i (String.ofList x.text))).root.slots =
      p.slots := slots_root hfield hp
  have hentered : (({} : Rule).build catalog (config.withArgument i (String.ofList x.text))).slot? 0 i
      = some slot := (congrArg (·[i]?) hslots).trans hslot
  refine ⟨_, hsent, hentered, ?_⟩
  rw [argument?_root, hentered, Option.bind_some, Config.withArgument, Arguments.get?_insert, if_pos rfl]
  rfl

/-- A whole number that a form holds as the only argument, for an integer slot without choices, is
what a new rule has in the slot if it is a signed number of 64 bits. The slot is unset for any other
whole number, unless the number is too large for the form to be read at all. -/
theorem exact_or_unset
    (hrest : Config.ofForm? (.object (before ++ after)) = some config)
    (hother : ∀ e ∈ before ++ after, Form.argumentIndex? e.1 = none)
    (hfield : nonempty? config.head.field = some field)
    (hp : catalog.resolveField? .global field config.head.operation = some p)
    (hi : i < UInt64.size) (hslot : p.slots[i]? = some slot) (hkind : slot.kind = .integer)
    (hchoices : slot.choices = []) (negative : Bool) (n : Nat) :
    match Number.ofLiteral? (Number.literal negative n) with
    | none => ∀ k : Int64, k.toInt ≠ signed negative n
    | some x =>
      ∃ sent, Config.ofForm?
          (.object (before ++ (Form.nameOfArgument i, .number x) :: after)) = some sent ∧
        (({} : Rule).build catalog sent).slot? 0 i = some slot ∧
        ∀ v, (({} : Rule).build catalog sent).argument? 0 i = some v ↔
          ∃ k : Int64, k.toInt = signed negative n ∧ v = .integer k := by
  split
  · rename_i hread
    intro k hk
    obtain ⟨x, hx, -⟩ := Number.ofLiteral?_of_inside hk
    rw [hread] at hx
    cases hx
  · rename_i x hread
    obtain ⟨sent, hsent, hentered, hargument⟩ :=
      argument?_of_number (x := x) hrest hother hfield hp hi hslot
    refine ⟨sent, hsent, hentered, fun v => ?_⟩
    rw [hargument, Number.convert_text hkind hchoices, Option.map_eq_some_iff]
    simp only [Number.int64?_text_iff hread, eq_comm]

/-- A form with a number as the greater bound of the count of visits. -/
def visitsUpTo (x : Number) : Form :=
  .object [("field", .text "visits"), ("argument1", .number x), ("operation", .text "between")]

/-- The greatest signed number of 64 bits is stored, the next number is not. -/
theorem exact_or_unset_at_bound :
    (∃ x sent, Number.ofLiteral? "9223372036854775807".toList = some x ∧
      Config.ofForm? (visitsUpTo x) = some sent ∧
      (({} : Rule).build Stock.catalog sent).argument? 0 1 = some (.integer Int64.maxValue)) ∧
    ∃ x sent, Number.ofLiteral? "9223372036854775808".toList = some x ∧
      Config.ofForm? (visitsUpTo x) = some sent ∧
      (({} : Rule).build Stock.catalog sent).argument? 0 1 = none := by
  obtain ⟨config, hrest, hfield, p, hp, slot, hslot, hkind, hchoices⟩ : ∃ config,
      Config.ofForm? (.object
        ([("field", .text "visits")] ++ [("operation", .text "between")])) = some config ∧
      nonempty? config.head.field = some "visits" ∧
      ∃ p, Stock.catalog.resolveField? .global "visits" config.head.operation = some p ∧
      ∃ slot, p.slots[1]? = some slot ∧ slot.kind = .integer ∧ slot.choices = [] :=
    ⟨_, rfl, rfl, _, rfl, _, rfl, rfl, rfl⟩
  have hstored := exact_or_unset hrest (by decide) hfield hp (by decide) hslot hkind hchoices
  constructor
  · have hread : Number.ofLiteral? (Number.literal false 9223372036854775807) =
        some (.whole 9223372036854775807) := by decide +kernel
    have hmax := hstored false 9223372036854775807
    rw [hread] at hmax
    obtain ⟨sent, hsent, -, hargument⟩ := hmax
    exact ⟨_, sent, hread, hsent, (hargument _).2 ⟨Int64.maxValue, by decide, rfl⟩⟩
  · have hread : Number.ofLiteral? (Number.literal false 9223372036854775808) =
        some (.whole 9223372036854775808) := by decide +kernel
    have hnext := hstored false 9223372036854775808
    rw [hread] at hnext
    obtain ⟨sent, hsent, -, hargument⟩ := hnext
    refine ⟨_, sent, hread, hsent, Option.eq_none_iff_forall_not_mem.2 fun v hv => ?_⟩
    obtain ⟨k, hk, -⟩ := (hargument v).1 hv
    have hle : k.toInt ≤ Int64.maxValue.toInt := Int64.le_iff_toInt_le.1 (Int64.le_maxValue k)
    rw [hk] at hle
    exact absurd hle (by decide)

end Rule

end Segmentation

import Segmentation.Slot
import Segmentation.Calendar.ReadBack
import Segmentation.Proofs.Value.Written

/-!
# Values read back

A value of a slot was read from some text, so it is finite. The text of a finite value reads back as
that value; so a slot without choices converts it back. A slot with choices picks a choice by the
text first, and need not find one. Main statements:

* `isFinite_convert`: conversions yield neither infinite numbers nor NaN;
* `read?_raw`: every finite value reads back from its text;
* `convert_raw_iff`: which slots convert a value back.
-/

namespace Segmentation

/-! ## Finite values -/

/-- Neither infinite nor NaN. -/
def Value.isFinite : Value → Bool
  | float x => x.isFinite
  | _ => true

theorem Kind.isFinite_read? {kind : Kind} {raw : String} {v : Value}
    (h : kind.read? raw = some v) : v.isFinite = true := by
  cases kind <;> simp only [Kind.read?, Option.some.injEq, Option.map_eq_some_iff] at h
  case string =>
    rw [← h]
    rfl
  case float =>
    obtain ⟨x, hx, rfl⟩ := h
    exact (Option.filter_eq_some_iff.1 hx).2
  all_goals
    obtain ⟨_, _, rfl⟩ := h
    rfl

theorem Slot.isFinite_convert {slot : Slot} {raw : String} {v : Value}
    (h : slot.convert raw = .ok v) : v.isFinite = true := by
  unfold Slot.convert at h
  split at h
  · exact Kind.isFinite_read? (Kind.convert_eq_ok.1 h)
  · split at h
    · exact Kind.isFinite_read? (Kind.convert_eq_ok.1 h)
    · cases h

/-! ## Reading back -/

/-- Without blanks there is nothing to trim. -/
theorem trimmed_of_not_isBlank {cs : List Char} (h : ∀ c ∈ cs, Text.isBlank c = false) :
    Text.trimmed cs = cs := by
  have hdrop (ds : List Char) (hds : ∀ c ∈ ds, Text.isBlank c = false) :
      ds.dropWhile Text.isBlank = ds := by
    cases ds with
    | nil => rfl
    | cons c ds =>
      refine List.dropWhile_cons_of_neg ?_
      rw [hds c List.mem_cons_self]
      decide
  rw [Text.trimmed, hdrop cs h, Text.dropEnd, hdrop, List.reverse_reverse]
  exact fun c hc => h c (List.mem_reverse.1 hc)

theorem trimmed_raw {v : Value} (hv : v.kind ≠ .string) :
    Text.trimmed v.raw.toList = v.chars := by
  rw [Value.raw_of_kind hv, Value.text, String.toList_ofList]
  exact trimmed_of_not_isBlank fun c hc =>
    isBlank_of_isPlainChar (Value.isPlainChar_of_mem_chars hv hc)

/-- A finite value reads back as a value of its kind. -/
theorem Kind.read?_raw {v : Value} (h : v.isFinite = true) : v.kind.read? v.raw = some v := by
  cases v with
  | string s => rfl
  | integer n =>
    have ht := trimmed_raw (v := .integer n) (show Kind.integer ≠ .string by decide)
    rw [Value.kind, Kind.read?, ht]
    show (Text.Numeral.int64? (Text.Numeral.ofInt n.toInt)).map Value.integer = _
    rw [Text.Numeral.int64?_ofInt, Option.map_some]
  | float x =>
    have ht := trimmed_raw (v := .float x) (show Kind.float ≠ .string by decide)
    rw [Value.kind, Kind.read?, ht]
    show (finite? x.pointFreeText).map Value.float = _
    cases x with
    | finite negative m =>
      rw [finite?, Decimal.Binary64.ofText?_pointFreeText]
      rfl
    | infinite negative => cases h
    | nan => cases h
  | boolean b =>
    have ht := trimmed_raw (v := .boolean b) (show Kind.boolean ≠ .string by decide)
    rw [Value.kind, Kind.read?, ht]
    cases b <;> decide
  | date d =>
    have ht := trimmed_raw (v := .date d) (show Kind.date ≠ .string by decide)
    rw [Value.kind, Kind.read?, ht]
    show (Calendar.Date.ofText? d.text).map Value.date = _
    rw [Calendar.Date.ofText?_text, Option.map_some]

/-- Among finite values of one kind the text tells them apart. -/
theorem Value.eq_of_raw {v w : Value} (hv : v.isFinite = true) (hw : w.isFinite = true)
    (hk : v.kind = w.kind) (h : v.raw = w.raw) : v = w := by
  have hread := Kind.read?_raw hv
  rw [hk, h, Kind.read?_raw hw] at hread
  exact (Option.some.inj hread).symm

namespace Slot

variable {slot : Slot} {v : Value}

/-- A slot without choices recalls every value; one with choices recalls a value if the text of the
value picks a choice whose key has that value. -/
def Recalls (slot : Slot) (v : Value) : Prop :=
  slot.choices = [] ∨ ((slot.choice? v.raw).bind fun choice => slot.kind.read? choice.key) = some v

instance (slot : Slot) (v : Value) : Decidable (slot.Recalls v) :=
  inferInstanceAs (Decidable (_ ∨ _))

/-- A slot converts the text of a value back to the value just if it recalls the value. -/
theorem convert_raw_iff (hk : slot.kind.accepts v = true) (h : v.isFinite = true) :
    slot.convert v.raw = .ok v ↔ slot.Recalls v := by
  unfold convert Recalls
  split
  · rename_i hslot
    rw [Kind.convert_eq_ok, ← Kind.accepts_iff.1 hk, Kind.read?_raw h]
    simp [hslot]
  · rename_i hslot
    cases slot.choice? v.raw with
    | none => simp [hslot]
    | some choice => simp [hslot, Kind.convert_eq_ok]

end Slot

end Segmentation

/-!
# Splitting texts

A text is split at the occurrences of a separator, which are looked for from left to right and do
not overlap. With several separators each piece is split again at the next one. A text *avoids* a
separator in front of another text if no occurrence begins in it, not even one that ends in the
other.

Main statements:

* `split_append`, `occurrences_append`: a text that avoids the separator joins the first piece and
  adds no occurrence;
* `splitAll_joined`: a text that avoids all separators is the first piece in front of any of them.
-/

namespace Segmentation.Text

/-- The pieces of a text between the occurrences of a separator, which is not empty. -/
def split (separator : List Char) : List Char → List (List Char)
  | [] => [[]]
  | c :: cs =>
    if separator <+: c :: cs then [] :: split separator (cs.drop (separator.length - 1))
    else (split separator cs).modifyHead fun piece => c :: piece
termination_by cs => cs.length
decreasing_by
  all_goals simp only [List.length_drop, List.length_cons]
  all_goals omega

/-- The pieces after splitting at each of several separators in turn. -/
def splitAll : List (List Char) → List Char → List (List Char)
  | [], cs => [cs]
  | separator :: separators, cs => (split separator cs).flatMap (splitAll separators)

/-- How many occurrences of a separator begin in a text. -/
def occurrences (separator : List Char) : List Char → Nat
  | [] => 0
  | c :: cs => (if separator <+: c :: cs then 1 else 0) + occurrences separator cs

/-- No occurrence of the separator begins in the first text in front of the second. -/
def Avoids (separator : List Char) : List Char → List Char → Prop
  | [], _ => True
  | c :: cs, rest => ¬ separator <+: c :: (cs ++ rest) ∧ Avoids separator cs rest

variable {separator cs rest : List Char}

/-! ## Texts without a separator -/

theorem avoids_append {as bs : List Char} :
    Avoids separator (as ++ bs) rest ↔
      Avoids separator as (bs ++ rest) ∧ Avoids separator bs rest := by
  induction as with
  | nil => simp [Avoids]
  | cons a as ih => simp [Avoids, ih, and_assoc]

/-- Without its first character there is no separator. -/
theorem avoids_of_not_mem {x : Char} {xs : List Char} (h : x ∉ cs) : Avoids (x :: xs) cs rest := by
  induction cs with
  | nil => trivial
  | cons c cs ih =>
    rw [List.mem_cons, not_or] at h
    exact ⟨fun hp => h.1 (List.cons_prefix_cons.1 hp).1, ih h.2⟩

/-- Without its second character there is no separator of two, unless the next text completes it. -/
theorem avoids_pair {x y d : Char} (h : y ∉ cs) (hd : d ≠ y) : Avoids [x, y] cs (d :: rest) := by
  induction cs with
  | nil => trivial
  | cons c cs ih =>
    rw [List.mem_cons, not_or] at h
    refine ⟨fun hp => ?_, ih h.2⟩
    have hy := (List.cons_prefix_cons.1 hp).2
    cases cs with
    | nil => exact hd (List.singleton_prefix_cons_iff.1 hy).symm
    | cons e cs => exact h.2 (List.mem_cons.2 (.inl (List.singleton_prefix_cons_iff.1 hy)))

/-- An occurrence of a separator contains one of what follows the first character in it. -/
theorem avoids_cons {x : Char} {xs : List Char} (h : Avoids xs cs rest) (hrest : ¬ xs <+: rest) :
    Avoids (x :: xs) cs rest := by
  induction cs with
  | nil => trivial
  | cons c cs ih =>
    refine ⟨fun hp => ?_, ih h.2⟩
    have hxs := (List.cons_prefix_cons.1 hp).2
    cases cs with
    | nil => exact hrest hxs
    | cons d cs => exact h.2.1 hxs

theorem avoids_concat {x d : Char} {xs : List Char} (h : Avoids xs (cs ++ [d]) rest) (hd : d ≠ x) :
    Avoids (x :: xs) (cs ++ [d]) rest := by
  obtain ⟨hcs, hlast, -⟩ := avoids_append.1 h
  refine avoids_append.2 ⟨avoids_cons hcs hlast, ?_, trivial⟩
  exact fun hp => hd (List.cons_prefix_cons.1 hp).1.symm

theorem not_prefix_of_avoids (h : Avoids separator cs rest) (hne : cs ≠ []) :
    ¬ separator <+: cs ++ rest := by
  cases cs with
  | nil => exact absurd rfl hne
  | cons c cs => exact h.1

theorem split_cons_of_prefix {c : Char} (h : separator <+: c :: cs) :
    split separator (c :: cs) = [] :: split separator (cs.drop (separator.length - 1)) := by
  rw [split, if_pos h]

theorem split_cons_of_not_prefix {c : Char} (h : ¬ separator <+: c :: cs) :
    split separator (c :: cs) = (split separator cs).modifyHead fun piece => c :: piece := by
  rw [split, if_neg h]

theorem split_ne_nil (separator cs : List Char) : split separator cs ≠ [] := by
  fun_induction split separator cs with
  | case1 => simp
  | case2 => simp
  | case3 c cs _ ih => simpa using ih

/-- A text that avoids the separator joins the first piece of what is behind it. -/
theorem split_append (h : Avoids separator cs rest) :
    split separator (cs ++ rest) = (split separator rest).modifyHead fun piece => cs ++ piece := by
  induction cs with
  | nil =>
    rw [List.nil_append]
    cases split separator rest <;> rfl
  | cons c cs ih =>
    obtain ⟨hc, hcs⟩ := h
    rw [List.cons_append, split_cons_of_not_prefix hc, ih hcs, List.modifyHead_modifyHead]
    rfl

theorem split_of_avoids (h : Avoids separator cs []) : split separator cs = [cs] := by
  have hs := split_append h
  rwa [List.append_nil, split, List.modifyHead_cons, List.append_nil] at hs

theorem split_separator (hne : separator ≠ []) :
    split separator (separator ++ rest) = [] :: split separator rest := by
  cases separator with
  | nil => exact absurd rfl hne
  | cons x xs =>
    rw [List.cons_append, split_cons_of_prefix ⟨rest, List.cons_append⟩]
    simp

theorem split_joined (hne : separator ≠ []) (h : Avoids separator cs (separator ++ rest)) :
    split separator (cs ++ (separator ++ rest)) = cs :: split separator rest := by
  rw [split_append h, split_separator hne, List.modifyHead_cons, List.append_nil]

theorem occurrences_append (h : Avoids separator cs rest) :
    occurrences separator (cs ++ rest) = occurrences separator rest := by
  induction cs with
  | nil => rfl
  | cons c cs ih =>
    obtain ⟨hc, hcs⟩ := h
    rw [List.cons_append, occurrences, if_neg hc, ih hcs, Nat.zero_add]

/-- A separator whose occurrences cannot overlap here counts once. -/
theorem occurrences_separator (hne : separator ≠ []) (h : Avoids separator separator.tail rest) :
    occurrences separator (separator ++ rest) = 1 + occurrences separator rest := by
  cases separator with
  | nil => exact absurd rfl hne
  | cons x xs =>
    have hx : x :: xs <+: x :: (xs ++ rest) := ⟨rest, List.cons_append⟩
    have hrest : Avoids (x :: xs) xs rest := h
    rw [List.cons_append, occurrences, if_pos hx, occurrences_append hrest]

theorem occurrences_singleton (x : Char) (cs : List Char) : occurrences [x] cs = cs.count x := by
  induction cs with
  | nil => rfl
  | cons c cs ih =>
    simp only [occurrences, ih, List.count_cons, List.singleton_prefix_cons_iff, beq_iff_eq,
      @eq_comm _ x c]
    omega

/-! ## Several separators -/

/-- A text that avoids several separators whatever is behind it. -/
def AvoidsAll (separators : List (List Char)) (cs : List Char) : Prop :=
  ∀ separator ∈ separators, ∀ rest, Avoids separator cs rest

variable {separators : List (List Char)}

theorem splitAll_of_avoidsAll (h : AvoidsAll separators cs) : splitAll separators cs = [cs] := by
  induction separators with
  | nil => rfl
  | cons s separators ih =>
    have hrest := ih fun separator hs => h separator (List.mem_cons_of_mem _ hs)
    rw [splitAll, split_of_avoids (h s List.mem_cons_self []), List.flatMap_singleton, hrest]

/-- A text that avoids all separators is the first piece in front of one of them. -/
theorem splitAll_joined (hmem : separator ∈ separators) (hne : separator ≠ [])
    (hother : ∀ s ∈ separators, s ≠ separator → ∀ rest, Avoids s separator rest)
    (h : AvoidsAll separators cs) (rest : List Char) :
    splitAll separators (cs ++ (separator ++ rest)) = cs :: splitAll separators rest := by
  induction separators generalizing rest with
  | nil => cases hmem
  | cons s separators ih =>
    have hcs : AvoidsAll separators cs := fun t ht => h t (List.mem_cons_of_mem _ ht)
    rw [splitAll, splitAll]
    by_cases hs : s = separator
    · subst hs
      rw [split_joined hne (h s List.mem_cons_self _), List.flatMap_cons,
        splitAll_of_avoidsAll hcs, List.singleton_append]
    · -- The text and the separator join the first piece, which is then split at the others.
      have hmem := (List.mem_cons.1 hmem).resolve_left (Ne.symm hs)
      have hsep := hother s List.mem_cons_self hs rest
      rw [split_append (h s List.mem_cons_self _), split_append hsep, List.modifyHead_modifyHead]
      cases hpieces : split s rest with
      | nil => exact absurd hpieces (split_ne_nil s rest)
      | cons piece pieces =>
        have hpiece := ih hmem (fun t ht => hother t (List.mem_cons_of_mem _ ht)) hcs piece
        rw [List.modifyHead_cons, List.flatMap_cons, List.flatMap_cons, Function.comp_apply, hpiece,
          List.cons_append]

end Segmentation.Text

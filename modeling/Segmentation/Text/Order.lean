/-!
# Order of texts

Texts are ordered by their code points, which is also the order of their UTF-8 bytes. Lists offered
to a user are sorted by label, and entries with one label keep their order. Main statements:
`pairwise_sortBy`, `sortBy_perm` and `filter_sortBy` (the sort is stable).
-/

namespace Segmentation.Text

/-- Whether one text stands before another or is equal to it. -/
def before (s t : String) : Bool :=
  decide (s ≤ t)

/-- Sorts by a text of each element; equal ones keep their order. -/
def sortBy {α : Type} (label : α → String) (xs : List α) : List α :=
  xs.mergeSort fun x y => before (label x) (label y)

theorem before_trans {s t u : String} (h₁ : before s t = true) (h₂ : before t u = true) :
    before s u = true :=
  decide_eq_true (String.le_trans (of_decide_eq_true h₁) (of_decide_eq_true h₂))

theorem before_total (s t : String) : (before s t || before t s) = true := by
  simpa [before] using String.le_total s t

variable {α : Type} (label : α → String) (xs : List α)

theorem sortBy_perm : (sortBy label xs).Perm xs :=
  List.mergeSort_perm xs _

theorem pairwise_sortBy :
    (sortBy label xs).Pairwise fun x y => before (label x) (label y) = true :=
  @List.pairwise_mergeSort α (fun x y => before (label x) (label y))
    (fun _ _ _ => before_trans) (fun _ _ => before_total _ _) xs

/-- A run of the list that is in order already keeps its order. -/
theorem sublist_sortBy {ys : List α} (h : ys.Pairwise fun x y => before (label x) (label y) = true)
    (hs : ys.Sublist xs) : ys.Sublist (sortBy label xs) :=
  @List.sublist_mergeSort α (fun x y => before (label x) (label y)) xs
    (fun _ _ _ => before_trans) (fun _ _ => before_total _ _) ys h hs

/-- Elements with one label keep their order. -/
theorem filter_sortBy (key : String) :
    (sortBy label xs).filter (fun x => label x = key) = xs.filter fun x => label x = key := by
  have hrun : (xs.filter fun x => label x = key).Pairwise
      fun x y => before (label x) (label y) = true := by
    refine List.pairwise_filter.2 (List.pairwise_of_forall fun x y hx hy => decide_eq_true ?_)
    have hlabel : label x = label y := (of_decide_eq_true hx).trans (of_decide_eq_true hy).symm
    exact hlabel ▸ String.le_refl (label x)
  have hkept := (sublist_sortBy label xs hrun List.filter_sublist).filter fun x => label x = key
  rw [List.filter_filter] at hkept
  simp only [Bool.and_self] at hkept
  exact (hkept.eq_of_length ((sortBy_perm label xs).filter _).length_eq.symm).symm

/-- An element is first if it stands before the first of the others, or if there are none. -/
theorem head?_sortBy_cons (x : α) :
    (sortBy label (x :: xs)).head? = some (((sortBy label xs).head?.map fun y =>
      if before (label x) (label y) then x else y).getD x) := by
  obtain ⟨ys, zs, hcons, hsort, hys⟩ :=
    @List.mergeSort_cons α (fun x y => before (label x) (label y))
      (fun _ _ _ => before_trans) (fun _ _ => before_total _ _) x xs
  have hpairwise := pairwise_sortBy label (x :: xs)
  rw [sortBy] at hpairwise
  rw [sortBy, sortBy, hcons, hsort]
  rw [hcons] at hpairwise
  cases ys with
  | nil =>
    cases zs with
    | nil => rfl
    | cons z zs =>
      have hx := (List.pairwise_cons.1 hpairwise).1 z List.mem_cons_self
      simp [hx]
  | cons y ys =>
    have hy : before (label x) (label y) = false := by
      simpa using hys y List.mem_cons_self
    simp [hy]

end Segmentation.Text

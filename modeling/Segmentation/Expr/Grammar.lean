import Segmentation.Expr.Reader
import Segmentation.Text.Run

/-!
# Reading finds what was written

The reader accepts exactly the texts of well-formed expressions, and finds the expression whose text
it was given; so no two expressions have one text. Each reader comes with two lemmas: `…_text`, it
finds what was written in front of anything that cannot prolong it, and `…_sound`, what it found was
written there. Main statement: `rules_eq_ok_iff`.
-/

namespace Segmentation.Expr

open Text (StopsAt)

/-! ## Identifiers -/

theorem isIdentifier_ofList {cs : List Char} :
    IsIdentifier cs ↔ ∃ c rest, cs = c :: rest ∧ Text.isIdentifierStart c = true ∧
      ∀ d ∈ rest, Text.isIdentifierPart d = true := by
  rw [IsIdentifier, Text.isIdentifier, String.toList_ofList]
  cases cs with
  | nil => simp
  | cons c rest =>
    rw [Bool.and_eq_true, List.all_eq_true]
    constructor
    · exact fun h => ⟨c, rest, rfl, h⟩
    · rintro ⟨d, tail, heq, h⟩
      obtain ⟨rfl, rfl⟩ := List.cons.inj heq
      exact h

theorem identifier?_text {cs rest : List Char} (h : IsIdentifier cs)
    (hrest : StopsAt Text.isIdentifierPart rest) : identifier? (cs ++ rest) = some (cs, rest) := by
  obtain ⟨c, tail, rfl, hc, htail⟩ := isIdentifier_ofList.1 h
  have hstart : ∀ d ∈ (tail ++ rest).takeWhile Text.isIdentifierStart,
      Text.isIdentifierPart d = true :=
    fun d hd => Text.isIdentifierPart_of_start (List.all_eq_true.1 List.all_takeWhile d hd)
  have hsplit := List.takeWhile_append_dropWhile (p := Text.isIdentifierStart) (l := tail ++ rest)
  have hrun : tail = (tail ++ rest).takeWhile Text.isIdentifierStart ++
      ((tail ++ rest).dropWhile Text.isIdentifierStart).takeWhile Text.isIdentifierPart := by
    have h₁ := Text.takeWhile_run htail hrest
    rw [← hsplit, List.takeWhile_append_of_pos hstart] at h₁
    exact h₁.symm
  have hleft : rest =
      ((tail ++ rest).dropWhile Text.isIdentifierStart).dropWhile Text.isIdentifierPart := by
    have h₁ := Text.dropWhile_run htail hrest
    rw [← hsplit, List.dropWhile_append_of_pos hstart] at h₁
    exact h₁.symm
  simp only [identifier?, List.cons_append, List.takeWhile_cons_of_pos hc,
    List.dropWhile_cons_of_pos hc, reduceCtorEq, if_false, ← hrun, ← hleft]

theorem identifier?_sound {cs found rest : List Char} (h : identifier? cs = some (found, rest)) :
    cs = found ++ rest ∧ IsIdentifier found ∧ StopsAt Text.isIdentifierPart rest := by
  simp only [identifier?] at h
  split at h
  · cases h
  · rename_i hne
    obtain ⟨rfl, rfl⟩ := Prod.mk.inj (Option.some.inj h)
    refine ⟨by rw [List.append_assoc, List.takeWhile_append_dropWhile,
      List.takeWhile_append_dropWhile], ?_, Text.stopsAt_dropWhile _ _⟩
    have hstart := fun d => List.all_eq_true.1
      (List.all_takeWhile (p := Text.isIdentifierStart) (l := cs)) d
    refine isIdentifier_ofList.2 ?_
    cases hs : cs.takeWhile Text.isIdentifierStart with
    | nil => exact absurd hs hne
    | cons c tail =>
      rw [hs] at hstart
      refine ⟨c, _, rfl, hstart c List.mem_cons_self, fun d hd => ?_⟩
      rcases List.mem_append.1 hd with hd | hd
      · exact Text.isIdentifierPart_of_start (hstart d (List.mem_cons_of_mem _ hd))
      · exact List.all_eq_true.1 List.all_takeWhile d hd

/-- A character that is no letter, digit or underscore ends an identifier. -/
theorem stopsAt_part_colon (rest : List Char) : StopsAt Text.isIdentifierPart (':' :: rest) :=
  Text.stopsAt_cons.2 (by decide)

theorem stopsAt_part_paren (rest : List Char) : StopsAt Text.isIdentifierPart ('(' :: rest) :=
  Text.stopsAt_cons.2 (by decide)

/-! ## Arguments -/

/-- The characters that end an argument. -/
theorem stopsAt_argument {c : Char} {rest : List Char} (h : c = ',' ∨ c = ')') :
    StopsAt isArgumentChar (c :: rest) := by
  refine Text.stopsAt_cons.2 ?_
  rcases h with rfl | rfl <;> decide

theorem argument?_text {a : Argument} {rest : List Char} (h : a.WellFormed)
    (hrest : StopsAt isArgumentChar rest) : argument? (a.text ++ rest) = some (a, rest) := by
  cases a with
  | bare cs =>
    obtain ⟨hne, hall⟩ := h
    have ht := Text.takeWhile_run hall hrest
    have hd := Text.dropWhile_run hall hrest
    cases cs with
    | nil => exact absurd rfl hne
    | cons c cs =>
      rw [Argument.text]
      have hq : c ≠ '"' := by
        rintro rfl
        exact absurd (hall _ List.mem_cons_self) (by decide)
      unfold argument?
      split
      · exact absurd (List.cons.inj ‹_›).1 hq
      · simp only [ht, hd, reduceCtorEq, if_false]
  | quoted items =>
    rw [Argument.text, List.cons_append, List.append_assoc, List.singleton_append, argument?,
      Text.Quoted.read?_items h]
    rfl

theorem argument?_sound {cs rest : List Char} {a : Argument} (h : argument? cs = some (a, rest)) :
    cs = a.text ++ rest ∧ a.WellFormed := by
  unfold argument? at h
  split at h
  · obtain ⟨⟨items, r⟩, hr, heq⟩ := Option.map_eq_some_iff.1 h
    obtain ⟨rfl, rfl⟩ := Prod.mk.inj heq
    obtain ⟨rfl, hw⟩ := Text.Quoted.eq_of_read? hr
    exact ⟨by simp [Argument.text], hw⟩
  · dsimp only at h
    split at h
    · cases h
    · rename_i hne
      obtain ⟨rfl, rfl⟩ := Prod.mk.inj (Option.some.inj h)
      exact ⟨List.takeWhile_append_dropWhile.symm, hne,
        fun c hc => List.all_eq_true.1 List.all_takeWhile c hc⟩

/-- Neither a comma nor a parenthesis begins an argument. -/
theorem argument?_eq_none {c : Char} {rest : List Char} (h : c = ',' ∨ c = ')') :
    argument? (c :: rest) = none := by
  have hc : isArgumentChar c = false := Text.stopsAt_cons.1 (@stopsAt_argument c rest h)
  unfold argument?
  split
  · rename_i heq
    cases (List.cons.inj heq).1
    exact absurd h (by decide)
  · simp [hc]

theorem optionalArgument_text {a : Option Argument} {c : Char} {rest : List Char}
    (h : ∀ b ∈ a, b.WellFormed) (hc : c = ',' ∨ c = ')') :
    optionalArgument (optionalText a ++ c :: rest) = (a, c :: rest) := by
  cases a with
  | none => simp only [optionalText, List.nil_append, optionalArgument, argument?_eq_none hc]
  | some b =>
    simp only [optionalText, optionalArgument, argument?_text (h b rfl) (stopsAt_argument hc)]

theorem optionalArgument_sound (cs : List Char) :
    cs = optionalText (optionalArgument cs).1 ++ (optionalArgument cs).2 ∧
      ∀ b ∈ (optionalArgument cs).1, b.WellFormed := by
  unfold optionalArgument
  split
  · rename_i a rest h
    obtain ⟨rfl, hw⟩ := argument?_sound h
    exact ⟨rfl, fun b hb => by cases hb; exact hw⟩
  · exact ⟨rfl, fun b hb => by cases hb⟩

/-! ## Argument lists -/

/-- A blank after a comma is no part of an argument, a comma or a parenthesis. -/
theorem stopsAt_gap {a : Option Argument} {c : Char} {rest : List Char}
    (h : ∀ b ∈ a, b.WellFormed) (hc : c = ',' ∨ c = ')') :
    StopsAt isGap (optionalText a ++ c :: rest) := by
  cases a with
  | none =>
    refine Text.stopsAt_cons.2 ?_
    rcases hc with rfl | rfl <;> decide
  | some b =>
    cases b with
    | bare cs =>
      obtain ⟨hne, hall⟩ := h _ rfl
      cases cs with
      | nil => exact absurd rfl hne
      | cons d cs =>
        have hd := hall d List.mem_cons_self
        refine Text.stopsAt_cons.2 ?_
        simp only [isGap, Bool.or_eq_false_iff, beq_eq_false_iff_ne]
        constructor <;> rintro rfl <;> exact absurd hd (by decide)
    | quoted items => exact Text.stopsAt_cons.2 (by decide)

theorem moreArguments_text {more : List (List Char × Option Argument)} (rest : List Char)
    (hgap : ∀ p ∈ more, ∀ c ∈ p.1, isGap c = true) (hmore : ∀ p ∈ more, ∀ a ∈ p.2, a.WellFormed) :
    moreArguments (moreText more ++ ')' :: rest) = .ok (more, rest) := by
  induction more with
  | nil => rw [moreText, List.flatMap_nil, List.nil_append, moreArguments]
  | cons p more ih =>
    obtain ⟨gap, argument⟩ := p
    have ih := ih (fun q hq => hgap q (List.mem_cons_of_mem _ hq))
      (fun q hq => hmore q (List.mem_cons_of_mem _ hq))
    have hg := hgap _ List.mem_cons_self
    have ha := hmore _ List.mem_cons_self
    obtain ⟨c, tail, htail, hc⟩ : ∃ c tail, moreText more ++ ')' :: rest = c :: tail ∧
        (c = ',' ∨ c = ')') := by
      cases more with
      | nil => exact ⟨')', rest, rfl, .inr rfl⟩
      | cons q more => exact ⟨',', _, rfl, .inl rfl⟩
    rw [moreText, List.flatMap_cons, ← moreText]
    simp only [List.cons_append, List.append_assoc]
    rw [moreArguments]
    simp only [htail, Text.takeWhile_run hg (stopsAt_gap ha hc),
      Text.dropWhile_run hg (stopsAt_gap ha hc), optionalArgument_text ha hc]
    rw [← htail, ih]

theorem moreArguments_sound {cs rest : List Char} {more : List (List Char × Option Argument)}
    (h : moreArguments cs = .ok (more, rest)) :
    cs = moreText more ++ ')' :: rest ∧ (∀ p ∈ more, ∀ c ∈ p.1, isGap c = true) ∧
      ∀ p ∈ more, ∀ a ∈ p.2, a.WellFormed := by
  fun_induction moreArguments cs generalizing more rest with
  | case1 r =>
    obtain ⟨rfl, rfl⟩ := Prod.mk.inj (Except.ok.inj h)
    exact ⟨rfl, by simp, by simp⟩
  | case2 =>
    rename_i r gap next m s hs ih
    obtain ⟨rfl, rfl⟩ := Prod.mk.inj (Except.ok.inj h)
    obtain ⟨hcs, hgap, hmore⟩ := ih hs
    obtain ⟨ht, hw⟩ := optionalArgument_sound (r.dropWhile isGap)
    refine ⟨?_, List.forall_mem_cons.2 ⟨fun c hc => ?_, hgap⟩, List.forall_mem_cons.2 ⟨hw, hmore⟩⟩
    · rw [moreText, List.flatMap_cons, ← moreText]
      simp only [List.cons_append, List.append_assoc]
      rw [← hcs, ← ht]
      exact congrArg _ List.takeWhile_append_dropWhile.symm
    · exact List.all_eq_true.1 List.all_takeWhile c hc
  | case3 => cases h
  | case4 => cases h

/-! ## Segments -/

/-- No identifier reads as the word for negation with a blank behind it. -/
theorem negation?_text (negated : Bool) {field rest : List Char} (h : IsIdentifier field) :
    negation? ((if negated then negation else []) ++ (field ++ ':' :: rest)) =
      (negated, field ++ ':' :: rest) := by
  cases negated with
  | true => rfl
  | false =>
    simp only [Bool.false_eq_true, if_false, List.nil_append]
    unfold negation?
    split
    · rename_i r heq
      obtain ⟨c, tail, rfl, -, htail⟩ := isIdentifier_ofList.1 h
      have hblank : ' ' ∉ tail := fun hm => absurd (htail _ hm) (by decide)
      match tail with
      | [] => simp at heq
      | [_] => simp at heq
      | [_, _] => simp at heq
      | _ :: _ :: d :: _ =>
        simp only [List.cons_append, List.cons.injEq] at heq
        exact absurd heq.2.2.2.1 (fun hd => hblank (hd ▸ by simp))
    · rfl

theorem negation?_sound (cs : List Char) :
    cs = (if (negation? cs).1 then negation else []) ++ (negation? cs).2 := by
  unfold negation?
  split <;> rfl

theorem expect_sound {c : Char} {cs rest : List Char} (h : expect c cs = .ok ((), rest)) :
    cs = c :: rest := by
  unfold expect at h
  split at h
  · split at h
    · rename_i hc
      obtain ⟨-, rfl⟩ := Prod.mk.inj (Except.ok.inj h)
      rw [hc]
    · cases h
  · cases h

theorem key_sound {expected : Expectation} {cs found rest : List Char}
    (h : key expected cs = .ok (found, rest)) : cs = found ++ rest ∧ IsIdentifier found := by
  unfold key at h
  split at h
  · rename_i hi
    rw [Except.ok.inj h] at hi
    exact ⟨(identifier?_sound hi).1, (identifier?_sound hi).2.1⟩
  · cases h

theorem segment_text {s : Segment} (h : s.WellFormed) (rest : List Char) :
    segment (s.text ++ rest) = .ok (s, rest) := by
  obtain ⟨c, tail, htail, hc⟩ : ∃ c tail, moreText s.more ++ ')' :: rest = c :: tail ∧
      (c = ',' ∨ c = ')') := by
    cases s.more with
    | nil => exact ⟨')', rest, rfl, .inr rfl⟩
    | cons q more => exact ⟨',', _, rfl, .inl rfl⟩
  simp only [segment, Segment.text, List.append_assoc, List.cons_append, List.nil_append,
    negation?_text s.negated h.field, key, identifier?_text h.field (stopsAt_part_colon _),
    identifier?_text h.operation (stopsAt_part_paren _), expect, if_true, bind, Except.bind, htail,
    optionalArgument_text h.first hc]
  rw [← htail, moreArguments_text rest h.gaps h.more]
  rfl

theorem segment_sound {cs rest : List Char} {s : Segment} (h : segment cs = .ok (s, rest)) :
    cs = s.text ++ rest ∧ s.WellFormed := by
  simp only [segment, bind, Except.bind, pure, Except.pure] at h
  have h₀ := negation?_sound cs
  split at h
  · cases h
  · rename_i field hfield
    obtain ⟨h₁, hf⟩ := key_sound hfield
    split at h
    · cases h
    · rename_i colon hcolon
      have h₂ := expect_sound hcolon
      split at h
      · cases h
      · rename_i operation hoperation
        obtain ⟨h₃, ho⟩ := key_sound hoperation
        split at h
        · cases h
        · rename_i opening hopening
          have h₄ := expect_sound hopening
          obtain ⟨h₅, ha⟩ := optionalArgument_sound opening.2
          split at h
          · cases h
          · rename_i more hmore
            obtain ⟨h₆, hg, hm⟩ := moreArguments_sound hmore
            obtain ⟨rfl, rfl⟩ := Prod.mk.inj (Except.ok.inj h)
            refine ⟨?_, hf, ho, ha, hg, hm⟩
            simp only [Segment.text, List.append_assoc, List.cons_append, List.nil_append]
            rw [← h₆, ← h₅, ← h₄, ← h₃, ← h₂, ← h₁, ← h₀]

/-! ## Expressions -/

theorem connector?_text (c : Connector) (rest : List Char) :
    connector? (c.text ++ rest) = some (c, rest) := by
  cases c <;> rfl

theorem connector?_sound {cs rest : List Char} {c : Connector}
    (h : connector? cs = some (c, rest)) : cs = c.text ++ rest := by
  unfold connector? at h
  split at h <;> first
    | (cases h; done)
    | (obtain ⟨rfl, rfl⟩ := Prod.mk.inj (Option.some.inj h); rfl)

/-- The characters of what follows the first segment. -/
def tailText (tail : List (Connector × Segment)) : List Char :=
  tail.flatMap fun (connector, segment) => connector.text ++ segment.text

theorem tailText_cons (c : Connector) (s : Segment) (tail : List (Connector × Segment)) :
    tailText ((c, s) :: tail) = c.text ++ (s.text ++ tailText tail) := by
  rw [tailText, List.flatMap_cons, ← tailText, List.append_assoc]

theorem rules_text {head : Segment} {tail : List (Connector × Segment)} (hhead : head.WellFormed)
    (htail : ∀ p ∈ tail, p.2.WellFormed) :
    rules (head.text ++ tailText tail) = .ok ⟨head, tail⟩ := by
  have hs := segment_text hhead (tailText tail)
  unfold rules
  split
  · rw [‹segment _ = _›] at hs
    cases hs
  · rw [‹segment _ = _›] at hs
    obtain ⟨rfl, rfl⟩ := Prod.mk.inj (Except.ok.inj hs)
    cases tail with
    | nil => rfl
    | cons p tail =>
      obtain ⟨connector, next⟩ := p
      have hc := connector?_text connector (next.text ++ tailText tail)
      rw [← tailText_cons] at hc
      have ih := rules_text (htail _ List.mem_cons_self)
        fun q hq => htail q (List.mem_cons_of_mem _ hq)
      split
      · rw [‹connector? _ = _›] at hc
        cases hc
      · rw [‹connector? _ = _›] at hc
        obtain ⟨rfl, rfl⟩ := Prod.mk.inj (Option.some.inj hc)
        rw [ih]

theorem rules_sound {cs : List Char} {e : Expression} (h : rules cs = .ok e) :
    cs = e.text ∧ e.WellFormed := by
  fun_induction rules cs generalizing e with
  | case1 => cases h
  | case2 =>
    rename_i hs _
    obtain rfl := Except.ok.inj h
    obtain ⟨hcs, hw⟩ := segment_sound hs
    exact ⟨hcs, hw, by simp⟩
  | case3 => cases h
  | case4 =>
    rename_i hs _ _ hc _ ht ih
    obtain rfl := Except.ok.inj h
    obtain ⟨hcs, hw⟩ := segment_sound hs
    obtain ⟨hn, hnw⟩ := ih ht
    refine ⟨?_, hw, List.forall_mem_cons.2 ⟨hnw.head, hnw.tail⟩⟩
    rw [hcs, connector?_sound hc, hn]
    simp [Expression.text]
  | case5 => cases h

/-- Reading finds an expression exactly in its text. -/
theorem rules_eq_ok_iff {cs : List Char} {e : Expression} :
    rules cs = .ok e ↔ e.WellFormed ∧ e.text = cs := by
  constructor
  · exact fun h => ⟨(rules_sound h).2, (rules_sound h).1.symm⟩
  · rintro ⟨hw, rfl⟩
    exact rules_text hw.head hw.tail

end Segmentation.Expr

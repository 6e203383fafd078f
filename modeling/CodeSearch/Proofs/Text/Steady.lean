import CodeSearch.Proofs.Text.Lowering
import Mathlib.Data.List.Basic

/-!
Texts whose lower-case form does not depend on what surrounds them.

A part of a text keeps the form that it has on its own if each capital sigma in it ends a word in both
or in neither (`KeepsForm`). A text is steady if no surroundings can change its form (`Steady`): what
is seen from each sigma inside the text settles the matter. A text that is not steady is changed by one
letter in front of it or behind it, so that its own form is not even found there
(`exists_lost_of_not_steady`). Without a capital sigma every text is steady.
-/
set_option autoImplicit false

namespace CodeSearch.Text

/-! ## Words in their surroundings -/

/-- A part of a text has the same lower-case form there as on its own: each capital sigma in it ends a
word in both or in neither. -/
def KeepsForm (before part after : List Char) : Prop :=
  ∀ left right, part = left ++ capitalSigma :: right →
    endsWord (left.reverse ++ before) (right ++ after) = endsWord left.reverse right

theorem keepsForm_iff {before part after : List Char} :
    KeepsForm before part after ↔ lowerWithin before part after = lowerFrom [] part := by
  rw [← lowerWithin_nil, lowerWithin_eq_iff]
  simp only [KeepsForm, List.append_nil]

/-- A part that keeps its form is found. -/
theorem lower_infix_of_keepsForm {before part after : List Char}
    (h : KeepsForm before.reverse part after) :
    lowerFrom [] part <:+: lowerFrom [] (before ++ part ++ after) := by
  refine ⟨lowerWithin [] before (part ++ after),
    lowerFrom (part.reverse ++ before.reverse) after, ?_⟩
  rw [← keepsForm_iff.mp h, List.append_assoc before, lowerFrom_append, lowerFrom_append,
    List.append_nil, List.append_assoc]

/-- A text whose lower-case form depends on nothing around it: of each capital sigma in it, what is seen
on both sides before the ends of the text settles whether it ends a word. -/
def Steady (part : List Char) : Prop :=
  ∀ left right, part = left ++ capitalSigma :: right →
    (nearest? left.reverse).any (fun c => !isCased c) ∨ (nearest? right).any isCased ∨
      (nearest? left.reverse).isSome ∧ (nearest? right).isSome

theorem steady_of_not_mem {part : List Char} (h : capitalSigma ∉ part) : Steady part := by
  rintro left right rfl
  exact absurd (List.mem_append_right left List.mem_cons_self) h

/-- A steady text keeps its form everywhere. -/
theorem Steady.keepsForm {part : List Char} (h : Steady part) (before after : List Char) :
    KeepsForm before part after := by
  intro left right hpart
  have hseen := h left right hpart
  simp only [endsWord, nextIsCased_eq, nearest?_append]
  cases hleft : nearest? left.reverse <;> cases hright : nearest? right <;> simp_all

theorem length_lowerWithin (before after before' after' part : List Char) :
    (lowerWithin before part after).length = (lowerWithin before' part after').length := by
  induction part generalizing before before' with
  | nil => rfl
  | cons c part ih =>
    rw [lowerWithin, lowerWithin, List.length_append, List.length_append, length_lowerAt,
      length_lowerAt, ih]

/-- No character that is looked through, and no capital sigma, becomes the small letter a. -/
theorem lowerAt_ne_a {c : Char}
    (hc : c = capitalSigma ∨ inRanges ignorableRanges c.toNat = true) (before after : List Char) :
    'a' ∉ lowerAt before c after := by
  have hruns : ∀ run ∈ lowerRuns, (0x61 : Int) < run.1 + run.2.2.2 ∨
      run.2.1 + run.2.2.2 < (0x61 : Int) ∨
      inRanges ignorableRanges (0x61 - run.2.2.2 : Int).toNat = false := by
    decide +kernel
  rcases hc with rfl | hc
  · rw [lowerAt_sigma]
    split <;> decide
  · unfold lowerAt
    split
    · decide
    · split
      · split <;> decide
      · rw [List.mem_singleton]
        intro ha
        rcases lowerChar_cases c with hsame | hnothing | ⟨run, hrun, hfirst, hlast, hmoved⟩
        · rw [← hsame, ← ha] at hc
          revert hc
          decide +kernel
        · rw [hnothing] at ha
          revert ha
          decide
        · rw [← ha] at hmoved
          have hplace : ('a'.toNat : Int) = 0x61 := rfl
          rcases hruns run hrun with hbelow | habove | hseen
          · omega
          · omega
          · have hsource : (0x61 - run.2.2.2 : Int).toNat = c.toNat := by omega
            rw [hsource, hc] at hseen
            cases hseen

theorem lowerAt_a (before after : List Char) : lowerAt before 'a' after = ['a'] := by
  rw [lowerAt, if_neg (by decide), if_neg (by decide)]
  decide +kernel

theorem lowerAt_ne_nil (c : Char) (before after : List Char) : lowerAt before c after ≠ [] := by
  intro h
  have hlength := congrArg List.length h
  rw [length_lowerAt] at hlength
  split at hlength <;> cases hlength

/-- Behind a small letter a, a text that changes its form there and does not start with that letter
itself is lost. -/
theorem lost_behind {c : Char} {part : List Char}
    (hc : c = capitalSigma ∨ inRanges ignorableRanges c.toNat = true)
    (hchanged : ¬ KeepsForm ['a'] (c :: part) []) :
    ¬ lowerFrom [] (c :: part) <:+: lowerFrom [] ('a' :: c :: part) := by
  rw [lowerFrom.eq_def [] ('a' :: c :: part)]
  dsimp only
  rw [lowerAt_a, List.singleton_append, List.infix_cons_iff]
  rintro (hfront | hlater)
  · rw [lowerFrom, List.prefix_cons_iff] at hfront
    rcases hfront with hnone | ⟨rest, hstart, -⟩
    · exact lowerAt_ne_nil c _ _ (List.append_eq_nil_iff.mp hnone).1
    · obtain ⟨d, ds, hd⟩ := List.exists_cons_of_ne_nil (lowerAt_ne_nil c [] part)
      rw [hd, List.cons_append] at hstart
      refine lowerAt_ne_a hc [] part ?_
      rw [hd, (List.cons.inj hstart).1]
      exact List.mem_cons_self
  · refine hchanged (keepsForm_iff.mpr ?_)
    rw [← lowerWithin_nil ['a'], ← lowerWithin_nil []] at hlater
    rw [← lowerWithin_nil []]
    exact (hlater.eq_of_length (length_lowerWithin ..)).symm

/-- In front of a small letter a, a text that changes its form there and does not end with that letter
itself is lost. -/
theorem lost_before {c : Char} {part : List Char}
    (hc : c = capitalSigma ∨ inRanges ignorableRanges c.toNat = true)
    (hchanged : ¬ KeepsForm [] (part ++ [c]) ['a']) :
    ¬ lowerFrom [] (part ++ [c]) <:+: lowerFrom [] ((part ++ [c]) ++ ['a']) := by
  rw [lowerFrom_append [] (part ++ [c]), lowerFrom, lowerAt_a, lowerFrom, List.append_nil,
    List.infix_concat_iff]
  rintro (hback | hearlier)
  · rw [lowerFrom_append, lowerFrom, lowerFrom, List.append_nil, List.suffix_concat_iff] at hback
    rcases hback with hnone | ⟨rest, hend, -⟩
    · exact lowerAt_ne_nil c _ _ (List.append_eq_nil_iff.mp hnone).2
    · obtain ⟨ds, d, hd⟩ := (List.eq_nil_or_concat' _).resolve_left
        (lowerAt_ne_nil c (part.reverse ++ []) [])
      rw [hd, ← List.append_assoc] at hend
      refine lowerAt_ne_a hc (part.reverse ++ []) [] ?_
      rw [hd, (List.append_inj' hend rfl).2]
      exact List.mem_append_right ds List.mem_cons_self
  · refine hchanged (keepsForm_iff.mpr ?_)
    rw [← lowerWithin_nil []] at hearlier ⊢
    exact (hearlier.eq_of_length (length_lowerWithin ..)).symm

theorem ignorable_of_nearest?_eq_none {cs : List Char} (h : nearest? cs = none) :
    ∀ c ∈ cs, inRanges ignorableRanges c.toNat = true := by
  intro c hc
  simpa using List.find?_eq_none.mp h c hc

/-- If nothing before a sigma is seen, the text starts with it or with what is looked through. -/
theorem exists_first_of_unseen {left : List Char} (right : List Char)
    (h : nearest? left.reverse = none) :
    ∃ c rest, left ++ capitalSigma :: right = c :: rest ∧
      (c = capitalSigma ∨ inRanges ignorableRanges c.toNat = true) := by
  cases left with
  | nil => exact ⟨capitalSigma, right, rfl, .inl rfl⟩
  | cons c left =>
    refine ⟨c, _, rfl, .inr (ignorable_of_nearest?_eq_none h c ?_)⟩
    exact List.mem_reverse.mpr List.mem_cons_self

/-- If nothing behind a sigma is seen, the text ends with it or with what is looked through. -/
theorem exists_last_of_unseen (left : List Char) {right : List Char} (h : nearest? right = none) :
    ∃ front c, left ++ capitalSigma :: right = front ++ [c] ∧
      (c = capitalSigma ∨ inRanges ignorableRanges c.toNat = true) := by
  rcases List.eq_nil_or_concat' right with rfl | ⟨middle, c, rfl⟩
  · exact ⟨left, capitalSigma, rfl, .inl rfl⟩
  · refine ⟨left ++ capitalSigma :: middle, c, by simp,
      .inr (ignorable_of_nearest?_eq_none h c ?_)⟩
    exact List.mem_append_right middle List.mem_cons_self

/-- A text that is not steady is lost behind a letter or in front of one. -/
theorem exists_lost_of_not_steady {part : List Char} (h : ¬ Steady part) :
    ∃ text, part <:+: text ∧ ¬ lowerFrom [] part <:+: lowerFrom [] text := by
  obtain ⟨left, right, hpart, hseen⟩ : ∃ left right, part = left ++ capitalSigma :: right ∧
      ¬ ((nearest? left.reverse).any (fun c => !isCased c) ∨ (nearest? right).any isCased ∨
        (nearest? left.reverse).isSome ∧ (nearest? right).isSome) := by
    simpa only [Steady, not_forall, exists_prop] using h
  obtain ⟨hleft, hright, hboth⟩ : (nearest? left.reverse).any (fun c => !isCased c) = false ∧
      (nearest? right).any isCased = false ∧
      ¬ ((nearest? left.reverse).isSome ∧ (nearest? right).isSome) := by
    simpa only [not_or, Bool.not_eq_true] using hseen
  have ha : (nearest? ['a']).any isCased = true := by decide +kernel
  cases hnearest : nearest? left.reverse with
  | none =>
    -- nothing before the sigma is seen: behind a letter it may end a word
    have hchanged : ¬ KeepsForm ['a'] part [] := by
      intro hkeeps
      have hsigma := hkeeps left right hpart
      simp only [endsWord, nextIsCased_eq, nearest?_append, hnearest, Option.none_or,
        List.append_nil, ha, hright] at hsigma
      cases hsigma
    obtain ⟨c, rest, hstart, hc⟩ := exists_first_of_unseen right hnearest
    rw [hpart, hstart] at hchanged ⊢
    exact ⟨_, (List.suffix_cons 'a' _).isInfix, lost_behind hc hchanged⟩
  | some d =>
    -- nothing behind the sigma is seen: in front of a letter it does not end a word
    have hnone : nearest? right = none := by
      rw [hnearest, Option.isSome_some] at hboth
      simpa using hboth
    have hcased : isCased d = true := by
      rw [hnearest] at hleft
      simpa using hleft
    have hchanged : ¬ KeepsForm [] part ['a'] := by
      intro hkeeps
      have hsigma := hkeeps left right hpart
      simp only [endsWord, nextIsCased_eq, nearest?_append, hnearest, hnone, Option.none_or,
        List.append_nil, ha, Option.any_some, hcased] at hsigma
      cases hsigma
    obtain ⟨front, c, hend, hc⟩ := exists_last_of_unseen left hnone
    rw [hpart, hend] at hchanged ⊢
    exact ⟨_, (List.prefix_append _ ['a']).isInfix, lost_before hc hchanged⟩

end CodeSearch.Text

import CodeSearch.Proofs.Decimal.Order
import CodeSearch.Cut
import CodeSearch.Search.Ranking
import Mathlib.Data.List.Basic

/-!
The best answers first.

Answers are put in the order of their similarities, and those with the same similarity stay in
theirs. As the order is stable it makes no difference whether answers are left out before or after
(`bestFirst_filter`), and if the worse ones are left out, not even whether the list was cut short in
between (`take_filter_of_pairwise`).
-/
set_option autoImplicit false

namespace CodeSearch.Search

open CodeSearch.Decimal (IsNumber place lt_iff_place_lt le_iff_place_le)

variable {α β : Type}

/-! ## Sorting and leaving out -/

section Sorting

variable {le : α → α → Bool}

/-- Elements that come before an element and are sorted behind it are those that it is not to come
before. -/
theorem eq_of_append_eq_append {a : α} {before after before' after' : List α}
    (h : before ++ after = before' ++ after') (hbefore : ∀ b ∈ before, le a b = false)
    (hafter : ∀ b ∈ after, le a b = true) (hbefore' : ∀ b ∈ before', le a b = false)
    (hafter' : ∀ b ∈ after', le a b = true) : before = before' ∧ after = after' := by
  have hpart : ∀ {l r : List α}, (∀ b ∈ l, le a b = false) → (∀ b ∈ r, le a b = true) →
      (l ++ r).filter (fun b => !le a b) = l := by
    intro l r hl hr
    have hleft : l.filter (fun b => !le a b) = l :=
      List.filter_eq_self.mpr fun b hb => by rw [hl b hb]; rfl
    have hright : r.filter (fun b => !le a b) = [] :=
      List.filter_eq_nil_iff.mpr fun b hb => by rw [hr b hb]; decide
    rw [List.filter_append, hleft, hright, List.append_nil]
  have hsame : before = before' := by
    rw [← hpart hbefore hafter, h, hpart hbefore' hafter']
  subst hsame
  exact ⟨rfl, List.append_cancel_left h⟩

/-- A stable order does not depend on what else is in the list. -/
theorem filter_mergeSort (trans : ∀ a b c, le a b → le b c → le a c)
    (total : ∀ a b, le a b || le b a) (p : α → Bool) (l : List α) :
    (l.mergeSort le).filter p = (l.filter p).mergeSort le := by
  induction l with
  | nil => simp
  | cons a l ih =>
    -- the first element comes right before those that it may come before
    obtain ⟨before, after, hwith, hwithout, hbefore⟩ := List.mergeSort_cons trans total a l
    have hafter : ∀ b ∈ after, le a b = true := by
      have hsorted := List.pairwise_mergeSort trans total (a :: l)
      rw [hwith] at hsorted
      exact (List.pairwise_cons.mp (List.pairwise_append.mp hsorted).2.1).1
    rw [hwithout, List.filter_append] at ih
    rw [hwith, List.filter_append]
    by_cases ha : p a = true
    · rw [List.filter_cons_of_pos ha, List.filter_cons_of_pos ha]
      obtain ⟨before', after', hwith', hwithout', hbefore'⟩ :=
        List.mergeSort_cons trans total a (l.filter p)
      have hafter' : ∀ b ∈ after', le a b = true := by
        have hsorted := List.pairwise_mergeSort trans total (a :: l.filter p)
        rw [hwith'] at hsorted
        exact (List.pairwise_cons.mp (List.pairwise_append.mp hsorted).2.1).1
      rw [hwithout'] at ih
      obtain ⟨hsame, hsame'⟩ := eq_of_append_eq_append ih
        (fun b hb => by simpa using hbefore b (List.mem_of_mem_filter hb))
        (fun b hb => hafter b (List.mem_of_mem_filter hb))
        (fun b hb => by simpa using hbefore' b hb) hafter'
      rw [hwith', hsame, hsame']
    · rw [List.filter_cons_of_neg ha, List.filter_cons_of_neg ha]
      exact ih

/-- If what is left out comes last, it makes no difference whether a list is cut before. -/
theorem take_filter_of_pairwise {p : α → Bool} {l : List α}
    (h : l.Pairwise fun a b => p b = true → p a = true) (n : Nat) :
    (l.take n).filter p = (l.filter p).take n := by
  induction l generalizing n with
  | nil => simp
  | cons a l ih =>
    obtain ⟨hfirst, hrest⟩ := List.pairwise_cons.mp h
    by_cases ha : p a = true
    · cases n with
      | zero => rfl
      | succ n =>
        rw [List.take_succ_cons, List.filter_cons_of_pos ha, List.filter_cons_of_pos ha,
          List.take_succ_cons, ih hrest]
    · -- nothing that comes later is kept either
      have hnone : ∀ b ∈ a :: l, ¬ p b = true := by
        refine List.forall_mem_cons.mpr ⟨ha, fun b hb hpb => ha (hfirst b hb hpb)⟩
      have hcut : ((a :: l).take n).filter p = [] :=
        List.filter_eq_nil_iff.mpr fun b hb => hnone b (List.mem_of_mem_take hb)
      rw [hcut, List.filter_eq_nil_iff.mpr hnone, List.take_nil]

end Sorting

/-- A bound that is not below zero counts from the front. -/
theorem upTo_eq_take {limit : Int} (hlimit : 0 ≤ limit) (xs : List α) :
    Cut.upTo limit xs = xs.take limit.toNat := by
  have hplace : Cut.place xs.length limit = min limit.toNat xs.length := by
    rw [Cut.place, if_neg (by omega)]
  rw [Cut.upTo, hplace, ← List.take_eq_take_min]

/-- What is cut off a list in order comes after everything that is left. -/
theorem mem_take_of_pairwise {R : α → α → Prop} {l : List α} (h : l.Pairwise R) (n : Nat) {a : α}
    (ha : a ∈ l) : a ∈ l.take n ∨ (l.take n).length = n ∧ ∀ b ∈ l.take n, R b a := by
  by_cases hkept : a ∈ l.take n
  · exact Or.inl hkept
  · have hcut : a ∈ l.drop n := by
      rw [← List.take_append_drop n l, List.mem_append] at ha
      exact ha.resolve_left hkept
    have hlong : n < l.length := by
      have hpos := List.length_pos_of_mem hcut
      rw [List.length_drop] at hpos
      omega
    rw [← List.take_append_drop n l, List.pairwise_append] at h
    refine Or.inr ⟨?_, fun b hb => h.2.2 b hb a hcut⟩
    rw [List.length_take]
    omega

/-! ## Answers in their order -/

/-- The order of answers whose similarities stand at some places. -/
def notWorse (places : α → Int) (a b : α) : Bool :=
  decide (places b ≤ places a)

theorem notWorse_trans (places : α → Int) (a b c : α) :
    notWorse places a b → notWorse places b c → notWorse places a c := by
  simp only [notWorse, decide_eq_true_eq]
  omega

theorem notWorse_total (places : α → Int) (a b : α) :
    notWorse places a b || notWorse places b a := by
  simp only [notWorse, Bool.or_eq_true, decide_eq_true_eq]
  omega

/-- The order is that of the similarities alone. -/
theorem bestFirst_map (similarity : β → Float) (f : α → β) (found : List α) :
    bestFirst similarity (found.map f) = (bestFirst (fun a => similarity (f a)) found).map f := by
  have hsame : ∀ a ∈ found, ∀ b ∈ found,
      (!decide (similarity (f a) < similarity (f b))) =
        (fun x y => !decide (similarity x < similarity y)) (f a) (f b) := fun _ _ _ _ => rfl
  exact (List.map_mergeSort hsame).symm

section Numbers

variable {similarity : α → Float} {found : List α}

theorem bestFirst_perm (similarity : α → Float) (found : List α) :
    (bestFirst similarity found).Perm found :=
  List.mergeSort_perm _ _

/-- With similarities that are numbers, the order is that of their places. -/
theorem bestFirst_eq_mergeSort (hnumbers : ∀ a ∈ found, IsNumber (similarity a)) :
    bestFirst similarity found = found.mergeSort (notWorse fun a => place (similarity a)) := by
  have hsame : ∀ a ∈ found, ∀ b ∈ found, (!decide (similarity a < similarity b)) =
      notWorse (fun a => place (similarity a)) (id a) (id b) := by
    intro a ha b hb
    unfold notWorse
    rw [← decide_not, decide_eq_decide, lt_iff_place_lt (hnumbers a ha) (hnumbers b hb)]
    exact Int.not_lt
  unfold bestFirst
  rw [← List.map_id (List.mergeSort _ _), List.map_mergeSort hsame, List.map_id]

/-- No answer comes before a better one. -/
theorem pairwise_bestFirst (hnumbers : ∀ a ∈ found, IsNumber (similarity a)) :
    (bestFirst similarity found).Pairwise fun a b => similarity b ≤ similarity a := by
  have hsorted := List.pairwise_mergeSort (notWorse_trans fun a => place (similarity a))
    (notWorse_total _) found
  rw [← bestFirst_eq_mergeSort hnumbers] at hsorted
  refine hsorted.imp_of_mem ?_
  intro a b ha hb hab
  have ha' := hnumbers a ((bestFirst_perm similarity found).mem_iff.mp ha)
  have hb' := hnumbers b ((bestFirst_perm similarity found).mem_iff.mp hb)
  exact (le_iff_place_le hb' ha').mpr (of_decide_eq_true hab)

/-- Of two answers the one that was found first comes first, unless the other one is better. -/
theorem pair_sublist_bestFirst (hnumbers : ∀ a ∈ found, IsNumber (similarity a)) {a b : α}
    (hab : [a, b].Sublist found) (hle : similarity b ≤ similarity a) :
    [a, b].Sublist (bestFirst similarity found) := by
  have ha := hnumbers a (hab.subset List.mem_cons_self)
  have hb := hnumbers b (hab.subset (by simp))
  rw [bestFirst_eq_mergeSort hnumbers]
  exact List.pair_sublist_mergeSort (notWorse_trans _) (notWorse_total _)
    (decide_eq_true ((le_iff_place_le hb ha).mp hle)) hab

/-- It makes no difference whether answers are left out before or after. -/
theorem bestFirst_filter (hnumbers : ∀ a ∈ found, IsNumber (similarity a)) (p : α → Bool) :
    (bestFirst similarity found).filter p = bestFirst similarity (found.filter p) := by
  have hkept : ∀ a ∈ found.filter p, IsNumber (similarity a) :=
    fun a ha => hnumbers a (List.mem_of_mem_filter ha)
  rw [bestFirst_eq_mergeSort hnumbers, bestFirst_eq_mergeSort hkept]
  exact filter_mergeSort (notWorse_trans _) (notWorse_total _) p found

/-- Answers in their order stay in it. -/
theorem bestFirst_of_pairwise (hnumbers : ∀ a ∈ found, IsNumber (similarity a))
    (hsorted : found.Pairwise fun a b => similarity b ≤ similarity a) :
    bestFirst similarity found = found := by
  rw [bestFirst_eq_mergeSort hnumbers]
  refine List.mergeSort_of_pairwise (hsorted.imp_of_mem ?_)
  intro a b ha hb hle
  exact decide_eq_true ((le_iff_place_le (hnumbers b hb) (hnumbers a ha)).mp hle)

/-- A search that is cut short before the answers below a threshold are left out, and put in order
once more, loses nothing. -/
theorem bestFirst_take_filter (hnumbers : ∀ a ∈ found, IsNumber (similarity a)) {threshold : Float}
    (hthreshold : IsNumber threshold) (n : Nat) :
    ((bestFirst similarity found).take n).filter (fun a => !(similarity a < threshold)) =
      (bestFirst similarity (found.filter fun a => !(similarity a < threshold))).take n := by
  rw [← bestFirst_filter hnumbers]
  refine take_filter_of_pairwise ((pairwise_bestFirst hnumbers).imp_of_mem ?_) n
  intro a b ha hb hle hkept
  have ha' := hnumbers a ((bestFirst_perm similarity found).mem_iff.mp ha)
  have hb' := hnumbers b ((bestFirst_perm similarity found).mem_iff.mp hb)
  rw [Bool.not_eq_true', decide_eq_false_iff_not, lt_iff_place_lt hb' hthreshold] at hkept
  rw [Bool.not_eq_true', decide_eq_false_iff_not, lt_iff_place_lt ha' hthreshold]
  rw [le_iff_place_le hb' ha'] at hle
  omega

/-- Answers put in order: the same ones, none of them before a better one, and two of which the
second is not better in the order in which they were found. -/
structure Ranks (similarity : α → Float) (found ranked : List α) : Prop where
  perm : ranked.Perm found
  sorted : ranked.Pairwise fun a b => similarity b ≤ similarity a
  stable : ∀ a b, [a, b].Sublist found → similarity b ≤ similarity a → [a, b].Sublist ranked

theorem ranks_bestFirst (hnumbers : ∀ a ∈ found, IsNumber (similarity a)) :
    Ranks similarity found (bestFirst similarity found) where
  perm := bestFirst_perm similarity found
  sorted := pairwise_bestFirst hnumbers
  stable _ _ := pair_sublist_bestFirst hnumbers

end Numbers

end CodeSearch.Search

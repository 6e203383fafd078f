import CodeSearch.Index.Holder
import Mathlib.Data.List.Basic
import Mathlib.Data.List.Infix

/-!
Builds and readers at one holder, in any order.

Every operation of a holder is one step under its lock, so whatever threads do with it is some
sequence of steps: a *history*. The latest event stands first in a history, and a moment of a run is
a suffix of it. A history is proper when every end of a build is the end of a build that has begun
and has not ended before; nothing else is asked of the order.

What a holder keeps are four numbers and references that every thread changes. `Consistent` ties
all of them to the history at once: to the numbers that were handed out, the builds that have not
ended, and the generations that were swapped in. It holds after every proper history
(`consistent`), and all else about builds and readers is read off it.
-/
set_option autoImplicit false

namespace CodeSearch.Index

namespace Holder

/-- A waiting reader whose time is up. It looks once more before it gives up. -/
def expire (h : Holder) (timeout : Value) : Reader → Reader
  | .waiting => if h.underWay = 0 then .done h.outcome else .done (.error (.stillBuilding timeout))
  | r => r

/-- What a reader can be given: the current generation, and only while nothing is under way. -/
def Serves (h : Holder) (g : Generation) : Prop :=
  h.underWay = 0 ∧ h.current = some g

theorem outcome_eq_ok {h : Holder} {g : Generation} : h.outcome = .ok g ↔ h.current = some g := by
  unfold outcome
  cases h.current with
  | none => simp
  | some c => simp

/-- A reader that comes is served at once only with what the holder serves. -/
theorem arrive_eq_ok {h : Holder} {g : Generation} :
    h.arrive = .done (.ok g) ↔ h.Serves g := by
  by_cases hquiet : h.underWay = 0
  · cases hc : h.current with
    | none => simp [arrive, Serves, hquiet, hc]
    | some c => simp [arrive, Serves, outcome, hquiet, hc]
  · simp [arrive, Serves, hquiet]

/-- A reader that wakes up has been served before, or is served now. -/
theorem wake_eq_ok {h : Holder} {r : Reader} {g : Generation} :
    h.wake r = .done (.ok g) ↔ r = .done (.ok g) ∨ r = .waiting ∧ h.Serves g := by
  cases r with
  | done found => simp [wake]
  | waiting =>
    by_cases hquiet : h.underWay = 0
    · simp [wake, Serves, hquiet, outcome_eq_ok]
    · simp [wake, Serves, hquiet]

theorem expire_eq_ok {h : Holder} {timeout : Value} {r : Reader} {g : Generation} :
    h.expire timeout r = .done (.ok g) ↔ r = .done (.ok g) ∨ r = .waiting ∧ h.Serves g := by
  cases r with
  | done found => simp [expire]
  | waiting =>
    by_cases hquiet : h.underWay = 0
    · simp [expire, Serves, hquiet, outcome_eq_ok]
    · simp [expire, Serves, hquiet]

end Holder

/-! ## Histories -/

/-- A holder with the readers that have come to it, in the order in which they came. -/
structure Traffic where
  holder : Holder := {}
  readers : List Holder.Reader := []

/-- One step of some thread at the holder. -/
inductive Event where
  | begin
  | publish (g : Generation)
  /-- The build with a number ends without a generation. -/
  | abort (number : Int)
  | arrive
  /-- The reader at a place looks again. It may do so at any time. -/
  | wake (reader : Nat)
  /-- The time of the reader at a place is up. -/
  | expire (reader : Nat) (timeout : Value)

/-- Whether an event is one of a reader. -/
def Event.isReader : Event → Bool
  | .arrive | .wake _ | .expire .. => true
  | _ => false

namespace Traffic

open Holder (Reader)

/-- What a step changes. -/
def step (t : Traffic) : Event → Traffic
  | .begin => { t with holder := t.holder.start.2 }
  | .publish g => { t with holder := (t.holder.publish g).2.2 }
  | .abort _ => { t with holder := t.holder.abort }
  | .arrive => { t with readers := t.readers ++ [t.holder.arrive] }
  | .wake i => { t with readers := t.readers.modify i t.holder.wake }
  | .expire i timeout => { t with readers := t.readers.modify i (t.holder.expire timeout) }

/-- What happened, the latest event first. -/
abbrev History := List Event

/-- What a history leaves behind. -/
def after : History → Traffic
  | [] => {}
  | e :: past => (after past).step e

/-- The numbers that were handed out to builds, the latest first. -/
def handed : History → List Int
  | [] => []
  | .begin :: past => (after past).holder.start.1 :: handed past
  | _ :: past => handed past

/-- The numbers of the builds that have begun and have not ended. -/
def unfinished : History → List Int
  | [] => []
  | .begin :: past => (after past).holder.start.1 :: unfinished past
  | .publish g :: past => (unfinished past).erase g.number
  | .abort number :: past => (unfinished past).erase number
  | _ :: past => unfinished past

/-- The generations that were swapped in, the latest first. -/
def swapped : History → List Generation
  | [] => []
  | .publish g :: past =>
    if ((after past).holder.publish g).1 then g :: swapped past else swapped past
  | _ :: past => swapped past

/-- Every build ends at most once, and with the number that it was given. -/
def Proper : History → Prop
  | [] => True
  | .publish g :: past => g.number ∈ unfinished past ∧ Proper past
  | .abort number :: past => number ∈ unfinished past ∧ Proper past
  | _ :: past => Proper past

theorem Proper.tail {e : Event} {past : History} (h : Proper (e :: past)) : Proper past := by
  cases e with
  | publish g => exact h.2
  | abort number => exact h.2
  | begin => exact h
  | arrive => exact h
  | wake i => exact h
  | expire i timeout => exact h

theorem Proper.of_append {later past : History} (h : Proper (later ++ past)) : Proper past := by
  induction later with
  | nil => exact h
  | cons e later ih => exact ih h.tail

/-! ## What readers leave alone -/

theorem proper_of_reader {e : Event} {past : History} (he : e.isReader = true) :
    Proper (e :: past) ↔ Proper past := by
  cases e <;> first | rfl | simp [Event.isReader] at he

theorem handed_of_reader {e : Event} {past : History} (he : e.isReader = true) :
    handed (e :: past) = handed past := by
  cases e <;> first | rfl | simp [Event.isReader] at he

theorem unfinished_of_reader {e : Event} {past : History} (he : e.isReader = true) :
    unfinished (e :: past) = unfinished past := by
  cases e <;> first | rfl | simp [Event.isReader] at he

theorem swapped_of_reader {e : Event} {past : History} (he : e.isReader = true) :
    swapped (e :: past) = swapped past := by
  cases e <;> first | rfl | simp [Event.isReader] at he

theorem holder_of_reader {e : Event} {past : History} (he : e.isReader = true) :
    (after (e :: past)).holder = (after past).holder := by
  cases e <;> first | rfl | simp [Event.isReader] at he

/-! ## What a holder keeps -/

@[simp] theorem start_snd_current (h : Holder) : h.start.2.current = h.current := rfl
@[simp] theorem start_snd_previous (h : Holder) : h.start.2.previous = h.previous := rfl
@[simp] theorem start_snd_latest (h : Holder) : h.start.2.latest = h.latest + 1 := rfl
@[simp] theorem start_snd_underWay (h : Holder) : h.start.2.underWay = h.underWay + 1 := rfl
@[simp] theorem abort_current (h : Holder) : h.abort.current = h.current := rfl
@[simp] theorem abort_previous (h : Holder) : h.abort.previous = h.previous := rfl
@[simp] theorem abort_latest (h : Holder) : h.abort.latest = h.latest := rfl
@[simp] theorem abort_underWay (h : Holder) : h.abort.underWay = h.underWay - 1 := rfl

@[simp] theorem publish_latest (h : Holder) (g : Generation) :
    (h.publish g).2.2.latest = h.latest := by
  simp only [Holder.publish]; split <;> rfl

@[simp] theorem publish_underWay (h : Holder) (g : Generation) :
    (h.publish g).2.2.underWay = h.underWay - 1 := by
  simp only [Holder.publish]; split <;> rfl

/-- A generation is swapped in exactly if no build has begun after its own. -/
theorem publish_fst {h : Holder} {g : Generation} :
    (h.publish g).1 = true ↔ g.number = h.latest := by
  simp only [Holder.publish]; split <;> simp_all

theorem publish_swap {h : Holder} {g : Generation} (hg : g.number = h.latest) :
    (h.publish g).2.2 =
      { h with current := some g, previous := h.current, underWay := h.underWay - 1 } := by
  simp only [Holder.publish, if_pos hg]

theorem publish_stale {h : Holder} {g : Generation} (hg : g.number ≠ h.latest) :
    (h.publish g).2.2 = { h with underWay := h.underWay - 1 } := by
  simp only [Holder.publish, if_neg hg]

/-- What is kept are the two generations that were swapped in last, in whatever history. -/
theorem kept_eq_swapped (past : History) :
    (after past).holder.current = (swapped past)[0]? ∧
      (after past).holder.previous = (swapped past)[1]? := by
  induction past with
  | nil => exact ⟨rfl, rfl⟩
  | cons e past ih =>
    cases e with
    | publish g =>
      rw [after, step, swapped]
      by_cases hlatest : g.number = (after past).holder.latest
      · rw [if_pos (publish_fst.mpr hlatest), publish_swap hlatest]
        exact ⟨rfl, ih.1⟩
      · rw [if_neg (mt publish_fst.mp hlatest), publish_stale hlatest]
        exact ih
    | _ => exact ih

/-- How the holder after a history depends on the history. -/
structure Consistent (past : History) : Prop where
  latest_nonneg : 0 ≤ (after past).holder.latest
  handed_iff : ∀ n, n ∈ handed past ↔ 1 ≤ n ∧ n ≤ (after past).holder.latest
  underWay_eq : (after past).holder.underWay = (unfinished past).length
  unfinished_nodup : (unfinished past).Nodup
  handed_of_unfinished : ∀ n ∈ unfinished past, n ∈ handed past
  current_eq : (after past).holder.current = (swapped past)[0]?
  previous_eq : (after past).holder.previous = (swapped past)[1]?
  decreasing : (swapped past).Pairwise fun newer older => older.number < newer.number
  /-- What was swapped in belongs to a build that has ended. -/
  ended : ∀ g ∈ swapped past, g.number ∈ handed past ∧ g.number ∉ unfinished past

namespace Consistent

variable {past : History}

theorem empty : Consistent [] where
  latest_nonneg := by simp [after]
  handed_iff n := by simp [handed, after]; omega
  underWay_eq := by simp [after, unfinished]
  unfinished_nodup := by simp [unfinished]
  handed_of_unfinished := by simp [unfinished]
  current_eq := (kept_eq_swapped _).1
  previous_eq := (kept_eq_swapped _).2
  decreasing := by simp [swapped]
  ended := by simp [swapped]

/-- A number that is handed out is new. -/
theorem begin (h : Consistent past) : Consistent (.begin :: past) where
  latest_nonneg := by
    have := h.latest_nonneg
    simp only [after, step, start_snd_latest]; omega
  handed_iff n := by
    have := h.latest_nonneg
    simp only [handed, after, step, Holder.start, List.mem_cons, h.handed_iff]; omega
  underWay_eq := by
    simp [after, step, unfinished, h.underWay_eq]
  unfinished_nodup := by
    refine List.nodup_cons.mpr ⟨fun hmem => ?_, h.unfinished_nodup⟩
    have := (h.handed_iff _).mp (h.handed_of_unfinished _ hmem)
    simp only [Holder.start] at this; omega
  handed_of_unfinished n hn := by
    simp only [unfinished, handed, List.mem_cons] at hn ⊢
    exact hn.imp_right (h.handed_of_unfinished n)
  current_eq := (kept_eq_swapped _).1
  previous_eq := (kept_eq_swapped _).2
  decreasing := h.decreasing
  ended g hg := by
    obtain ⟨hhanded, hended⟩ := h.ended g hg
    have := (h.handed_iff _).mp hhanded
    refine ⟨List.mem_cons_of_mem _ hhanded, ?_⟩
    simp only [unfinished, Holder.start, List.mem_cons, not_or]
    exact ⟨by omega, hended⟩

/-- The count goes down with the list. The holder subtracts one, and there is one to subtract. -/
theorem underWay_erase (h : Consistent past) {n : Int} (hn : n ∈ unfinished past) :
    (after past).holder.underWay - 1 = ((unfinished past).erase n).length := by
  have hpos := List.length_pos_of_mem hn
  rw [h.underWay_eq, List.length_erase_of_mem hn]; omega

theorem ended_erase (h : Consistent past) (n : Int) :
    ∀ g ∈ swapped past, g.number ∈ handed past ∧ g.number ∉ (unfinished past).erase n := by
  intro g hg
  obtain ⟨hhanded, hended⟩ := h.ended g hg
  exact ⟨hhanded, fun hmem => hended (List.mem_of_mem_erase hmem)⟩

theorem abort (h : Consistent past) {n : Int} (hn : n ∈ unfinished past) :
    Consistent (.abort n :: past) where
  latest_nonneg := by simpa [after, step] using h.latest_nonneg
  handed_iff k := by simpa [handed, after, step] using h.handed_iff k
  underWay_eq := by simpa [after, step, unfinished] using h.underWay_erase hn
  unfinished_nodup := h.unfinished_nodup.erase n
  handed_of_unfinished k hk := h.handed_of_unfinished k (List.mem_of_mem_erase hk)
  current_eq := (kept_eq_swapped _).1
  previous_eq := (kept_eq_swapped _).2
  decreasing := h.decreasing
  ended := h.ended_erase n

/-- A build that is not the latest leaves everything but the count. -/
theorem publish_late (h : Consistent past) {g : Generation} (hg : g.number ∈ unfinished past)
    (hlate : g.number ≠ (after past).holder.latest) : Consistent (.publish g :: past) := by
  have hkeep : swapped (.publish g :: past) = swapped past := by
    simp only [swapped, publish_fst, if_neg hlate]
  exact
    { latest_nonneg := by simpa [after, step] using h.latest_nonneg
      handed_iff := fun k => by simpa [handed, after, step] using h.handed_iff k
      underWay_eq := by simpa [after, step, unfinished] using h.underWay_erase hg
      unfinished_nodup := h.unfinished_nodup.erase _
      handed_of_unfinished := fun k hk => h.handed_of_unfinished k (List.mem_of_mem_erase hk)
      current_eq := (kept_eq_swapped _).1
      previous_eq := (kept_eq_swapped _).2
      decreasing := hkeep ▸ h.decreasing
      ended := hkeep ▸ h.ended_erase _ }

/-- The latest build is swapped in on top of the others. Its number is greater than theirs because
theirs were handed out and have ended, and its own has not. -/
theorem publish_latest (h : Consistent past) {g : Generation} (hg : g.number ∈ unfinished past)
    (hlatest : g.number = (after past).holder.latest) : Consistent (.publish g :: past) := by
  have hpush : swapped (.publish g :: past) = g :: swapped past := by
    simp only [swapped, publish_fst, if_pos hlatest]
  -- the older ones have ended, the new one has not, so their numbers differ
  have hnewest : ∀ older ∈ swapped past, older.number < g.number := by
    intro older holder
    obtain ⟨hhanded, hended⟩ := h.ended older holder
    have hle := ((h.handed_iff _).mp hhanded).2
    have hne : older.number ≠ g.number := fun heq => hended (heq ▸ hg)
    omega
  refine
    { latest_nonneg := by simpa [after, step] using h.latest_nonneg
      handed_iff := fun k => by simpa [handed, after, step] using h.handed_iff k
      underWay_eq := by simpa [after, step, unfinished] using h.underWay_erase hg
      unfinished_nodup := h.unfinished_nodup.erase _
      handed_of_unfinished := fun k hk => h.handed_of_unfinished k (List.mem_of_mem_erase hk)
      current_eq := (kept_eq_swapped _).1
      previous_eq := (kept_eq_swapped _).2
      decreasing := ?_
      ended := ?_ }
  · rw [hpush]
    exact List.pairwise_cons.mpr ⟨hnewest, h.decreasing⟩
  · rw [hpush]
    refine List.forall_mem_cons.mpr ⟨⟨h.handed_of_unfinished _ hg, ?_⟩, h.ended_erase _⟩
    exact h.unfinished_nodup.not_mem_erase

theorem of_reader (h : Consistent past) {e : Event} (he : e.isReader = true) :
    Consistent (e :: past) where
  latest_nonneg := by rw [holder_of_reader he]; exact h.latest_nonneg
  handed_iff := by rw [holder_of_reader he, handed_of_reader he]; exact h.handed_iff
  underWay_eq := by rw [holder_of_reader he, unfinished_of_reader he]; exact h.underWay_eq
  unfinished_nodup := by rw [unfinished_of_reader he]; exact h.unfinished_nodup
  handed_of_unfinished := by
    rw [unfinished_of_reader he, handed_of_reader he]; exact h.handed_of_unfinished
  current_eq := (kept_eq_swapped _).1
  previous_eq := (kept_eq_swapped _).2
  decreasing := by rw [swapped_of_reader he]; exact h.decreasing
  ended := by
    rw [swapped_of_reader he, handed_of_reader he, unfinished_of_reader he]; exact h.ended

theorem step {e : Event} (h : Consistent past) (hproper : Proper (e :: past)) :
    Consistent (e :: past) := by
  cases e with
  | begin => exact h.begin
  | publish g =>
    by_cases hlatest : g.number = (after past).holder.latest
    · exact h.publish_latest hproper.1 hlatest
    · exact h.publish_late hproper.1 hlatest
  | abort number => exact h.abort hproper.1
  | arrive => exact h.of_reader rfl
  | wake i => exact h.of_reader rfl
  | expire i timeout => exact h.of_reader rfl

end Consistent

theorem consistent {past : History} (hproper : Proper past) : Consistent past := by
  induction past with
  | nil => exact Consistent.empty
  | cons e past ih => exact (ih hproper.tail).step hproper

/-! ## What stays -/

/-- An event swaps nothing in, or the generation that it publishes. -/
theorem swapped_cons (e : Event) (past : History) :
    swapped (e :: past) = swapped past ∨
      ∃ g, e = .publish g ∧ swapped (e :: past) = g :: swapped past := by
  cases e with
  | publish g =>
    rw [swapped]
    by_cases hswap : ((after past).holder.publish g).1 = true
    · rw [if_pos hswap]
      exact Or.inr ⟨g, rfl, rfl⟩
    · rw [if_neg hswap]
      exact Or.inl rfl
  | _ => exact Or.inl rfl

/-- Generations are swapped in on top of those that were there. -/
theorem swapped_suffix (later past : History) : swapped past <:+ swapped (later ++ past) := by
  induction later with
  | nil => exact List.suffix_rfl
  | cons e later ih =>
    rw [List.cons_append]
    rcases swapped_cons e (later ++ past) with hsame | ⟨g, -, hnew⟩
    · rw [hsame]
      exact ih
    · rw [hnew]
      exact ih.trans (List.suffix_cons _ _)

theorem latest_le_append (later past : History) :
    (after past).holder.latest ≤ (after (later ++ past)).holder.latest := by
  induction later with
  | nil => exact Int.le_refl _
  | cons e later ih =>
    rw [List.cons_append, after]
    cases e with
    | begin => rw [step, start_snd_latest]; omega
    | publish g => rw [step, publish_latest]; exact ih
    | abort number => exact ih
    | arrive => exact ih
    | wake i => exact ih
    | expire i timeout => exact ih

/-- A build that is not the latest any more never is again. -/
theorem isStale_append {later past : History} (hproper : Proper past) {n : Int}
    (hn : n ∈ handed past) (hstale : (after past).holder.isStale n = true) :
    (after (later ++ past)).holder.isStale n = true := by
  -- the number was handed out, so the latest one can only be greater
  have hle : n ≤ (after past).holder.latest := ((consistent hproper).handed_iff n).mp hn |>.2
  have hlater := latest_le_append later past
  rw [Holder.isStale, bne_iff_ne] at hstale ⊢
  omega

/-! ## The current generation -/

theorem publish_mem_of_mem_swapped {past : History} {g : Generation} (hg : g ∈ swapped past) :
    Event.publish g ∈ past := by
  induction past with
  | nil => simp [swapped] at hg
  | cons e past ih =>
    rcases swapped_cons e past with hsame | ⟨new, rfl, hnew⟩
    · rw [hsame] at hg
      exact List.mem_cons_of_mem _ (ih hg)
    · rw [hnew] at hg
      rcases List.mem_cons.mp hg with rfl | hbefore
      · exact List.mem_cons_self
      · exact List.mem_cons_of_mem _ (ih hbefore)

theorem mem_swapped_of_current {past : History} (hproper : Proper past) {g : Generation}
    (hg : (after past).holder.current = some g) : g ∈ swapped past := by
  rw [(consistent hproper).current_eq] at hg
  exact List.mem_of_getElem? hg

/-- The current generation is the greatest of those that were swapped in. -/
theorem le_current {past : History} (hproper : Proper past) {g c : Generation}
    (hg : g ∈ swapped past) (hc : (after past).holder.current = some c) :
    g.number ≤ c.number := by
  have h := consistent hproper
  rw [h.current_eq] at hc
  -- the current generation is the first of a list with decreasing numbers
  cases hall : swapped past with
  | nil => simp [hall] at hg
  | cons newest older =>
    have hdec := h.decreasing
    rw [hall] at hc hg hdec
    obtain rfl : newest = c := by simpa using hc
    rcases List.mem_cons.mp hg with rfl | hmem
    · exact Int.le_refl _
    · exact Int.le_of_lt (List.rel_of_pairwise_cons hdec hmem)

/-- A generation was swapped in once, at one place. -/
theorem swapped_place_unique {past : History} (hproper : Proper past) {i j : Nat}
    {g g' : Generation} (hi : (swapped past)[i]? = some g) (hj : (swapped past)[j]? = some g')
    (hnumber : g.number = g'.number) : i = j := by
  obtain ⟨hilt, rfl⟩ := List.getElem?_eq_some_iff.mp hi
  obtain ⟨hjlt, rfl⟩ := List.getElem?_eq_some_iff.mp hj
  -- numbers go down along the list
  have hdec := List.pairwise_iff_getElem.mp (consistent hproper).decreasing
  rcases Nat.lt_trichotomy i j with hlt | heq | hlt
  · have hless := hdec i j hilt hjlt hlt
    omega
  · exact heq
  · have hless := hdec j i hjlt hilt hlt
    omega

/-- Publishing makes a generation current exactly if its build is the latest. -/
theorem publish_current_iff {past : History} (hproper : Proper past) {g : Generation}
    (hg : g.number ∈ unfinished past) :
    (after (.publish g :: past)).holder.current = some g ↔
      g.number = (after past).holder.latest := by
  constructor
  · intro hcurrent
    by_contra hlate
    -- The generation would have been current before, but what was current has ended.
    rw [after, step, publish_stale hlate] at hcurrent
    exact ((consistent hproper).ended g (mem_swapped_of_current hproper hcurrent)).2 hg
  · intro hlatest
    rw [after, step, publish_swap hlatest]

/-- To be the latest build is to have the greatest of the numbers handed out. -/
theorem eq_latest_iff {past : History} (hproper : Proper past) {n : Int} (hn : n ∈ handed past) :
    n = (after past).holder.latest ↔ ∀ k ∈ handed past, k ≤ n := by
  have h := consistent hproper
  have hbounds := (h.handed_iff n).mp hn
  constructor
  · intro heq k hk
    rw [heq]
    exact ((h.handed_iff k).mp hk).2
  · intro hgreatest
    have := hgreatest _ ((h.handed_iff _).mpr ⟨by omega, Int.le_refl _⟩)
    omega

/-- Only a publication changes what is current, and then the number grows. -/
theorem current_step {past : History} {e : Event} (hproper : Proper (e :: past))
    (hchange : (after (e :: past)).holder.current ≠ (after past).holder.current) :
    ∃ g, e = .publish g ∧ (after (e :: past)).holder.current = some g ∧
      (after (e :: past)).holder.previous = (after past).holder.current ∧
      ∀ c, (after past).holder.current = some c → c.number < g.number := by
  cases e with
  | publish g =>
    -- a generation that comes too late changes nothing
    by_cases hlatest : g.number = (after past).holder.latest
    · have hcurrent := (publish_current_iff hproper.2 hproper.1).mpr hlatest
      refine ⟨g, rfl, hcurrent, by rw [after, step, publish_swap hlatest], ?_⟩
      intro c hc
      have hmem := mem_swapped_of_current hproper.2 hc
      have hle := le_current hproper (swapped_suffix [.publish g] past |>.subset hmem) hcurrent
      have hne : c.number ≠ g.number := by
        intro heq
        exact ((consistent hproper.2).ended c hmem).2 (heq ▸ hproper.1)
      omega
    · rw [after, step, publish_stale hlatest] at hchange
      exact absurd rfl hchange
  | begin => exact absurd rfl hchange
  | abort number => exact absurd rfl hchange
  | arrive => exact absurd rfl hchange
  | wake i => exact absurd rfl hchange
  | expire i timeout => exact absurd rfl hchange

/-- The generation that is kept for readers that still hold it is an older one. -/
theorem previous_lt_current {past : History} (hproper : Proper past) {p : Generation}
    (hp : (after past).holder.previous = some p) :
    ∃ c, (after past).holder.current = some c ∧ p.number < c.number := by
  have h := consistent hproper
  rw [h.previous_eq] at hp
  rw [h.current_eq]
  cases hall : swapped past with
  | nil => simp [hall] at hp
  | cons newest older =>
    have hdec := h.decreasing
    rw [hall, List.getElem?_cons_succ] at hp
    rw [hall] at hdec
    exact ⟨newest, rfl, List.rel_of_pairwise_cons hdec (List.mem_of_getElem? hp)⟩

/-- The holder is busy exactly while a build has not ended. -/
theorem state_eq_indexing_iff {past : History} (hproper : Proper past) :
    (after past).holder.state = .indexing ↔ unfinished past ≠ [] := by
  have hcount := (consistent hproper).underWay_eq
  -- the count is that of the unfinished builds
  have hzero : (after past).holder.underWay = 0 ↔ unfinished past = [] := by
    rw [hcount, Int.natCast_eq_zero, List.length_eq_zero_iff]
  rw [ne_eq, ← hzero]
  by_cases hquiet : (after past).holder.underWay = 0
  · by_cases hsome : (after past).holder.current.isSome = true
    · simp [Holder.state, hquiet, hsome]
    · simp [Holder.state, hquiet, hsome]
  · simp [Holder.state, hquiet]

/-! ## Readers -/

/-- A reader that has its generation had it before, or gets it by this step, in which case the
holder serves it right now. -/
theorem served_step {t : Traffic} {e : Event} {i : Nat} {g : Generation}
    (hserved : (t.step e).readers[i]? = some (.done (.ok g))) :
    t.readers[i]? = some (.done (.ok g)) ∨ (t.step e).holder.Serves g := by
  -- only the three events of readers give a reader anything
  cases e with
  | arrive =>
    simp only [step] at hserved ⊢
    rcases Nat.lt_or_ge i t.readers.length with hlt | hge
    · rw [List.getElem?_append_left hlt] at hserved
      exact Or.inl hserved
    · rw [List.getElem?_append_right hge] at hserved
      have hnew := List.mem_singleton.mp (List.mem_of_getElem? hserved)
      exact Or.inr (Holder.arrive_eq_ok.mp hnew.symm)
  | wake j =>
    simp only [step, List.getElem?_modify] at hserved ⊢
    split at hserved
    · obtain ⟨r, hr, hwake⟩ := Option.map_eq_some_iff.mp hserved
      rcases Holder.wake_eq_ok.mp hwake with rfl | ⟨_, hserves⟩
      · exact Or.inl hr
      · exact Or.inr hserves
    · exact Or.inl (by simpa using hserved)
  | expire j timeout =>
    simp only [step, List.getElem?_modify] at hserved ⊢
    split at hserved
    · obtain ⟨r, hr, hexpire⟩ := Option.map_eq_some_iff.mp hserved
      rcases Holder.expire_eq_ok.mp hexpire with rfl | ⟨_, hserves⟩
      · exact Or.inl hr
      · exact Or.inr hserves
    · exact Or.inl (by simpa using hserved)
  | begin => exact Or.inl hserved
  | publish new => exact Or.inl hserved
  | abort number => exact Or.inl hserved

/-- A reader that had not come by some moment got its generation at a later one. -/
theorem exists_serves {later past : History} {i : Nat} {g : Generation}
    (hnew : (after past).readers.length ≤ i)
    (hserved : (after (later ++ past)).readers[i]? = some (.done (.ok g))) :
    ∃ rest between, later = rest ++ between ∧ (after (between ++ past)).holder.Serves g := by
  -- the first event that gives the reader its generation is looked for from behind
  induction later with
  | nil =>
    rw [List.nil_append, List.getElem?_eq_none hnew] at hserved
    simp at hserved
  | cons e later ih =>
    rw [List.cons_append, after] at hserved
    rcases served_step hserved with hbefore | hserves
    · obtain ⟨rest, between, rfl, hserves⟩ := ih hbefore
      exact ⟨e :: rest, between, rfl, hserves⟩
    · exact ⟨[], e :: later, rfl, hserves⟩

/-- What is served is the greatest generation that was ever swapped in, and nothing is under way. -/
theorem serves_newest {past : History} (hproper : Proper past) {g : Generation}
    (hserves : (after past).holder.Serves g) :
    unfinished past = [] ∧ g ∈ swapped past ∧ ∀ g' ∈ swapped past, g'.number ≤ g.number := by
  obtain ⟨hquiet, hcurrent⟩ := hserves
  refine ⟨?_, mem_swapped_of_current hproper hcurrent, ?_⟩
  · rw [(consistent hproper).underWay_eq, Int.natCast_eq_zero] at hquiet
    exact List.length_eq_zero_iff.mp hquiet
  · intro g' hg'
    exact le_current hproper hg' hcurrent

theorem swapped_of_served {past : History} (hproper : Proper past) {i : Nat} {g : Generation}
    (hserved : (after past).readers[i]? = some (.done (.ok g))) : g ∈ swapped past := by
  rw [← List.append_nil past] at hproper hserved
  obtain ⟨rest, between, rfl, hserves⟩ := exists_serves (Nat.zero_le i) hserved
  rw [List.append_nil] at hserves hproper
  exact (swapped_suffix rest between).subset
    (mem_swapped_of_current hproper.of_append hserves.2)

/-- A reader that comes after a generation was swapped in gets none that is older. -/
theorem served_newer {later past : History} (hproper : Proper (later ++ past)) {i : Nat}
    {g g' : Generation} (hnew : (after past).readers.length ≤ i)
    (hserved : (after (later ++ past)).readers[i]? = some (.done (.ok g)))
    (hg' : g' ∈ swapped past) : g'.number ≤ g.number := by
  obtain ⟨rest, between, rfl, hserves⟩ := exists_serves hnew hserved
  rw [List.append_assoc] at hproper
  have hmem := (swapped_suffix between past).subset hg'
  exact (serves_newest hproper.of_append hserves).2.2 g' hmem

end Traffic

end CodeSearch.Index

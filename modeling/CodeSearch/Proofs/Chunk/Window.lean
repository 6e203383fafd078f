import CodeSearch.Chunk.Context
import CodeSearch.Config.Settings
import CodeSearch.Proofs.Text.Lines

/-!
Which lines are in the window around a line.

Any whole number can be set as the radius, one below zero too (`exists_contextRadius`). A window is cut
out of the text between two bounds. The lower one is never below zero, but the upper one is kept only
from going beyond the end, and a bound below zero counts from the end of the text. So the window of a
line is a stretch of the lines that begins `radius` lines above it, and ends `radius` lines below it as
long as that is not in front of the text (`contextWindow_eq_stretch`). It is what stands near the line
for every radius that leads no further (`contextWindow_eq_near_iff`). With one that does, nothing
stands near the line, and the window has lines from the far side of the text in it as soon as the text
is long enough.
-/
set_option autoImplicit false

namespace CodeSearch

/-! ## Stretches of a list -/

section Stretch

variable {α : Type} {xs : List α} {first last : Int}

/-- The items of a list with a number from `first` to `last`, counted from one. -/
def stretch (xs : List α) (first last : Int) : List α :=
  ((xs.zipIdx 1).filter fun item => first ≤ item.2 ∧ item.2 ≤ last).map (·.1)

/-- The items of a list whose numbers differ from a number by no more than `radius`. -/
def near (xs : List α) (number radius : Int) : List α :=
  ((xs.zipIdx 1).filter fun item => ((item.2 : Int) - number).natAbs ≤ radius).map (·.1)

theorem near_eq_stretch (xs : List α) (number radius : Int) :
    near xs number radius = stretch xs (number - radius) (number + radius) := by
  rw [near, stretch]
  congr 2
  funext item
  rw [decide_eq_decide]
  omega

/-- Numbers that begin anywhere: those of the rest of a list begin one later. -/
theorem map_filter_zipIdx (xs : List α) (first last : Int) (n : Nat) :
    ((xs.zipIdx n).filter fun item => first ≤ item.2 ∧ item.2 ≤ last).map (·.1) =
      (xs.take (last + 1 - n).toNat).drop (first - n).toNat := by
  induction xs generalizing n with
  | nil =>
    simp only [List.zipIdx_nil, List.filter_nil, List.map_nil, List.take_nil, List.drop_nil]
  | cons x xs ih =>
    have hrest := ih (n + 1)
    rw [List.zipIdx_cons]
    by_cases hafter : last < n
    · -- all that is left has a number beyond the last one
      have hnone : (last + 1 - ((n + 1 : Nat) : Int)).toNat = 0 := by omega
      have hzero : (last + 1 - (n : Int)).toNat = 0 := by omega
      rw [List.filter_cons_of_neg (by simp only [decide_eq_true_eq]; omega), hrest, hnone, hzero,
        List.take_zero, List.take_zero, List.drop_nil, List.drop_nil]
    · have htake : (last + 1 - (n : Int)).toNat = (last + 1 - ((n + 1 : Nat) : Int)).toNat + 1 := by
        omega
      rw [htake, List.take_succ_cons]
      by_cases hbefore : n < first
      · have hdrop : (first - (n : Int)).toNat = (first - ((n + 1 : Nat) : Int)).toNat + 1 := by
          omega
        rw [List.filter_cons_of_neg (by simp only [decide_eq_true_eq]; omega), hrest, hdrop,
          List.drop_succ_cons]
      · -- this item is in the stretch, and no later one is in front of it
        have hhere : (first - (n : Int)).toNat = 0 := by omega
        have hlater : (first - ((n + 1 : Nat) : Int)).toNat = 0 := by omega
        rw [List.filter_cons_of_pos (by simp only [decide_eq_true_eq]; omega), List.map_cons, hrest,
          hhere, hlater, List.drop_zero, List.drop_zero]

/-- A stretch is what is left of the list up to its last item when the items before it are dropped. -/
theorem stretch_eq_drop_take (xs : List α) (first last : Int) :
    stretch xs first last = (xs.take last.toNat).drop (first - 1).toNat := by
  rw [stretch, map_filter_zipIdx xs first last 1, Int.natCast_one, Int.add_sub_cancel]

theorem length_stretch (xs : List α) (first last : Int) :
    (stretch xs first last).length = (min last xs.length - max 0 (first - 1)).toNat := by
  rw [stretch_eq_drop_take, List.length_drop, List.length_take]
  omega

/-- A stretch has no more items than there are numbers from its first to its last one. -/
theorem length_stretch_le (xs : List α) (first last : Int) :
    ((stretch xs first last).length : Int) ≤ max 0 (last - first + 1) := by
  rw [length_stretch]
  omega

theorem stretch_eq_nil_of_lt (h : last < first) : stretch xs first last = [] :=
  List.length_eq_zero_iff.mp <| by
    rw [length_stretch]
    omega

/-- The item that a stretch begins with. -/
theorem head?_stretch (xs : List α) (hfirst : 1 ≤ first) (hlast : first ≤ last) :
    (stretch xs first last).head? = xs[(first - 1).toNat]? := by
  rw [stretch_eq_drop_take, List.head?_drop, List.getElem?_take_of_lt (by omega)]

/-- The part of a list between two bounds, the first one not below zero. An upper bound below zero is
the place that it names from the end. -/
theorem Cut.between_eq_stretch {start : Int} (hstart : 0 ≤ start) (stop : Int) :
    Cut.between start stop xs =
      stretch xs (start + 1) (if stop < 0 then xs.length + stop else stop) := by
  rw [stretch_eq_drop_take, Cut.between, Int.add_sub_cancel]
  have hfrom : Cut.place xs.length start = min start.toNat xs.length := if_neg (by omega)
  have hstop : xs.take (Cut.place xs.length stop) =
      xs.take (if stop < 0 then xs.length + stop else stop).toNat := by
    rw [Cut.place]
    split
    · rfl
    · exact (List.take_eq_take_min ..).symm
  rw [hfrom, hstop]
  by_cases hwithin : start.toNat ≤ xs.length
  · rw [Nat.min_eq_left hwithin]
  · rw [List.drop_eq_nil_of_le (by rw [List.length_take]; omega),
      List.drop_eq_nil_of_le (by rw [List.length_take]; omega)]

end Stretch

/-! ## Windows -/

open CodeSearch.Text (joinLines lines)

/-- The number of the last line of a window: `radius` lines below its line, but counted from the end
of the text if that is in front of the text. -/
def windowEnd (count : Nat) (line radius : Int) : Int :=
  if line + radius < 0 then count + (line + radius) else line + radius

theorem contextWindow_eq_stretch (ls : List String) (line radius : Int) :
    contextWindow ls line radius =
      joinLines (stretch ls (line - radius) (windowEnd ls.length line radius)) := by
  rw [contextWindow, Cut.between_eq_stretch (Int.le_max_left 0 _), stretch_eq_drop_take,
    stretch_eq_drop_take, windowEnd]
  -- both bounds name the same line before and after they are kept from going beyond an end
  have hfrom : (max 0 (line - radius - 1) + 1 - 1).toNat = (line - radius - 1).toNat := by omega
  rw [hfrom]
  by_cases hbefore : line + radius < 0
  · have hmin : min (ls.length : Int) (line + radius) = line + radius := by omega
    rw [hmin]
  · have hmin : ¬ min (ls.length : Int) (line + radius) < 0 := by omega
    have hupTo : (min (ls.length : Int) (line + radius)).toNat =
        min (line + radius).toNat ls.length := by omega
    rw [if_neg hmin, if_neg hbefore, hupTo, ← List.take_eq_take_min]

/-- Lines put together are the empty text if there are none, or one that is empty. -/
theorem joinLines_eq_empty_iff {ls : List String} : joinLines ls = "" ↔ ls = [] ∨ ls = [""] := by
  cases ls with
  | nil => exact iff_of_true rfl (.inl rfl)
  | cons l rest =>
    cases rest with
    | nil =>
      have hone : joinLines [l] = l := by
        rw [joinLines, String.intercalate_singleton]
      rw [hone]
      simp
    | cons l' rest =>
      -- two lines have a line feed between them
      refine iff_of_false (fun h => ?_) (by simp)
      have hchars := congrArg String.toList h
      rw [Text.toList_joinLines] at hchars
      simp [List.intercalate_cons_cons] at hchars

/-- A stretch within a text is the empty text if it ends before it begins, or is an empty line. -/
theorem joinLines_stretch_eq_empty_iff {ls : List String} {first last : Int} (hfirst : 1 ≤ first)
    (hlast : last ≤ ls.length) :
    joinLines (stretch ls first last) = "" ↔
      last < first ∨ last = first ∧ ls[(first - 1).toNat]? = some "" := by
  have hlength := length_stretch ls first last
  rw [joinLines_eq_empty_iff]
  constructor
  · rintro (hnone | hempty)
    · rw [hnone, List.length_nil] at hlength
      exact .inl (by omega)
    · rw [hempty, List.length_singleton] at hlength
      have hhead := head?_stretch ls hfirst (show first ≤ last by omega)
      rw [hempty, List.head?_cons] at hhead
      exact .inr ⟨by omega, hhead.symm⟩
  · rintro (hbefore | ⟨rfl, hempty⟩)
    · exact .inl (stretch_eq_nil_of_lt hbefore)
    · have hwithin := (List.getElem?_eq_some_iff.mp hempty).1
      obtain ⟨l, hl⟩ := List.length_eq_one_iff.mp (show (stretch ls last last).length = 1 by omega)
      have hhead := head?_stretch ls hfirst (Int.le_refl last)
      rw [hl, List.head?_cons, hempty] at hhead
      rw [hl, Option.some.inj hhead]
      exact .inr rfl

/-- Every whole number is taken for a radius. -/
theorem exists_contextRadius (defaultUri environmentKey : String) (radius : Int) :
    ∃ settings, Config.Settings.ofTable defaultUri environmentKey
        [("index", .table [("context_radius", .int radius)])] = .ok settings ∧
      settings.contextRadius = radius :=
  ⟨_, rfl, rfl⟩

/-- Whatever whole number the radius is set to, the window of a line is what stands near the line with
the lines put together, which are no more than `2 * radius + 1` and none for a radius below zero, unless
the radius leads to a place in front of the text. Then the window goes from `radius` lines above the
line, which is below it, to that place counted from the end of the text, and this is the empty text only
if the text ends before, or this is one line that is empty. -/
theorem contextWindow_eq_near_iff (text : String) (radius : Int) {line : Int} (hfirst : 1 ≤ line) :
    (∀ defaultUri environmentKey, ∃ settings,
      Config.Settings.ofTable defaultUri environmentKey
          [("index", .table [("context_radius", .int radius)])] = .ok settings ∧
        settings.contextRadius = radius) ∧
      ((near (lines text) line radius).length : Int) ≤ max 0 (2 * radius + 1) ∧
      (contextWindow (lines text) line radius = joinLines (near (lines text) line radius) ↔
        (line + radius < 0 → (lines text).length < -2 * radius ∨
          (lines text).length = -2 * radius ∧
            (lines text)[(line - radius - 1).toNat]? = some "")) ∧
      (line + radius < 0 → contextWindow (lines text) line radius =
        joinLines (stretch (lines text) (line - radius) ((lines text).length + (line + radius)))) := by
  generalize lines text = ls
  have hwindow := contextWindow_eq_stretch ls line radius
  rw [windowEnd] at hwindow
  refine ⟨fun _ _ => exists_contextRadius _ _ radius, ?_, ?_, fun hbefore => ?_⟩
  · have hle := length_stretch_le ls (line - radius) (line + radius)
    rw [near_eq_stretch]
    omega
  · by_cases hbefore : line + radius < 0
    · have hnone : near ls line radius = [] := by
        rw [near_eq_stretch, stretch_eq_nil_of_lt (by omega)]
      have hends : (ls.length : Int) + (line + radius) < line - radius ↔ ls.length < -2 * radius := by
        omega
      have hmeet : (ls.length : Int) + (line + radius) = line - radius ↔ ls.length = -2 * radius := by
        omega
      rw [hwindow, if_pos hbefore, hnone, joinLines_eq_empty_iff.mpr (.inl rfl),
        joinLines_stretch_eq_empty_iff (by omega) (by omega), hends, hmeet]
      exact ⟨fun h _ => h, fun h => h hbefore⟩
    · rw [hwindow, if_neg hbefore, near_eq_stretch]
      exact iff_of_true rfl fun h => absurd h hbefore
  · rwa [if_pos hbefore] at hwindow

/-- Five lines with a letter each. -/
def letters : String := "a\nb\nc\nd\ne"

/-- No line is within a distance below zero of the first one, but its window has two from the end. -/
theorem contextWindow_ne_near_behind :
    contextWindow (lines letters) 1 (-2) = "c\nd" ∧ near (lines letters) 1 (-2) = [] ∧
      contextWindow (lines letters) 1 (-2) ≠ joinLines (near (lines letters) 1 (-2)) := by
  decide +kernel

theorem contextWindow_eq_near_iff_letters :
    (1 : Int) ≤ 1 ∧
      contextWindow (lines letters) 1 (-2) = joinLines (stretch (lines letters) 3 4) ∧
      contextWindow (lines letters) 1 1 = joinLines (near (lines letters) 1 1) ∧
      near (lines letters) 1 1 = ["a", "b"] ∧
      contextWindow (lines letters) 1 (-3) = joinLines (near (lines letters) 1 (-3)) := by
  have hfirst : (1 : Int) ≤ 1 := by decide
  obtain ⟨-, -, -, hbehind⟩ := contextWindow_eq_near_iff letters (-2) hfirst
  obtain ⟨-, -, habove, -⟩ := contextWindow_eq_near_iff letters 1 hfirst
  obtain ⟨-, -, hbeyond, -⟩ := contextWindow_eq_near_iff letters (-3) hfirst
  have hcount : (lines letters).length = 5 := by decide +kernel
  refine ⟨hfirst, ?_, habove.mpr fun h => absurd h (by decide), by decide +kernel,
    hbeyond.mpr fun _ => .inl (by rw [hcount]; decide)⟩
  rw [hbehind (by decide), hcount]
  rfl

end CodeSearch

import Mathlib.Data.List.Infix
import CodeSearch.Text.Lines

/-!
What the lines of a text are.

Cutting a text into lines is splitting it at line feeds (`linesOf_eq_splitOn`), so there is one line
more than there are line feeds. Which line a place is on is known from the line feeds before it:
the line with their number ends, as far as the next line feed, with what follows the place
(`getElem?_linesOf_append`). Lines that are put together are cut out again (`lines_joinLines`).
-/
set_option autoImplicit false

namespace CodeSearch.Text

theorem linesOf_nil : linesOf [] = [[]] := rfl

theorem linesOf_break (cs : List Char) : linesOf ('\n' :: cs) = [] :: linesOf cs := rfl

theorem linesOf_cons {c : Char} (hc : c ≠ '\n') (cs : List Char) :
    linesOf (c :: cs) = (linesOf cs).modifyHead (c :: ·) := by
  simp only [linesOf, List.foldr_cons, lineStep, if_neg hc, List.modifyHead_cons]

theorem linesOf_eq_splitOn (cs : List Char) : linesOf cs = cs.splitOn '\n' := by
  induction cs with
  | nil => rw [linesOf_nil, List.splitOn_nil]
  | cons c cs ih =>
    rw [List.splitOn_cons_eq_if_modifyHead, ← ih]
    by_cases hc : c = '\n'
    · rw [hc, linesOf_break, if_pos (beq_self_eq_true _)]
    · rw [linesOf_cons hc, if_neg (by simpa using hc)]

theorem not_mem_of_mem_linesOf {cs line : List Char} (hline : line ∈ linesOf cs) :
    '\n' ∉ line := by
  induction cs generalizing line with
  | nil =>
    rw [linesOf_nil, List.mem_singleton] at hline
    rw [hline]
    exact List.not_mem_nil
  | cons c cs ih =>
    by_cases hc : c = '\n'
    · rw [hc, linesOf_break, List.mem_cons] at hline
      rcases hline with rfl | hline
      · exact List.not_mem_nil
      · exact ih hline
    · rw [linesOf_cons hc] at hline
      cases hcut : linesOf cs with
      | nil =>
        rw [hcut] at hline
        exact absurd hline List.not_mem_nil
      | cons first rest =>
        rw [hcut, List.modifyHead_cons, List.mem_cons] at hline
        rcases hline with rfl | hline
        · rw [List.mem_cons, not_or]
          exact ⟨fun h => hc h.symm, ih (hcut ▸ List.mem_cons_self)⟩
        · exact ih (hcut ▸ List.mem_cons_of_mem first hline)

/-! ## The line of a place -/

/-- The text up to its first line feed. -/
def firstLine (cs : List Char) : List Char :=
  cs.takeWhile (· ≠ '\n')

theorem head?_linesOf (cs : List Char) : (linesOf cs).head? = some (firstLine cs) := by
  induction cs with
  | nil => rfl
  | cons c cs ih =>
    by_cases hc : c = '\n'
    · subst hc
      rfl
    · have hfirst : firstLine (c :: cs) = c :: firstLine cs :=
        List.takeWhile_cons_of_pos (by simpa using hc)
      rw [linesOf_cons hc, List.head?_modifyHead, ih, hfirst]
      rfl

theorem firstLine_prefix_append (cs ds : List Char) : firstLine cs <+: firstLine (cs ++ ds) := by
  rw [firstLine, firstLine, List.takeWhile_append]
  split
  · -- no line feed in the front part: its line goes on
    exact (List.takeWhile_prefix _).trans (List.prefix_append cs _)
  · exact List.prefix_refl _

/-- The line whose number is the number of line feeds before a place goes on, after that place, to
the next line feed. -/
theorem getElem?_linesOf_append (before after : List Char) :
    ∃ front, (linesOf (before ++ after))[before.count '\n']? = some (front ++ firstLine after) := by
  induction before with
  | nil =>
    refine ⟨[], ?_⟩
    rw [List.nil_append, List.count_nil, ← List.head?_eq_getElem?, head?_linesOf, List.nil_append]
  | cons c before ih =>
    obtain ⟨front, hfront⟩ := ih
    rw [List.cons_append]
    by_cases hc : c = '\n'
    · refine ⟨front, ?_⟩
      rw [hc, linesOf_break, List.count_cons_self, List.getElem?_cons_succ, hfront]
    · rw [linesOf_cons hc, List.count_cons_of_ne hc, List.getElem?_modifyHead, hfront]
      -- the character stands on the line only if no line feed comes in between
      split
      · exact ⟨c :: front, rfl⟩
      · exact ⟨front, rfl⟩

/-! ## Lines put together -/

theorem toList_joinLines (ls : List String) :
    (joinLines ls).toList = ['\n'].intercalate (ls.map String.toList) :=
  String.toList_intercalate

/-- Lines that are put together are cut out again. -/
theorem lines_joinLines {ls : List String} (hne : ls ≠ []) (hls : ∀ l ∈ ls, '\n' ∉ l.toList) :
    lines (joinLines ls) = ls := by
  have hcut : (['\n'].intercalate (ls.map String.toList)).splitOn '\n' = ls.map String.toList := by
    refine List.splitOn_intercalate '\n' ?_ (by simpa using hne)
    intro cs hcs
    obtain ⟨l, hl, rfl⟩ := List.mem_map.mp hcs
    exact hls l hl
  rw [lines, toList_joinLines, linesOf_eq_splitOn, hcut, List.map_map]
  simp only [Function.comp_def, String.ofList_toList, List.map_id']

end CodeSearch.Text

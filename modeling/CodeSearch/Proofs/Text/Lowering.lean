import CodeSearch.Text.Blank
import CodeSearch.Text.Lower
import Mathlib.Data.List.TakeWhile

/-!
Lower case in pieces.

What a part of a text becomes in lower case is known from its characters, except for the capital
sigma: that depends on the nearest characters on both sides that are not looked through. So a part
becomes the same in two surroundings exactly if its sigmas end a word in both or in neither
(`lowerWithin_eq_iff`). White space is neither a letter nor looked through, and stays as it is. So a
text can be cut at white space before or after it is put in lower case (`lowerFrom_append_blank`,
`words_lowerFrom`), and the two differ only for parts that are no words of their own.
-/
set_option autoImplicit false

namespace CodeSearch.Text

/-! ## Parts of a text -/

/-- The lower-case form of a part of a text: `before` is what precedes it, nearest first, and `after`
what follows. -/
def lowerWithin (before : List Char) : List Char → List Char → List Char
  | [], _ => []
  | c :: part, after => lowerAt before c (part ++ after) ++ lowerWithin (c :: before) part after

theorem lowerFrom_append (before part after : List Char) :
    lowerFrom before (part ++ after) =
      lowerWithin before part after ++ lowerFrom (part.reverse ++ before) after := by
  induction part generalizing before with
  | nil => rfl
  | cons c part ih =>
    rw [List.cons_append, lowerFrom, ih, lowerWithin, List.reverse_cons, List.append_assoc,
      List.append_assoc, List.singleton_append]

theorem lowerWithin_nil (before part : List Char) :
    lowerWithin before part [] = lowerFrom before part := by
  have hall := lowerFrom_append before part []
  rw [List.append_nil, lowerFrom, List.append_nil] at hall
  exact hall.symm

/-- Whether a capital sigma is written in its final form: after a letter and not before one. -/
def endsWord (before after : List Char) : Bool :=
  nextIsCased before && !nextIsCased after

theorem lowerAt_sigma (before after : List Char) :
    lowerAt before capitalSigma after =
      [Char.ofNat (if endsWord before after then 0x3C2 else 0x3C3)] := by
  rw [lowerAt, if_neg (by decide), if_pos rfl, endsWord]

/-- Only a capital sigma depends on where it stands. -/
theorem lowerAt_eq_iff {c : Char} {before after before' after' : List Char} :
    lowerAt before c after = lowerAt before' c after' ↔
      (c = capitalSigma → endsWord before after = endsWord before' after') := by
  by_cases hc : c = capitalSigma
  · subst hc
    rw [lowerAt_sigma, lowerAt_sigma]
    cases endsWord before after <;> cases endsWord before' after' <;> decide
  · refine iff_of_true ?_ fun h => absurd h hc
    rw [lowerAt, lowerAt, if_neg hc, if_neg hc]

theorem length_lowerAt (c : Char) (before after : List Char) :
    (lowerAt before c after).length = if c.toNat = 0x130 then 2 else 1 := by
  unfold lowerAt
  split
  · rfl
  · split <;> rfl

/-- A part of a text has the same form in two surroundings exactly if each capital sigma in it has. -/
theorem lowerWithin_eq_iff {before after before' after' part : List Char} :
    lowerWithin before part after = lowerWithin before' part after' ↔
      ∀ left right, part = left ++ capitalSigma :: right →
        endsWord (left.reverse ++ before) (right ++ after) =
          endsWord (left.reverse ++ before') (right ++ after') := by
  induction part generalizing before before' with
  | nil => exact iff_of_true rfl fun left right h => by simp at h
  | cons c part ih =>
    have hlength : (lowerAt before c (part ++ after)).length =
        (lowerAt before' c (part ++ after')).length := by
      rw [length_lowerAt, length_lowerAt]
    have hpieces : lowerWithin before (c :: part) after = lowerWithin before' (c :: part) after' ↔
        lowerAt before c (part ++ after) = lowerAt before' c (part ++ after') ∧
          lowerWithin (c :: before) part after = lowerWithin (c :: before') part after' :=
      ⟨fun h => List.append_inj h hlength, fun h => by rw [lowerWithin, lowerWithin, h.1, h.2]⟩
    rw [hpieces, lowerAt_eq_iff, ih]
    constructor
    · rintro ⟨hfirst, hrest⟩ left right hpart
      cases left with
      | nil =>
        obtain ⟨rfl, rfl⟩ := List.cons.inj hpart
        exact hfirst rfl
      | cons d left =>
        obtain ⟨rfl, rfl⟩ := List.cons.inj hpart
        simpa using hrest left right rfl
    · intro h
      refine ⟨fun hc => ?_, fun left right hpart => ?_⟩
      · exact h [] part (by rw [hc, List.nil_append])
      · simpa using h (c :: left) right (by rw [hpart, List.cons_append])

/-! ## White space -/

/-- The code points of white space. -/
def blankPoints : List Nat := [
  0x09, 0x0A, 0x0B, 0x0C, 0x0D, 0x1C, 0x1D, 0x1E, 0x1F, 0x20, 0x85, 0xA0, 0x1680, 0x2000, 0x2001,
  0x2002, 0x2003, 0x2004, 0x2005, 0x2006, 0x2007, 0x2008, 0x2009, 0x200A, 0x2028, 0x2029, 0x202F,
  0x205F, 0x3000]

theorem isBlank_iff {c : Char} : isBlank c = true ↔ c.toNat ∈ blankPoints := by
  simp only [isBlank, blankPoints, Bool.or_eq_true, Bool.and_eq_true, decide_eq_true_eq,
    beq_iff_eq, List.mem_cons, List.not_mem_nil, or_false]
  omega

/-- White space has no letter case, and is not looked through. -/
theorem blank_caseless : ∀ n ∈ blankPoints, n ≠ 0x130 ∧ n ≠ capitalSigma.toNat ∧
    lowerShift lowerRuns n = 0 ∧ inRanges ignorableRanges n = false ∧
    inRanges casedRanges n = false := by
  decide +kernel

theorem lowerAt_blank {b : Char} (hb : isBlank b = true) (before after : List Char) :
    lowerAt before b after = [b] := by
  obtain ⟨hdotted, hsigma, hshift, -, -⟩ := blank_caseless _ (isBlank_iff.mp hb)
  have hother : b ≠ capitalSigma := fun h => hsigma (congrArg Char.toNat h)
  rw [lowerAt, if_neg hdotted, if_neg hother, lowerChar, hshift, Int.add_zero, Int.toNat_natCast,
    Char.ofNat_toNat]

/-- Whether a character is a letter with case. -/
def isCased (c : Char) : Bool :=
  inRanges casedRanges c.toNat

/-- The nearest character that is not looked through. -/
def nearest? (cs : List Char) : Option Char :=
  cs.find? fun c => !inRanges ignorableRanges c.toNat

theorem nextIsCased_eq (cs : List Char) :
    nextIsCased cs = (nearest? cs).any isCased := by
  rw [nextIsCased, nearest?]
  induction cs with
  | nil => rfl
  | cons c cs ih =>
    rw [List.dropWhile_cons, List.find?_cons]
    cases inRanges ignorableRanges c.toNat with
    | true => simpa using ih
    | false => rfl

theorem nearest?_append (cs ds : List Char) :
    nearest? (cs ++ ds) = (nearest? cs).or (nearest? ds) :=
  List.find?_append

/-- Nothing, or something with white space in front. -/
def StartsBlank (cs : List Char) : Prop :=
  ∀ c ∈ cs.head?, isBlank c = true

/-- Nothing is seen beyond white space. -/
theorem nextIsCased_append_of_startsBlank {ds : List Char} (hds : StartsBlank ds) (cs : List Char) :
    nextIsCased (cs ++ ds) = nextIsCased cs := by
  rw [nextIsCased_eq, nextIsCased_eq, nearest?_append]
  cases nearest? cs with
  | some c => rfl
  | none =>
    cases ds with
    | nil => rfl
    | cons b ds =>
      obtain ⟨-, -, -, hseen, huncased⟩ := blank_caseless _ (isBlank_iff.mp (hds b rfl))
      rw [nearest?, List.find?_cons, hseen]
      exact huncased

/-- Between white space a part of a text has the form that it has on its own. -/
theorem lowerWithin_of_startsBlank {before after : List Char} (hbefore : StartsBlank before)
    (hafter : StartsBlank after) (part : List Char) :
    lowerWithin before part after = lowerFrom [] part := by
  rw [← lowerWithin_nil, lowerWithin_eq_iff]
  intro left right _
  rw [endsWord, endsWord, nextIsCased_append_of_startsBlank hbefore,
    nextIsCased_append_of_startsBlank hafter, List.append_nil, List.append_nil]

theorem startsBlank_cons {b : Char} (hb : isBlank b = true) (cs : List Char) :
    StartsBlank (b :: cs) := by
  intro c hc
  obtain rfl : b = c := Option.some.inj hc
  exact hb

theorem startsBlank_nil : StartsBlank [] := by
  intro c hc
  cases hc

/-- A text can be cut at white space before it is put in lower case. -/
theorem lowerFrom_append_blank {b : Char} (hb : isBlank b = true) (part rest : List Char) :
    lowerFrom [] (part ++ b :: rest) = lowerFrom [] part ++ b :: lowerFrom [] rest := by
  have hrest : lowerFrom (b :: (part.reverse ++ [])) rest = lowerFrom [] rest := by
    rw [← lowerWithin_nil, lowerWithin_of_startsBlank (startsBlank_cons hb _) startsBlank_nil]
  rw [lowerFrom_append, lowerWithin_of_startsBlank startsBlank_nil (startsBlank_cons hb rest),
    lowerFrom, lowerAt_blank hb, hrest, List.singleton_append]

/-! ## What is no white space -/

/-- The shift of a character is that of a run that it lies in, if it has one. -/
theorem exists_run_of_lowerShift (runs : List (Nat × Nat × Nat × Int)) (n : Nat) :
    lowerShift runs n = 0 ∨
      ∃ run ∈ runs, run.1 ≤ n ∧ n ≤ run.2.1 ∧ lowerShift runs n = run.2.2.2 := by
  induction runs with
  | nil => exact .inl rfl
  | cons run runs ih =>
    obtain ⟨first, last, step, shift⟩ := run
    rw [lowerShift]
    split
    · exact .inl rfl
    · rename_i hfirst
      split
      · rename_i hin
        rw [Bool.and_eq_true, decide_eq_true_eq] at hin
        exact .inr ⟨_, List.mem_cons_self, by omega, hin.1, rfl⟩
      · rcases ih with hnone | ⟨run, hrun, hin⟩
        · exact .inl hnone
        · exact .inr ⟨run, List.mem_cons_of_mem _ hrun, hin⟩

/-- A character stays as it is, or goes where its run goes, unless there is no character there. -/
theorem lowerChar_cases (c : Char) : lowerChar c = c ∨ lowerChar c = Char.ofNat 0 ∨
    ∃ run ∈ lowerRuns, (run.1 : Int) ≤ c.toNat ∧ (c.toNat : Int) ≤ run.2.1 ∧
      ((lowerChar c).toNat : Int) = c.toNat + run.2.2.2 := by
  rcases exists_run_of_lowerShift lowerRuns c.toNat with hnone | ⟨run, hrun, hfirst, hlast, hshift⟩
  · left
    rw [lowerChar, hnone, Int.add_zero, Int.toNat_natCast, Char.ofNat_toNat]
  · rw [lowerChar, hshift]
    by_cases hvalid : (c.toNat + run.2.2.2 : Int).toNat.isValidChar
    · by_cases hnegative : (c.toNat + run.2.2.2 : Int) < 0
      · right; left
        rw [Int.toNat_of_nonpos (by omega)]
      · right; right
        have hplace : (Char.ofNat (c.toNat + run.2.2.2 : Int).toNat).toNat =
            (c.toNat + run.2.2.2 : Int).toNat := by
          rw [Char.ofNat, dif_pos hvalid]
          rfl
        exact ⟨run, hrun, by omega, by omega, by omega⟩
    · right; left
      rw [Char.ofNat, dif_neg hvalid]
      rfl

/-- No run goes where white space is. -/
theorem runs_avoid_blank : ∀ run ∈ lowerRuns, ∀ n ∈ blankPoints,
    (n : Int) < run.1 + run.2.2.2 ∨ run.2.1 + run.2.2.2 < n := by
  decide +kernel

/-- What is no white space does not become white space. -/
theorem isBlank_lowerAt {c d : Char} (hc : isBlank c = false) {before after : List Char}
    (hd : d ∈ lowerAt before c after) : isBlank d = false := by
  by_cases hdotted : c.toNat = 0x130
  · rw [lowerAt, if_pos hdotted, List.mem_cons, List.mem_singleton] at hd
    rcases hd with rfl | rfl <;> decide
  by_cases hsigma : c = capitalSigma
  · rw [lowerAt, if_neg hdotted, if_pos hsigma, List.mem_singleton] at hd
    rw [hd]
    split <;> decide
  rw [lowerAt, if_neg hdotted, if_neg hsigma, List.mem_singleton] at hd
  rw [hd, Bool.eq_false_iff]
  intro hblank
  rcases lowerChar_cases c with hsame | hnothing | ⟨run, hrun, hfirst, hlast, hmoved⟩
  · rw [hsame, hc] at hblank
    cases hblank
  · rw [hnothing] at hblank
    revert hblank
    decide
  · have havoid := runs_avoid_blank run hrun _ (isBlank_iff.mp hblank)
    omega

theorem isBlank_lowerWithin {part : List Char} (hpart : ∀ c ∈ part, isBlank c = false)
    {before after : List Char} : ∀ d ∈ lowerWithin before part after, isBlank d = false := by
  induction part generalizing before with
  | nil => exact fun d hd => absurd hd List.not_mem_nil
  | cons c part ih =>
    intro d hd
    rw [lowerWithin, List.mem_append] at hd
    rcases hd with hd | hd
    · exact isBlank_lowerAt (hpart c List.mem_cons_self) hd
    · exact ih (fun c hc => hpart c (List.mem_cons_of_mem _ hc)) d hd

/-! ## Words -/

section Words

variable {w : List Char}

/-- The word under way and the words after it, when a run of characters that are no white space is put
in front. -/
theorem foldr_wordStep (hw : ∀ c ∈ w, isBlank c = false) (cut : List Char × List (List Char)) :
    w.foldr wordStep cut = (w ++ cut.1, cut.2) := by
  induction w with
  | nil => rfl
  | cons c w ih =>
    rw [List.foldr_cons, ih fun c hc => hw c (List.mem_cons_of_mem _ hc), wordStep,
      hw c List.mem_cons_self]
    rfl

theorem foldr_wordStep_blank {b : Char} (hb : isBlank b = true) (rest : List Char) :
    (b :: rest).foldr wordStep ([], []) = ([], words rest) := by
  rw [List.foldr_cons, words, wordStep, hb]
  rcases rest.foldr wordStep ([], []) with ⟨_ | ⟨c, word⟩, others⟩ <;> rfl

theorem words_blank {b : Char} (hb : isBlank b = true) (rest : List Char) :
    words (b :: rest) = words rest := by
  rw [words, foldr_wordStep_blank hb]

theorem words_of_run (hw : ∀ c ∈ w, isBlank c = false) (hne : w ≠ []) : words w = [w] := by
  obtain ⟨c, cs, rfl⟩ := List.exists_cons_of_ne_nil hne
  rw [words, foldr_wordStep hw, List.append_nil]

theorem words_run_blank (hw : ∀ c ∈ w, isBlank c = false) (hne : w ≠ []) {b : Char}
    (hb : isBlank b = true) (rest : List Char) : words (w ++ b :: rest) = w :: words rest := by
  obtain ⟨c, cs, rfl⟩ := List.exists_cons_of_ne_nil hne
  rw [words, List.foldr_append, foldr_wordStep_blank hb, foldr_wordStep hw, List.append_nil]

/-- A text is nothing, or starts with white space, or is a word, or starts with a word and white
space. -/
theorem words_cases {motive : List Char → Prop} (nil : motive [])
    (blank : ∀ b rest, isBlank b = true → motive rest → motive (b :: rest))
    (run : ∀ w, (∀ c ∈ w, isBlank c = false) → w ≠ [] → motive w)
    (run_blank : ∀ w b rest, (∀ c ∈ w, isBlank c = false) → w ≠ [] → isBlank b = true →
      motive rest → motive (w ++ b :: rest)) (cs : List Char) : motive cs := by
  induction hlength : cs.length using Nat.strongRecOn generalizing cs with
  | ind n ih =>
    have hrun : ∀ c ∈ cs.takeWhile fun c => !isBlank c, isBlank c = false := by
      intro c hc
      simpa using List.mem_takeWhile_imp hc
    have hcut := List.takeWhile_append_dropWhile (p := fun c => !isBlank c) (l := cs)
    generalize cs.takeWhile (fun c => !isBlank c) = w at hrun hcut
    cases hrest : cs.dropWhile fun c => !isBlank c with
    | nil =>
      rw [hrest, List.append_nil] at hcut
      subst hcut
      cases w with
      | nil => exact nil
      | cons c w => exact run _ hrun (List.cons_ne_nil c w)
    | cons b rest =>
      have hb : isBlank b = true := by
        have hhead := List.head?_dropWhile_not (fun c => !isBlank c) cs
        rw [hrest] at hhead
        simpa using hhead
      rw [hrest] at hcut
      subst hcut
      have hshorter : rest.length < n := by
        rw [← hlength, List.length_append, List.length_cons]
        omega
      cases w with
      | nil => exact blank b rest hb (ih _ hshorter rest rfl)
      | cons c w => exact run_blank _ b rest hrun (List.cons_ne_nil c w) hb (ih _ hshorter rest rfl)

/-- The words of a text are not empty and have no white space in them. -/
theorem run_of_mem_words {cs : List Char} (hw : w ∈ words cs) :
    (∀ c ∈ w, isBlank c = false) ∧ w ≠ [] := by
  induction cs using words_cases with
  | nil => cases hw
  | blank b rest hb ih =>
    rw [words_blank hb] at hw
    exact ih hw
  | run w' hrun hne =>
    rw [words_of_run hrun hne, List.mem_singleton] at hw
    exact hw ▸ ⟨hrun, hne⟩
  | run_blank w' b rest hrun hne hb ih =>
    rw [words_run_blank hrun hne hb, List.mem_cons] at hw
    rcases hw with rfl | hw
    · exact ⟨hrun, hne⟩
    · exact ih hw

theorem lowerFrom_ne_nil {before : List Char} (hne : w ≠ []) : lowerFrom before w ≠ [] := by
  obtain ⟨c, cs, rfl⟩ := List.exists_cons_of_ne_nil hne
  intro h
  have hlength := congrArg List.length h
  rw [lowerFrom, List.length_append, length_lowerAt] at hlength
  split at hlength <;> simp at hlength

/-- The words of a text in lower case are its words, each in lower case on its own. -/
theorem words_lowerFrom (cs : List Char) :
    words (lowerFrom [] cs) = (words cs).map (lowerFrom []) := by
  have hrun : ∀ {w : List Char}, (∀ c ∈ w, isBlank c = false) →
      ∀ c ∈ lowerFrom [] w, isBlank c = false := by
    intro w hw
    rw [← lowerWithin_nil]
    exact isBlank_lowerWithin hw
  induction cs using words_cases with
  | nil => rfl
  | blank b rest hb ih =>
    rw [← List.nil_append (b :: rest), lowerFrom_append_blank hb, lowerFrom, List.nil_append,
      words_blank hb, ih, List.nil_append, words_blank hb]
  | run w hw hne =>
    rw [words_of_run hw hne, words_of_run (hrun hw) (lowerFrom_ne_nil hne), List.map_singleton]
  | run_blank w b rest hw hne hb ih =>
    rw [lowerFrom_append_blank hb, words_run_blank (hrun hw) (lowerFrom_ne_nil hne) hb, ih,
      words_run_blank hw hne hb, List.map_cons]

end Words

end CodeSearch.Text

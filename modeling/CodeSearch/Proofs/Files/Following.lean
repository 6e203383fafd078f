import CodeSearch.Proofs.Files.Places

/-!
Following a path in a tree.

A path is followed step by step: a step is barred, or leads up, on, or through a link, and this is the
induction along it (`follow_induction`). What is in front of the last step is followed as if the step
were not there (`exists_follow_of_append`). A path that is followed to its end comes by directories and
links alone on its way, so a change where neither a directory nor a link stands leaves it its end
(`follow_of_alike`).
-/
set_option autoImplicit false

namespace CodeSearch.Files

/-! ## Steps -/

section Follow

variable {root : Item} {n : Nat} {here rest : List String} {step : String}

theorem follow_nil (root : Item) (n : Nat) (here : List String) : follow root n here [] = .ok here := by
  cases n <;> rfl

theorem follow_barred {trouble : Trouble} (hbarred : root.barred? here step = some trouble) :
    follow root n here (step :: rest) = .error trouble := by
  cases n <;> simp only [follow, followTo, hbarred]

theorem follow_up (hfree : root.barred? here ".." = none) :
    follow root n here (".." :: rest) = follow root n here.dropLast rest := by
  cases n <;> simp only [follow, followTo, hfree, if_true]

theorem follow_on (hfree : root.barred? here step = none) (hup : step ≠ "..")
    (hstep : ∀ target, root.at? (here ++ [step]) ≠ some (.link target)) :
    follow root n here (step :: rest) = follow root n (here ++ [step]) rest := by
  -- the hypothesis on links lets the last case of the match be chosen
  cases n <;> simp only [follow, followTo, hfree, if_neg hup]

theorem follow_link_zero (hfree : root.barred? here step = none) (hup : step ≠ "..") {target : Path}
    (hstep : root.at? (here ++ [step]) = some (.link target)) :
    follow root 0 here (step :: rest) = .error .tooManyLinks := by
  simp only [follow, followTo, hfree, if_neg hup, hstep]

theorem follow_link (hfree : root.barred? here step = none) (hup : step ≠ "..") {target : Path}
    (hstep : root.at? (here ++ [step]) = some (.link target)) :
    follow root (n + 1) here (step :: rest) =
      if target.slashes = 0 then follow root n here (target.steps ++ rest) else .error .missing := by
  simp only [follow, followTo, hfree, if_neg hup, hstep]

end Follow

/-- Induction along a path: the steps get fewer until there is a link, and then the links that are
left do. -/
theorem follow_induction (root : Item) {motive : Nat → List String → List String → Prop}
    (nil : ∀ n here, motive n here [])
    (barred : ∀ n here step rest trouble, root.barred? here step = some trouble →
      motive n here (step :: rest))
    (up : ∀ n here rest, root.barred? here ".." = none → motive n here.dropLast rest →
      motive n here (".." :: rest))
    (on : ∀ n here step rest, root.barred? here step = none → step ≠ ".." →
      (∀ target, root.at? (here ++ [step]) ≠ some (.link target)) → motive n (here ++ [step]) rest →
      motive n here (step :: rest))
    (lastLink : ∀ here step rest target, root.barred? here step = none → step ≠ ".." →
      root.at? (here ++ [step]) = some (.link target) → motive 0 here (step :: rest))
    (link : ∀ n here step rest target, root.barred? here step = none → step ≠ ".." →
      root.at? (here ++ [step]) = some (.link target) →
      motive n here (target.steps ++ rest) → motive (n + 1) here (step :: rest)) :
    ∀ n here steps, motive n here steps := by
  -- through the steps, for a number of links of which what comes behind a link is known
  have steps : ∀ n, (∀ here step rest target, root.barred? here step = none → step ≠ ".." →
      root.at? (here ++ [step]) = some (.link target) → motive n here (step :: rest)) →
      ∀ here steps, motive n here steps := by
    intro n hlink here steps
    induction steps generalizing here with
    | nil => exact nil n here
    | cons step rest ih =>
      cases hbarred : root.barred? here step with
      | some trouble => exact barred n here step rest trouble hbarred
      | none =>
        by_cases hup : step = ".."
        · subst hup
          exact up n here rest hbarred (ih _)
        · by_cases hstep : ∃ target, root.at? (here ++ [step]) = some (.link target)
          · obtain ⟨target, hstep⟩ := hstep
            exact hlink here step rest target hbarred hup hstep
          · exact on n here step rest hbarred hup (fun target h => hstep ⟨target, h⟩) (ih _)
  intro n
  induction n with
  | zero => exact steps 0 lastLink
  | succ n ih =>
    refine steps (n + 1) ?_
    intro here step rest target hfree hup hstep
    exact link n here step rest target hfree hup hstep (ih _ _)

/-- Steps lead on from directories alone. -/
theorem exists_directory_of_free {root : Item} {here : List String} {step : String}
    (hfree : root.barred? here step = none) :
    ∃ entries access, root.at? here = some (.directory entries access) ∧ access.search = true ∧
      step.utf8ByteSize ≤ nameLimit := by
  unfold Item.barred? at hfree
  split at hfree
  · cases hfree
  · rename_i entries access hhere
    refine ⟨entries, access, hhere, ?_⟩
    split at hfree
    · cases hfree
    · split at hfree
      · cases hfree
      · rename_i hsearch hname
        exact ⟨by simpa using hsearch, by omega⟩
  · cases hfree

/-! ## The end of a path -/

section Finish

variable {root : Item} {n : Nat} {here steps place : List String}

/-- Behind steps that lead somewhere a path is followed from there, whatever it goes on with. -/
theorem exists_follow_append {above : List String} (habove : follow root n here steps = .ok above) :
    ∃ m, ∀ more, follow root n here (steps ++ more) = follow root m above more := by
  revert habove
  induction n, here, steps using follow_induction root with
  | nil n here =>
    intro habove
    rw [follow_nil] at habove
    obtain rfl := Except.ok.inj habove
    exact ⟨n, fun more => rfl⟩
  | barred n here step rest trouble hbarred =>
    intro habove
    rw [follow_barred hbarred] at habove
    cases habove
  | up n here rest hfree ih =>
    simp only [List.cons_append, follow_up hfree]
    exact ih
  | on n here step rest hfree hup hstep ih =>
    simp only [List.cons_append, follow_on hfree hup hstep]
    exact ih
  | lastLink here step rest target hfree hup hstep =>
    intro habove
    rw [follow_link_zero hfree hup hstep] at habove
    cases habove
  | link n here step rest target hfree hup hstep ih =>
    simp only [List.cons_append, follow_link hfree hup hstep, ← List.append_assoc]
    split
    · exact ih
    · intro habove
      cases habove

/-- What goes wrong on a path goes wrong on every path that goes on from it. -/
theorem follow_append_of_error {trouble : Trouble}
    (herror : follow root n here steps = .error trouble) (more : List String) :
    follow root n here (steps ++ more) = .error trouble := by
  revert herror
  induction n, here, steps using follow_induction root with
  | nil n here =>
    intro herror
    rw [follow_nil] at herror
    cases herror
  | barred n here step rest trouble' hbarred =>
    rw [List.cons_append, follow_barred hbarred, follow_barred hbarred]
    exact id
  | up n here rest hfree ih =>
    rw [List.cons_append, follow_up hfree, follow_up hfree]
    exact ih
  | on n here step rest hfree hup hstep ih =>
    rw [List.cons_append, follow_on hfree hup hstep, follow_on hfree hup hstep]
    exact ih
  | lastLink here step rest target hfree hup hstep =>
    rw [List.cons_append, follow_link_zero hfree hup hstep, follow_link_zero hfree hup hstep]
    exact id
  | link n here step rest target hfree hup hstep ih =>
    rw [List.cons_append, follow_link hfree hup hstep, follow_link hfree hup hstep,
      ← List.append_assoc]
    split
    · exact ih
    · exact id

/-- A path that is followed to its end is followed to the end of its first part, and from there on. -/
theorem exists_follow_of_append (more : List String)
    (hfollow : follow root n here (steps ++ more) = .ok place) :
    ∃ m above, follow root n here steps = .ok above ∧ follow root m above more = .ok place := by
  cases habove : follow root n here steps with
  | error trouble =>
    rw [follow_append_of_error habove] at hfollow
    cases hfollow
  | ok above =>
    obtain ⟨m, hmore⟩ := exists_follow_append habove
    exact ⟨m, above, rfl, by rw [← hmore, hfollow]⟩

/-! ### In a tree that changes -/

/-- Whether steps lead on from a place is said by its outline. -/
theorem barred?_congr {root' : Item} {step : String}
    (hsame : (root'.at? here).map Item.outline = (root.at? here).map Item.outline) :
    root'.barred? here step = root.barred? here step := by
  unfold Item.barred?
  cases hhere : root.at? here with
  | none =>
    rw [hhere, Option.map_none, Option.map_eq_none_iff] at hsame
    rw [hsame]
  | some item =>
    rw [hhere, Option.map_some, Option.map_eq_some_iff] at hsame
    obtain ⟨item', hhere', houtline⟩ := hsame
    rw [hhere']
    cases item <;> cases item' <;> simp_all [Item.outline]

/-- In a tree that is changed where neither a directory nor a link stood, and where no link stands
afterwards, a path that is followed to its end ends where it did. -/
theorem follow_of_alike {root' : Item} {changed : List String} (halike : AlikeBut changed root root')
    (hdirectory : ∀ entries access, root.at? changed ≠ some (.directory entries access))
    (hlink : ∀ target, root.at? changed ≠ some (.link target))
    (hlink' : ∀ target, root'.at? changed ≠ some (.link target))
    (hfollow : follow root n here steps = .ok place) : follow root' n here steps = .ok place := by
  -- steps lead on from directories, and these are the same in both trees
  have hfree' : ∀ {here : List String} {step : String}, root.barred? here step = none →
      root'.barred? here step = none := by
    intro here step hfree
    obtain ⟨entries, access, hhere, -⟩ := exists_directory_of_free hfree
    have hne : here ≠ changed := fun h => hdirectory entries access (h ▸ hhere)
    rw [barred?_congr (halike here hne)]
    exact hfree
  revert hfollow
  induction n, here, steps using follow_induction root with
  | nil n here =>
    rw [follow_nil, follow_nil]
    exact id
  | barred n here step rest trouble hbarred =>
    intro hfollow
    rw [follow_barred hbarred] at hfollow
    cases hfollow
  | up n here rest hfree ih =>
    rw [follow_up hfree, follow_up (hfree' hfree)]
    exact ih
  | on n here step rest hfree hup hstep ih =>
    have hstep' : ∀ target, root'.at? (here ++ [step]) ≠ some (.link target) := by
      intro target hnew
      by_cases hat : here ++ [step] = changed
      · exact hlink' target (hat ▸ hnew)
      · exact hstep target ((halike.link_iff hat target).mp hnew)
    rw [follow_on hfree hup hstep, follow_on (hfree' hfree) hup hstep']
    exact ih
  | lastLink here step rest target hfree hup hstep =>
    intro hfollow
    rw [follow_link_zero hfree hup hstep] at hfollow
    cases hfollow
  | link n here step rest target hfree hup hstep ih =>
    have hat : here ++ [step] ≠ changed := fun h => hlink target (h ▸ hstep)
    have hstep' := (halike.link_iff hat target).mpr hstep
    rw [follow_link hfree hup hstep, follow_link (hfree' hfree) hup hstep']
    split
    · exact ih
    · intro hfollow
      cases hfollow

end Finish

end CodeSearch.Files

import CodeSearch.Proofs.Files.Following

/-!
Making directories on a disk.

A directory is made where nothing was, so no file comes, goes or changes with it, whether all that were
asked for could be made or not (`sameFiles_ensureDirectory`). Where the directory is there already
nothing is made (`ensureDirectory_of_lookup`), and asking a second time makes nothing more, also after
the first time was broken off (`disk_ensureDirectory_twice`). A path that leads nowhere leads nowhere
with the directories on it made, as long as it leads down alone (`has_ensureDirectory`).
-/
set_option autoImplicit false

namespace CodeSearch.Files

namespace Disk

variable {d d' : Disk} {p : Path} {item : Item}

/-! ## What a path leads to -/

theorem lookup_eq (d : Disk) (p : Path) : d.lookup p =
    match d.locate p with
    | .ok place =>
      match d.root.at? place with
      | some item => .ok item
      | none => .error .missing
    | .error trouble => .error trouble := by
  unfold lookup
  cases d.locate p <;> rfl

theorem locate_eq_ok {place : List String} (h : d.locate p = .ok place) :
    ∃ steps, d.inside? p = some steps ∧ follow d.root linkLimit [] steps = .ok place := by
  unfold locate at h
  split at h
  · rename_i steps hsteps
    exact ⟨steps, hsteps, h⟩
  · cases h

/-- What a path leads to stands at the place that its steps are followed to. -/
theorem lookup_eq_ok (h : d.lookup p = .ok item) :
    ∃ steps place, d.inside? p = some steps ∧ follow d.root linkLimit [] steps = .ok place ∧
      d.root.at? place = some item := by
  rw [lookup_eq] at h
  split at h
  · rename_i place hplace
    obtain ⟨steps, hinside, hfollow⟩ := locate_eq_ok hplace
    split at h
    · rename_i found hfound
      obtain rfl := Except.ok.inj h
      exact ⟨steps, place, hinside, hfollow, hfound⟩
    · cases h
  · cases h

theorem locate_of_follow {steps place : List String} (hinside : d.inside? p = some steps)
    (hfollow : follow d.root linkLimit [] steps = .ok place) : d.locate p = .ok place := by
  rw [locate, hinside]
  exact hfollow

theorem lookup_of_follow {steps place : List String} (hinside : d.inside? p = some steps)
    (hfollow : follow d.root linkLimit [] steps = .ok place)
    (hplace : d.root.at? place = some item) : d.lookup p = .ok item := by
  rw [lookup_eq, locate_of_follow hinside hfollow]
  simp only [hplace]

/-- The directory of a path inside is inside too, unless the path is that of the root, and the last
step leads from the one to the other. -/
theorem inside?_parent {steps : List String} (hinside : d.inside? p = some steps)
    (hsteps : steps ≠ []) :
    d.inside? p.parent = some steps.dropLast ∧ steps = steps.dropLast ++ [p.name] := by
  unfold inside? at hinside ⊢
  split at hinside
  · rename_i hbase
    rw [Bool.and_eq_true, List.isPrefixOf_iff_prefix] at hbase
    obtain ⟨hslashes, below, hbelow⟩ := hbase
    obtain rfl : p.steps.drop d.base.steps.length = steps := Option.some.inj hinside
    obtain rfl : below = p.steps.drop d.base.steps.length := by rw [← hbelow, List.drop_left]
    generalize p.steps.drop d.base.steps.length = below at *
    have hparent : p.parent.steps = d.base.steps ++ below.dropLast := by
      rw [Path.parent, ← hbelow, List.dropLast_append_of_ne_nil hsteps]
    have hwithin : d.base.steps.isPrefixOf p.parent.steps = true :=
      List.isPrefixOf_iff_prefix.mpr ⟨_, hparent.symm⟩
    refine ⟨?_, ?_⟩
    · rw [hwithin, Bool.and_true, if_pos (by exact hslashes), hparent, List.drop_left]
    · rw [Path.name, ← hbelow, List.getLast?_append, List.getLast?_eq_some_getLast hsteps,
        Option.some_or, Option.getD_some, List.dropLast_concat_getLast]
  · cases hinside

theorem inside?_of_parent {above : List String} (hparent : d.inside? p.parent = some above)
    (hp : p.steps ≠ []) : d.inside? p = some (above ++ [p.name]) := by
  have hlast : p.steps = p.parent.steps ++ [p.name] := by
    rw [Path.parent, Path.name, List.getLast?_eq_some_getLast hp, Option.getD_some,
      List.dropLast_concat_getLast]
  unfold inside? at hparent ⊢
  split at hparent
  · rename_i hbase
    rw [Bool.and_eq_true, List.isPrefixOf_iff_prefix] at hbase
    obtain ⟨hslashes, below, hbelow⟩ := hbase
    obtain rfl := Option.some.inj hparent
    have hsteps : p.steps = d.base.steps ++ (below ++ [p.name]) := by
      rw [hlast, ← hbelow, List.append_assoc]
    have hwithin : d.base.steps.isPrefixOf p.steps = true :=
      List.isPrefixOf_iff_prefix.mpr ⟨_, hsteps.symm⟩
    rw [hwithin, Bool.and_true, if_pos (by exact hslashes), hsteps, ← hbelow, List.drop_left,
      List.drop_left]
  · cases hparent

/-- What something is in is a directory. -/
theorem exists_directory_of_lookup {steps : List String} (hinside : d.inside? p = some steps)
    (hsteps : steps ≠ []) (h : d.lookup p = .ok item) :
    ∃ above entries access, d.locate p.parent = .ok above ∧
      d.root.at? above = some (.directory entries access) ∧ d.root.barred? above p.name = none ∧
      (p.name = ".." ∨ (d.root.at? (above ++ [p.name])).isSome = true) := by
  obtain ⟨hparent, hlast⟩ := inside?_parent hinside hsteps
  obtain ⟨steps', place, hinside', hfollow, hplace⟩ := lookup_eq_ok h
  obtain rfl : steps = steps' := Option.some.inj (hinside.symm.trans hinside')
  rw [hlast] at hfollow
  obtain ⟨m, above, habove, hstep⟩ := exists_follow_of_append _ hfollow
  have hfree : d.root.barred? above p.name = none := by
    cases hbarred : d.root.barred? above p.name with
    | none => rfl
    | some trouble =>
      rw [follow_barred hbarred] at hstep
      cases hstep
  obtain ⟨entries, access, hentries, -⟩ := exists_directory_of_free hfree
  refine ⟨above, entries, access, by rw [locate, hparent]; exact habove, hentries, hfree, ?_⟩
  by_cases hup : p.name = ".."
  · exact .inl hup
  · refine .inr ?_
    cases hentry : d.root.at? (above ++ [p.name]) with
    | some found => rfl
    | none =>
      rw [follow_on hfree hup (by simp [hentry]), follow_nil] at hstep
      rw [← Except.ok.inj hstep, hentry] at hplace
      cases hplace

/-- What there is by way of a directory, the path being inside. -/
theorem lookup_parent_of_lookup {steps : List String} (hinside : d.inside? p = some steps)
    (hsteps : steps ≠ []) (h : d.lookup p = .ok item) :
    ∃ entries access, d.lookup p.parent = .ok (.directory entries access) := by
  obtain ⟨above, entries, access, hlocate, hentries, -⟩ :=
    exists_directory_of_lookup hinside hsteps h
  exact ⟨entries, access, by rw [lookup_eq, hlocate]; simp only [hentries]⟩

/-! ## One directory -/

/-- Nothing is made where something is. -/
theorem makeDirectory_of_lookup {steps : List String} (hinside : d.inside? p = some steps)
    (h : d.lookup p = .ok item) : d.makeDirectory p = .error .exists := by
  unfold makeDirectory
  rw [hinside]
  cases steps with
  | nil => rfl
  | cons step rest =>
    obtain ⟨above, entries, access, hlocate, hentries, hfree, hthere⟩ :=
      exists_directory_of_lookup hinside (List.cons_ne_nil _ _) h
    simp only [hlocate, hfree]
    rw [if_pos (by simpa using hthere)]

/-- A directory that is made is put where nothing was, in a directory. -/
theorem makeDirectory_ok (h : d.makeDirectory p = .ok d') : d.inside? p = none ∧ d' = d ∨
    ∃ steps above entries access, d.inside? p = some steps ∧ steps ≠ [] ∧
      d.locate p.parent = .ok above ∧ p.name ≠ ".." ∧ d.root.barred? above p.name = none ∧
      d.root.at? above = some (.directory entries access) ∧
      d.root.at? (above ++ [p.name]) = none ∧ d' = d.putAt (above ++ [p.name]) (.directory []) := by
  unfold makeDirectory at h
  split at h
  · rename_i hinside
    exact .inl ⟨hinside, (Except.ok.inj h).symm⟩
  · cases h
  · rename_i step rest hinside
    split at h
    · cases h
    · rename_i above hlocate
      split at h
      · cases h
      · rename_i hfree
        obtain ⟨entries, access, hentries, -⟩ := exists_directory_of_free hfree
        split at h
        · cases h
        · rename_i hnone
          rw [Bool.or_eq_true, not_or, decide_eq_true_iff, Option.not_isSome_iff_eq_none] at hnone
          split at h
          · exact .inr ⟨step :: rest, above, entries, access, hinside, List.cons_ne_nil _ _, hlocate,
              hnone.1, hfree, hentries, hnone.2, (Except.ok.inj h).symm⟩
          · cases h

/-! ## Files stay -/

/-- The same files are at the same places of two disks, with the same content, and the same may be done
with them. -/
def SameFiles (d d' : Disk) : Prop :=
  ∀ place octets access, d'.root.at? place = some (.file octets access) ↔
    d.root.at? place = some (.file octets access)

theorem SameFiles.refl (d : Disk) : SameFiles d d := fun _ _ _ => .rfl

theorem SameFiles.trans {d'' : Disk} (h : SameFiles d d') (h' : SameFiles d' d'') :
    SameFiles d d'' :=
  fun place octets access => (h' place octets access).trans (h place octets access)

/-- A directory takes the place of no file. -/
theorem sameFiles_makeDirectory (h : d.makeDirectory p = .ok d') : SameFiles d d' := by
  rcases makeDirectory_ok h with ⟨-, rfl⟩ |
    ⟨steps, above, entries, access, -, -, -, -, -, habove, hnone, rfl⟩
  · exact .refl _
  · intro place octets access
    have halike : AlikeBut (above ++ [p.name]) d.root
        (d.root.put (above ++ [p.name]) (.directory [])) :=
      alikeBut_put (bare_directory _) habove (by simp [hnone])
    by_cases hplace : place = above ++ [p.name]
    · rw [hplace, hnone, putAt, at?_put]
      simp
    · exact halike.file_iff hplace octets access

theorem sameFiles_makeOne (d : Disk) (p : Path) : SameFiles d (d.makeOne p).disk := by
  unfold makeOne
  split
  · rename_i made hmade
    exact sameFiles_makeDirectory hmade
  · split <;> exact .refl _

theorem sameFiles_makeDirectories (d : Disk) (p : Path) (n : Nat) :
    SameFiles d (d.makeDirectories p n).disk := by
  induction n generalizing p with
  | zero => exact sameFiles_makeOne d p
  | succ n ih =>
    unfold makeDirectories
    split
    · dsimp only
      split
      · exact ih p.parent
      · exact (ih p.parent).trans (sameFiles_makeOne _ p)
    · exact sameFiles_makeOne d p

theorem sameFiles_ensureDirectory (d : Disk) (p : Path) : SameFiles d (d.ensureDirectory p).disk :=
  sameFiles_makeDirectories d p _

/-! ## What is there already -/

/-- A directory that is there, or lies outside of the disk, will do. -/
def Ready (d : Disk) (p : Path) : Prop :=
  d.inside? p = none ∨ ∃ entries access, d.lookup p = .ok (.directory entries access)

theorem makeOne_of_ready (h : d.Ready p) : d.makeOne p = { disk := d } := by
  unfold makeOne
  cases hinside : d.inside? p with
  | none =>
    have hmade : d.makeDirectory p = .ok d := by
      unfold makeDirectory
      rw [hinside]
    rw [hmade]
  | some steps =>
    rcases h with hnone | ⟨entries, access, hlookup⟩
    · rw [hinside] at hnone
      cases hnone
    · rw [makeDirectory_of_lookup hinside hlookup]
      simp only [Disk.isDirectory, hlookup]

theorem makeDirectories_of_missing (hmissing : d.makeDirectory p = .error .missing) (n : Nat) :
    d.makeDirectories p (n + 1) =
      if (d.makeDirectories p.parent n).obstacle?.isSome then d.makeDirectories p.parent n
      else (d.makeDirectories p.parent n).disk.makeOne p := by
  rw [makeDirectories, hmissing]

theorem makeDirectories_of_ne_missing (hother : d.makeDirectory p ≠ .error .missing) (n : Nat) :
    d.makeDirectories p n = d.makeOne p := by
  cases n with
  | zero => rfl
  | succ n =>
    rw [makeDirectories]
    split
    · rename_i hmissing
      exact absurd hmissing hother
    · rfl

theorem makeDirectories_of_ready (h : d.Ready p) (n : Nat) :
    d.makeDirectories p n = { disk := d } := by
  have hthere : d.makeDirectory p ≠ .error .missing := by
    rcases h with hnone | ⟨entries, access, hlookup⟩
    · unfold makeDirectory
      simp [hnone]
    · obtain ⟨steps, -, hinside, -⟩ := lookup_eq_ok hlookup
      rw [makeDirectory_of_lookup hinside hlookup]
      simp
  rw [makeDirectories_of_ne_missing hthere, makeOne_of_ready h]

/-- What something is in is ready. -/
theorem ready_parent_of_lookup (hp : p.steps ≠ []) (h : d.lookup p = .ok item) : d.Ready p.parent := by
  cases hparent : d.inside? p.parent with
  | none => exact .inl hparent
  | some above =>
    have hinside := inside?_of_parent hparent hp
    exact .inr (lookup_parent_of_lookup hinside (by simp) h)

/-- The directory of something that is there need not be made. -/
theorem ensureDirectory_of_lookup (hp : p.steps ≠ []) (h : d.lookup p = .ok item) :
    d.ensureDirectory p.parent = { disk := d } :=
  makeDirectories_of_ready (ready_parent_of_lookup hp h) _

/-! ## A second time -/

theorem Ready.parent (h : d.Ready p) : d.Ready p.parent := by
  by_cases hp : p.steps = []
  · have hsame : p.parent = p := by rw [Path.parent, hp, List.dropLast_nil, ← hp]
    rwa [hsame]
  · rcases h with hnone | ⟨entries, access, hlookup⟩
    · cases hparent : d.inside? p.parent with
      | none => exact .inl hparent
      | some above =>
        rw [inside?_of_parent hparent hp] at hnone
        cases hnone
    · exact ready_parent_of_lookup hp hlookup

/-- A directory that is made is there, and nothing is in it. -/
theorem lookup_of_makeDirectory (h : d.makeDirectory p = .ok d') : d.inside? p = none ∧ d' = d ∨
    d'.lookup p = .ok (.directory []) := by
  rcases makeDirectory_ok h with houtside |
    ⟨steps, above, entries, access, hinside, hsteps, hlocate, hup, hfree, hentries, hnone, rfl⟩
  · exact .inl houtside
  · obtain ⟨hparent, hlast⟩ := inside?_parent hinside hsteps
    have halike : AlikeBut (above ++ [p.name]) d.root
        (d.root.put (above ++ [p.name]) (.directory [])) :=
      alikeBut_put (bare_directory _) hentries (by simp [hnone])
    have hmade := at?_put d.root (.directory []) (above ++ [p.name])
    rw [locate, hparent] at hlocate
    -- up to the directory above nothing is different
    obtain ⟨m, hmore⟩ := exists_follow_append (follow_of_alike halike (by simp [hnone])
      (by simp [hnone]) (by simp [hmade]) hlocate)
    have hfree' : (d.root.put (above ++ [p.name]) (.directory [])).barred? above p.name = none := by
      rw [barred?_congr (halike above (by simp))]
      exact hfree
    refine .inr (lookup_of_follow (d := d.putAt (above ++ [p.name]) (.directory [])) hinside ?_ hmade)
    rw [hlast]
    exact (hmore [p.name]).trans
      ((follow_on hfree' hup (by simp [hmade])).trans (follow_nil _ _ _))

/-- A directory that is made leads on to itself. -/
theorem ready_of_makeDirectory (h : d.makeDirectory p = .ok d') : d'.Ready p := by
  rcases lookup_of_makeDirectory h with ⟨hnone, rfl⟩ | hlookup
  · exact .inl hnone
  · exact .inr ⟨[], {}, hlookup⟩

/-- A directory is made in one that is ready. -/
theorem ready_parent_of_makeDirectory (h : d.makeDirectory p = .ok d') : d.Ready p.parent := by
  rcases makeDirectory_ok h with ⟨hnone, -⟩ |
    ⟨steps, above, entries, access, -, -, hlocate, -, -, hentries, -⟩
  · exact Ready.parent (.inl hnone)
  · exact .inr ⟨entries, access, by rw [lookup_eq, hlocate]; simp only [hentries]⟩

theorem makeOne_of_ok (h : d.makeDirectory p = .ok d') : d.makeOne p = { disk := d' } := by
  rw [makeOne, h]

theorem disk_makeOne_of_error {trouble : Trouble} (h : d.makeDirectory p = .error trouble) :
    (d.makeOne p).disk = d := by
  rw [makeOne, h]
  dsimp only
  split <;> rfl

/-- With an obstacle nothing is made. -/
theorem disk_makeOne_of_obstacle (h : (d.makeOne p).obstacle?.isSome = true) :
    (d.makeOne p).disk = d := by
  cases hmade : d.makeDirectory p with
  | error trouble => exact disk_makeOne_of_error hmade
  | ok made =>
    rw [makeOne_of_ok hmade] at h
    cases h

/-- Without one the directory is ready. -/
theorem ready_of_makeOne (h : (d.makeOne p).obstacle? = none) : (d.makeOne p).disk.Ready p := by
  cases hmade : d.makeDirectory p with
  | ok made =>
    rw [makeOne_of_ok hmade]
    exact ready_of_makeDirectory hmade
  | error trouble =>
    rw [disk_makeOne_of_error hmade]
    rw [makeOne, hmade] at h
    dsimp only at h
    split at h
    · rename_i hdirectory
      unfold Disk.isDirectory at hdirectory
      split at hdirectory
      · rename_i entries access hlookup
        exact .inr ⟨entries, access, hlookup⟩
      · cases hdirectory
      · split at hdirectory <;> cases hdirectory
    · cases h
    · cases h

/-- Where there is an obstacle the directory is not ready. -/
theorem not_ready_of_obstacle {n : Nat} (h : (d.makeDirectories p n).obstacle?.isSome = true) :
    ¬ (d.makeDirectories p n).disk.Ready p := by
  have hone : ∀ {d : Disk} {p : Path}, (d.makeOne p).obstacle?.isSome = true →
      ¬ (d.makeOne p).disk.Ready p := by
    intro d p hobstacle hready
    rw [disk_makeOne_of_obstacle hobstacle] at hready
    rw [makeOne_of_ready hready] at hobstacle
    cases hobstacle
  induction n generalizing p with
  | zero => exact hone h
  | succ n ih =>
    by_cases hmissing : d.makeDirectory p = .error .missing
    · rw [makeDirectories_of_missing hmissing] at h ⊢
      split
      · rename_i hparent
        exact fun hready => ih hparent hready.parent
      · rename_i hparent
        rw [if_neg hparent] at h
        exact hone h
    · rw [makeDirectories_of_ne_missing hmissing] at h ⊢
      exact hone h

/-- Where one directory cannot be made, and nothing is made above it, nothing is made. -/
theorem disk_makeDirectories_of_error {trouble : Trouble} (h : d.makeDirectory p = .error trouble)
    {n : Nat} (hparent : (d.makeDirectories p.parent n).disk = d) :
    (d.makeDirectories p (n + 1)).disk = d := by
  by_cases hmissing : d.makeDirectory p = .error .missing
  · rw [makeDirectories_of_missing hmissing]
    split
    · exact hparent
    · rw [hparent]
      exact disk_makeOne_of_error h
  · rw [makeDirectories_of_ne_missing hmissing]
    exact disk_makeOne_of_error h

theorem disk_makeOne_twice {n : Nat} (hone : d.makeDirectories p n = d.makeOne p) :
    ((d.makeOne p).disk.makeDirectories p n).disk = (d.makeOne p).disk := by
  cases hobstacle : (d.makeOne p).obstacle? with
  | none => rw [makeDirectories_of_ready (ready_of_makeOne hobstacle)]
  | some o =>
    have hsame := disk_makeOne_of_obstacle (Option.isSome_iff_exists.mpr ⟨o, hobstacle⟩)
    rw [hsame, hone, hsame]

/-- What has been made is not made again, and what was in the way is so again. -/
theorem disk_makeDirectories_twice (d : Disk) (p : Path) (n : Nat) :
    ((d.makeDirectories p n).disk.makeDirectories p n).disk = (d.makeDirectories p n).disk := by
  induction n generalizing p with
  | zero => exact disk_makeOne_twice rfl
  | succ n ih =>
    by_cases hmissing : d.makeDirectory p = .error .missing
    · rw [makeDirectories_of_missing hmissing]
      split
      · -- broken off above: in what is not ready nothing is made below either
        rename_i hparent
        cases hagain : (d.makeDirectories p.parent n).disk.makeDirectory p with
        | ok made => exact absurd (ready_parent_of_makeDirectory hagain) (not_ready_of_obstacle hparent)
        | error trouble => exact disk_makeDirectories_of_error hagain (ih p.parent)
      · cases hagain : (d.makeDirectories p.parent n).disk.makeDirectory p with
        | ok made =>
          rw [makeOne_of_ok hagain]
          simp only
          rw [makeDirectories_of_ready (ready_of_makeDirectory hagain)]
        | error trouble =>
          rw [disk_makeOne_of_error hagain]
          exact disk_makeDirectories_of_error hagain (ih p.parent)
    · have hone := makeDirectories_of_ne_missing hmissing (n + 1)
      rw [hone]
      exact disk_makeOne_twice hone

theorem disk_ensureDirectory_twice (d : Disk) (p : Path) :
    ((d.ensureDirectory p).disk.ensureDirectory p).disk = (d.ensureDirectory p).disk :=
  disk_makeDirectories_twice d p _

/-! ## What is not there -/

/-- What stands in an empty directory, and by way of what. -/
theorem exists_follow_of_empty {access : Access} (hempty : d.lookup p.parent = .ok (.directory [] access))
    (hp : p.steps ≠ []) :
    ∃ steps place m, d.inside? p = some (steps ++ [p.name]) ∧ d.locate p.parent = .ok place ∧
      (∀ more, follow d.root linkLimit [] (steps ++ more) = follow d.root m place more) ∧
      d.root.at? place = some (.directory [] access) ∧ d.root.at? (place ++ [p.name]) = none := by
  obtain ⟨steps, place, hinside, hfollow, hplace⟩ := lookup_eq_ok hempty
  obtain ⟨m, hmore⟩ := exists_follow_append hfollow
  refine ⟨steps, place, m, inside?_of_parent hinside hp, locate_of_follow hinside hfollow, hmore,
    hplace, ?_⟩
  rw [at?_append, hplace]
  rfl

theorem barred?_of_empty {root : Item} {place : List String} {name : String}
    (hplace : root.at? place = some (.directory [])) (hname : name.utf8ByteSize ≤ nameLimit) :
    root.barred? place name = none := by
  unfold Item.barred?
  simp only [hplace, Bool.not_true, Bool.false_eq_true, if_false]
  rw [if_neg (by omega)]

/-- In a directory that was just made another one can be made. -/
theorem exists_makeDirectory_of_empty (hempty : d.lookup p.parent = .ok (.directory []))
    (hp : p.steps ≠ []) (hup : p.name ≠ "..") (hname : p.name.utf8ByteSize ≤ nameLimit) :
    ∃ d', d.makeDirectory p = .ok d' := by
  obtain ⟨steps, place, m, hinside, hlocate, -, hplace, hnone⟩ := exists_follow_of_empty hempty hp
  unfold makeDirectory
  rw [hinside]
  cases hsteps : steps ++ [p.name] with
  | nil => simp at hsteps
  | cons step rest =>
    simp only [hlocate, barred?_of_empty hplace hname, hnone, writable, hplace]
    simp [hup]

/-- Nothing is in a directory that was just made. -/
theorem has_of_empty (hempty : d.lookup p.parent = .ok (.directory [])) (hp : p.steps ≠ [])
    (hup : p.name ≠ "..") (hname : p.name.utf8ByteSize ≤ nameLimit) : d.has p = .ok false := by
  obtain ⟨steps, place, m, hinside, -, hmore, hplace, hnone⟩ := exists_follow_of_empty hempty hp
  have hlocate : d.locate p = .ok (place ++ [p.name]) := by
    rw [locate, hinside]
    exact (hmore _).trans ((follow_on (barred?_of_empty hplace hname) hup (by simp [hnone])).trans
      (follow_nil _ _ _))
  rw [has, lookup_eq, hlocate]
  simp only [hnone]
  rfl

/-- A path each step of which leads down and has a name that a system takes. -/
def Straight (p : Path) : Prop :=
  ∀ step ∈ p.steps, step ≠ ".." ∧ step.utf8ByteSize ≤ nameLimit

instance (p : Path) : Decidable (Straight p) :=
  inferInstanceAs (Decidable (∀ step ∈ p.steps, _))

theorem Straight.parent (h : Straight p) : Straight p.parent :=
  fun step hstep => h step ((List.dropLast_sublist _).subset hstep)

theorem Straight.name (h : Straight p) (hp : p.steps ≠ []) :
    p.name ≠ ".." ∧ p.name.utf8ByteSize ≤ nameLimit := by
  refine h _ ?_
  rw [Path.name, List.getLast?_eq_some_getLast hp]
  exact List.getLast_mem hp

theorem steps_ne_nil_of_missing (h : d.makeDirectory p = .error .missing) : p.steps ≠ [] := by
  intro hnil
  unfold makeDirectory at h
  split at h
  · cases h
  · cases h
  · rename_i step rest hinside
    unfold inside? at hinside
    rw [hnil, List.drop_nil] at hinside
    split at hinside
    · simp at hinside
    · cases hinside

theorem makeOne_cases (d : Disk) (p : Path) : (d.makeOne p).disk = d ∨
    (d.makeOne p).obstacle? = none ∧ (d.makeOne p).disk.lookup p = .ok (.directory []) := by
  cases hmade : d.makeDirectory p with
  | error trouble => exact .inl (disk_makeOne_of_error hmade)
  | ok made =>
    rw [makeOne_of_ok hmade]
    exact (lookup_of_makeDirectory hmade).imp And.right fun hlookup => ⟨rfl, hlookup⟩

/-- Of the directories on a straight path all are made, or none. -/
theorem makeDirectories_cases (hstraight : Straight p) (n : Nat) :
    (d.makeDirectories p n).disk = d ∨ (d.makeDirectories p n).obstacle? = none ∧
      (d.makeDirectories p n).disk.lookup p = .ok (.directory []) := by
  induction n generalizing p with
  | zero => exact makeOne_cases d p
  | succ n ih =>
    by_cases hmissing : d.makeDirectory p = .error .missing
    · rw [makeDirectories_of_missing hmissing]
      rcases ih hstraight.parent with hsame | ⟨hclear, hempty⟩
      · split
        · exact .inl hsame
        · rw [hsame]
          exact makeOne_cases d p
      · have hp := steps_ne_nil_of_missing hmissing
        obtain ⟨hup, hname⟩ := hstraight.name hp
        obtain ⟨made, hmade⟩ := exists_makeDirectory_of_empty hempty hp hup hname
        rw [hclear, if_neg (by simp), makeOne_of_ok hmade]
        rcases lookup_of_makeDirectory hmade with ⟨houtside, -⟩ | hlookup
        · obtain ⟨steps, place, m, hinside, -⟩ := exists_follow_of_empty hempty hp
          rw [houtside] at hinside
          cases hinside
        · exact .inr ⟨rfl, hlookup⟩
    · rw [makeDirectories_of_ne_missing hmissing]
      exact makeOne_cases d p

/-- What is not there does not come to light when the directory for it is made. -/
theorem has_ensureDirectory (hstraight : Straight p) (hp : p.steps ≠ []) (h : d.has p = .ok false) :
    (d.ensureDirectory p.parent).disk.has p = .ok false := by
  obtain ⟨hup, hname⟩ := hstraight.name hp
  rcases makeDirectories_cases hstraight.parent p.parent.steps.length with hsame | ⟨-, hempty⟩
  · rw [ensureDirectory, hsame]
    exact h
  · exact has_of_empty hempty hp hup hname

end Disk

end CodeSearch.Files

import CodeSearch.Files.Walk
import CodeSearch.Proofs.Files.Following

/-!
What a disk lists.

In a tree without two entries of one name in a directory, the names that a directory lists are distinct
(`Disk.distinct_fileSystem`). In a tree where every directory can be searched and no name is too long, a
path leads nowhere only because nothing is there (`isAbsence_of_follow`), so of everything that a
directory lists it can be told whether it is a directory (`told_of_accessible`).
-/
set_option autoImplicit false

namespace CodeSearch

/-- The path that some steps lead to from a directory. -/
def Path.into (p : Path) (steps : List String) : Path :=
  ⟨p.slashes, p.steps ++ steps⟩

theorem Path.into_nil (p : Path) : p.into [] = p := by
  rw [into, List.append_nil]

theorem Path.into_into (p : Path) (steps more : List String) :
    (p.into steps).into more = p.into (steps ++ more) := by
  rw [into, into, into, List.append_assoc]

namespace Files

theorem entryPath_eq_into (directory : Path) (name : String) :
    entryPath directory name = directory.into [name] := rfl

/-- The files of what came up. -/
theorem mem_files_iff {w : Walked} {p : Path} : p ∈ w.files ↔ .file p ∈ w.seen := by
  rw [Walked.files, List.mem_filterMap]
  constructor
  · rintro ⟨sighting, hmem, hfile⟩
    cases sighting with
    | file q =>
      obtain rfl := Option.some.inj hfile
      exact hmem
    | unlisted q trouble => cases hfile
  · intro hmem
    exact ⟨.file p, hmem, rfl⟩

/-- The names of a directory are distinct. -/
def FileSystem.Distinct (s : FileSystem) : Prop :=
  ∀ directory names, s.names directory = .ok names → names.Nodup

/-- A directory can be listed, and has a name in it. -/
def FileSystem.Lists (s : FileSystem) (directory : Path) (name : String) : Prop :=
  ∃ names, s.names directory = .ok names ∧ name ∈ names

/-! ## Names that are distinct -/

mutual

/-- In no directory of a tree are there two entries with one name. -/
def Item.distinct : Item → Bool
  | .directory entries _ => decide (entries.map (·.1)).Nodup && allDistinct entries
  | .file _ _ => true
  | .link _ => true

/-- No entry has a directory with two entries of one name in it. -/
def allDistinct : List (String × Item) → Bool
  | [] => true
  | (_, item) :: others => item.distinct && allDistinct others

end

mutual

theorem distinct_at {item found : Item} {place : List String} (hitem : item.distinct = true)
    (hfound : item.at? place = some found) : found.distinct = true :=
  match item, place with
  | item, [] => by
    rw [Item.at?] at hfound
    obtain rfl := Option.some.inj hfound
    exact hitem
  | .directory entries _, step :: rest => by
    rw [Item.distinct, Bool.and_eq_true] at hitem
    rw [Item.at?] at hfound
    exact distinct_entryAt hitem.2 hfound
  | .file _ _, _ :: _ => by
    rw [Item.at?] at hfound
    · cases hfound
    · simp
  | .link _, _ :: _ => by
    rw [Item.at?] at hfound
    · cases hfound
    · simp

theorem distinct_entryAt {entries : List (String × Item)} {found : Item} {step : String}
    {rest : List String} (hentries : allDistinct entries = true)
    (hfound : entryAt? entries step rest = some found) : found.distinct = true :=
  match entries with
  | [] => by
    rw [entryAt?] at hfound
    cases hfound
  | (name, item) :: others => by
    rw [allDistinct, Bool.and_eq_true] at hentries
    rw [entryAt?] at hfound
    split at hfound
    · exact distinct_at hentries.1 hfound
    · exact distinct_entryAt hentries.2 hfound

end

/-- A tree without two entries of one name in a directory is a file system with distinct names. -/
theorem Disk.distinct_fileSystem {d : Disk} (hroot : d.root.distinct = true) :
    d.fileSystem.Distinct := by
  intro directory names hnames
  have hlisted : d.names directory = .ok names := hnames
  rw [Disk.names, Disk.lookup] at hlisted
  cases hplace : d.locate directory with
  | error trouble =>
    rw [hplace] at hlisted
    cases hlisted
  | ok place =>
    rw [hplace] at hlisted
    cases hitem : d.root.at? place with
    | none => simp [bind, Except.bind, hitem] at hlisted
    | some item =>
      cases item with
      | file octets access => simp [bind, Except.bind, hitem] at hlisted
      | link target => simp [bind, Except.bind, hitem] at hlisted
      | directory entries access =>
        have hdistinct := distinct_at hroot hitem
        rw [Item.distinct, Bool.and_eq_true, decide_eq_true_iff] at hdistinct
        simp only [bind, Except.bind, hitem] at hlisted
        split at hlisted
        · rw [← Except.ok.inj hlisted]
          exact hdistinct.1
        · cases hlisted

/-! ## Trees that stop nobody -/

mutual

/-- Every directory of a tree can be searched, and neither a name in it nor a step of a link is too
long. -/
def Item.accessible : Item → Bool
  | .file _ _ => true
  | .link target => target.steps.all fun step => step.utf8ByteSize ≤ nameLimit
  | .directory entries access => access.search && allAccessible entries

/-- The same of each of several entries. -/
def allAccessible : List (String × Item) → Bool
  | [] => true
  | (name, item) :: others =>
    decide (name.utf8ByteSize ≤ nameLimit) && (item.accessible && allAccessible others)

end

mutual

theorem accessible_at {item found : Item} {place : List String} (hitem : item.accessible = true)
    (hfound : item.at? place = some found) : found.accessible = true :=
  match item, place with
  | item, [] => by
    rw [Item.at?] at hfound
    obtain rfl := Option.some.inj hfound
    exact hitem
  | .directory entries access, step :: rest => by
    rw [Item.accessible, Bool.and_eq_true] at hitem
    rw [Item.at?] at hfound
    exact accessible_entryAt hitem.2 hfound
  | .file _ _, _ :: _ => by
    rw [Item.at?] at hfound
    · cases hfound
    · simp
  | .link _, _ :: _ => by
    rw [Item.at?] at hfound
    · cases hfound
    · simp

theorem accessible_entryAt {entries : List (String × Item)} {found : Item} {step : String}
    {rest : List String} (hentries : allAccessible entries = true)
    (hfound : entryAt? entries step rest = some found) : found.accessible = true :=
  match entries with
  | [] => by
    rw [entryAt?] at hfound
    cases hfound
  | (name, item) :: others => by
    rw [allAccessible, Bool.and_eq_true, Bool.and_eq_true] at hentries
    rw [entryAt?] at hfound
    split at hfound
    · exact accessible_at hentries.2.1 hfound
    · exact accessible_entryAt hentries.2.2 hfound

end

/-- In such a tree no step is barred because something is not allowed or too long. -/
theorem isAbsence_of_barred {root : Item} (hroot : root.accessible = true) {here : List String}
    {step : String} (hstep : step.utf8ByteSize ≤ nameLimit) {trouble : Trouble}
    (hbarred : root.barred? here step = some trouble) : trouble.isAbsence = true := by
  unfold Item.barred? at hbarred
  split at hbarred
  · rw [← Option.some.inj hbarred]
    rfl
  · rename_i entries access hhere
    have hopen := accessible_at hroot hhere
    rw [Item.accessible, Bool.and_eq_true] at hopen
    rw [hopen.1, if_neg (by simp), if_neg (by omega)] at hbarred
    cases hbarred
  · rw [← Option.some.inj hbarred]
    rfl

/-- A path of names that are not too long, in such a tree, leads nowhere only if nothing is there. -/
theorem isAbsence_of_follow {root : Item} (hroot : root.accessible = true) {n : Nat}
    {here steps : List String} (hsteps : ∀ step ∈ steps, step.utf8ByteSize ≤ nameLimit)
    {trouble : Trouble} (herror : follow root n here steps = .error trouble) :
    trouble.isAbsence = true := by
  revert hsteps herror
  induction n, here, steps using follow_induction root with
  | nil n here =>
    intro _ herror
    rw [follow_nil] at herror
    cases herror
  | barred n here step rest trouble' hbarred =>
    intro hsteps herror
    rw [follow_barred hbarred] at herror
    obtain rfl := Except.error.inj herror
    exact isAbsence_of_barred hroot (hsteps step List.mem_cons_self) hbarred
  | up n here rest hfree ih =>
    intro hsteps herror
    rw [follow_up hfree] at herror
    exact ih (fun step hstep => hsteps step (List.mem_cons_of_mem _ hstep)) herror
  | on n here step rest hfree hup hstep ih =>
    intro hsteps herror
    rw [follow_on hfree hup hstep] at herror
    exact ih (fun step hstep => hsteps step (List.mem_cons_of_mem _ hstep)) herror
  | lastLink here step rest target hfree hup hstep =>
    intro _ herror
    rw [follow_link_zero hfree hup hstep] at herror
    rw [← Except.error.inj herror]
    rfl
  | link n here step rest target hfree hup hstep ih =>
    intro hsteps herror
    rw [follow_link hfree hup hstep] at herror
    split at herror
    · refine ih ?_ herror
      intro next hnext
      rcases List.mem_append.mp hnext with htarget | hrest
      · have hshort := accessible_at hroot hstep
        rw [Item.accessible, List.all_eq_true] at hshort
        simpa using hshort next htarget
      · exact hsteps next (List.mem_cons_of_mem _ hrest)
    · rw [← Except.error.inj herror]
      rfl

theorem inside_into {d : Disk} {directory : Path} {steps : List String}
    (hinside : d.inside? directory = some steps) (name : String) :
    d.inside? (directory.into [name]) = some (steps ++ [name]) := by
  unfold Disk.inside? at hinside ⊢
  split at hinside
  · rename_i hbase
    rw [Bool.and_eq_true, decide_eq_true_iff, List.isPrefixOf_iff_prefix] at hbase
    obtain ⟨hslashes, below, hbelow⟩ := hbase
    obtain rfl := Option.some.inj hinside
    rw [Path.into, if_pos, ← hbelow, List.append_assoc, List.drop_left, List.drop_left]
    rw [Bool.and_eq_true, decide_eq_true_iff, List.isPrefixOf_iff_prefix, ← hbelow,
      List.append_assoc]
    exact ⟨hslashes, below ++ [name], rfl⟩
  · cases hinside

/-- A name in an accessible tree is not too long. -/
theorem short_of_accessible {entries : List (String × Item)}
    (hentries : allAccessible entries = true) {name : String} (hname : name ∈ entries.map (·.1)) :
    name.utf8ByteSize ≤ nameLimit := by
  induction entries with
  | nil => cases hname
  | cons entry others ih =>
    rw [allAccessible, Bool.and_eq_true, Bool.and_eq_true, decide_eq_true_iff] at hentries
    rcases List.mem_cons.mp hname with rfl | hothers
    · exact hentries.1
    · exact ih hentries.2.2 hothers

/-- What is listed in a directory stands at a place, below which a path is followed on. -/
theorem exists_entries_of_lists {d : Disk} {directory : Path} {name : String}
    (hlists : d.fileSystem.Lists directory name) : ∃ steps place entries access,
      d.inside? directory = some steps ∧ follow d.root linkLimit [] steps = .ok place ∧
        d.root.at? place = some (.directory entries access) ∧ name ∈ entries.map (·.1) := by
  obtain ⟨names, hnames, hname⟩ := hlists
  change d.names directory = .ok names at hnames
  unfold Disk.names Disk.lookup Disk.locate at hnames
  cases hinside : d.inside? directory with
  | none => simp [hinside, bind, Except.bind] at hnames
  | some steps =>
    cases hfollow : follow d.root linkLimit [] steps with
    | error trouble => simp [hinside, hfollow, bind, Except.bind] at hnames
    | ok place =>
      cases hitem : d.root.at? place with
      | none => simp [hinside, hfollow, hitem, bind, Except.bind] at hnames
      | some item =>
        cases item with
        | file octets access => simp [hinside, hfollow, hitem, bind, Except.bind] at hnames
        | link target => simp [hinside, hfollow, hitem, bind, Except.bind] at hnames
        | directory entries access =>
          simp only [hinside, hfollow, hitem, bind, Except.bind] at hnames
          split at hnames
          · rw [← Except.ok.inj hnames] at hname
            exact ⟨steps, place, entries, access, rfl, hfollow, hitem, hname⟩
          · cases hnames

/-- Of every entry that an accessible disk lists it can be told whether it is a directory. -/
theorem told_of_accessible {d : Disk} (hroot : d.root.accessible = true) {directory : Path}
    {name : String} (hlists : d.fileSystem.Lists directory name) (trouble : Trouble) :
    d.isDirectory (directory.into [name]) ≠ .error trouble := by
  obtain ⟨steps, place, entries, access, hinside, hfollow, hitem, hname⟩ :=
    exists_entries_of_lists hlists
  have hopen := accessible_at hroot hitem
  rw [Item.accessible, Bool.and_eq_true] at hopen
  have hshort := short_of_accessible hopen.2 hname
  obtain ⟨m, hmore⟩ := exists_follow_append hfollow
  intro htrouble
  unfold Disk.isDirectory Disk.lookup Disk.locate at htrouble
  simp only [inside_into hinside, hmore] at htrouble
  cases hentry : follow d.root m place [name] with
  | error other =>
    have habsence := isAbsence_of_follow hroot (by simpa using hshort) hentry
    simp [hentry, bind, Except.bind, habsence] at htrouble
  | ok found =>
    simp only [hentry, bind, Except.bind] at htrouble
    cases hfound : d.root.at? found with
    | none => simp [hfound, Trouble.isAbsence] at htrouble
    | some item => cases item <;> simp [hfound] at htrouble

end Files

end CodeSearch

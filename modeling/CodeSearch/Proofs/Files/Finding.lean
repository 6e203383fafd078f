import Mathlib.Data.List.Sort
import Mathlib.Data.String.Basic
import CodeSearch.Proofs.Files.Listed

/-!
What a walk finds.

A walk goes into one directory after the other and knows nothing of where links lead, so what it comes
to is said step by step: the directories on the way to an entry, each of which is listed and has the next
step in it (`Reached`). Of every entry that it comes to it asks whether it is a directory. If that can
always be told, the walk finds all files that it is to find (`Indexable`). If not, it is stopped at the
first entry of which it cannot be told, in the order of the steps, and has come upon the files before
that entry only (`files_of_walk`).

The names of a directory are sorted, so whatever is below one of them comes before whatever is below the
next; what a walk tells of a directory is put together from what it tells of its entries, in this order
(`Tells.along`).
-/
set_option autoImplicit false

namespace CodeSearch

namespace Files

open CodeSearch.Tree (Language)

/-- A walk from a directory comes to an entry with a name, below the directories between. -/
structure FileSystem.Reached (s : FileSystem) (limits : WalkLimits) (start : Path)
    (between : List String) (name : String) : Prop where
  /-- The start and every directory between can be listed, and have the next step in them. -/
  listed : ∀ above step below, between ++ [name] = above ++ step :: below →
    s.Lists (start.into above) step
  /-- What lies between are directories, and none of them has a name that is not entered. -/
  entered : ∀ above step below, between = above ++ step :: below →
    s.isDirectory (start.into (above ++ [step])) = .ok true ∧ step ∉ limits.skip

/-- What a walk from a directory is to find: a file with a name, below the directories between. -/
structure FileSystem.Indexable (s : FileSystem) (limits : WalkLimits) (start : Path)
    (between : List String) (name : String) : Prop extends
    s.Reached limits start between name where
  leaf : s.isDirectory (start.into (between ++ [name])) = .ok false
  ending : Text.lower (Path.endingOf name) ∈ Language.endings.map (·.1)
  small : ∃ size : Nat, s.size (start.into (between ++ [name])) = .ok size ∧ (size : Int) ≤ limits.size

section Ways

variable {s : FileSystem} {limits : WalkLimits} {start : Path} {between : List String}
  {step name : String}

theorem isSource_into (start : Path) (name : String) :
    isSource (start.into [name]) = true ↔
      Text.lower (Path.endingOf name) ∈ Language.endings.map (·.1) := by
  rw [isSource, Path.name, Path.into, List.getLast?_concat, Option.getD_some, Language.ofEnding?]
  simp

theorem fits_iff {p : Path} :
    s.fits limits p = true ↔ ∃ size : Nat, s.size p = .ok size ∧ (size : Int) ≤ limits.size := by
  unfold FileSystem.fits
  cases s.size p with
  | error trouble => simp
  | ok size => simp

/-- An entry of the directory itself. -/
theorem reached_nil : s.Reached limits start [] name ↔ s.Lists start name := by
  constructor
  · intro h
    have hlisted := h.listed [] name [] rfl
    rwa [Path.into_nil] at hlisted
  · intro hlisted
    refine ⟨?_, ?_⟩
    · intro above next below heq
      obtain ⟨rfl, rfl, rfl⟩ : above = [] ∧ next = name ∧ below = [] := by
        cases above with
        | nil => simpa [eq_comm] using heq
        | cons first above => simp at heq
      rwa [Path.into_nil]
    · intro above next below heq
      simp at heq

/-- An entry below the first directory of its way. -/
theorem reached_cons : s.Reached limits start (step :: between) name ↔
    s.Lists start step ∧ s.isDirectory (start.into [step]) = .ok true ∧ step ∉ limits.skip ∧
      s.Reached limits (start.into [step]) between name := by
  constructor
  · intro h
    have hlisted := h.listed [] step (between ++ [name]) rfl
    obtain ⟨hdirectory, hskip⟩ := h.entered [] step between rfl
    rw [Path.into_nil] at hlisted
    refine ⟨hlisted, hdirectory, hskip, ?_, ?_⟩
    · intro above next below heq
      rw [Path.into_into]
      exact h.listed (step :: above) next below (by rw [List.cons_append, heq, List.cons_append])
    · intro above next below heq
      rw [Path.into_into]
      exact h.entered (step :: above) next below (by rw [heq, List.cons_append])
  · rintro ⟨hlisted, hdirectory, hskip, hbelow⟩
    -- the first step of the way is the one from the start, all others are below it
    refine ⟨?_, ?_⟩
    · intro above next below heq
      cases above with
      | nil =>
        obtain ⟨rfl, -⟩ := List.cons.inj heq
        rwa [Path.into_nil]
      | cons first above =>
        obtain ⟨rfl, hrest⟩ := List.cons.inj heq
        have hnext := hbelow.listed above next below hrest
        rwa [Path.into_into] at hnext
    · intro above next below heq
      cases above with
      | nil =>
        obtain ⟨rfl, -⟩ := List.cons.inj heq
        exact ⟨hdirectory, hskip⟩
      | cons first above =>
        obtain ⟨rfl, hrest⟩ := List.cons.inj heq
        have hnext := hbelow.entered above next below hrest
        rwa [Path.into_into] at hnext

/-- A file in the directory itself. -/
theorem indexable_nil : s.Indexable limits start [] name ↔
    s.Lists start name ∧ s.isDirectory (start.into [name]) = .ok false ∧
      isSource (start.into [name]) = true ∧ s.fits limits (start.into [name]) = true := by
  rw [isSource_into, fits_iff, ← reached_nil]
  constructor
  · exact fun h => ⟨h.toReached, h.leaf, h.ending, h.small⟩
  · exact fun ⟨hreached, hleaf, hending, hsmall⟩ => ⟨hreached, hleaf, hending, hsmall⟩

/-- A file below the first directory of its way. -/
theorem indexable_cons : s.Indexable limits start (step :: between) name ↔
    s.Lists start step ∧ s.isDirectory (start.into [step]) = .ok true ∧ step ∉ limits.skip ∧
      s.Indexable limits (start.into [step]) between name := by
  have hpath : (start.into [step]).into (between ++ [name]) =
      start.into (step :: between ++ [name]) := Path.into_into _ _ _
  constructor
  · intro h
    obtain ⟨hlisted, hdirectory, hskip, hbelow⟩ := reached_cons.mp h.toReached
    refine ⟨hlisted, hdirectory, hskip, hbelow, ?_, h.ending, ?_⟩
    · rw [hpath]
      exact h.leaf
    · rw [hpath]
      exact h.small
  · rintro ⟨hlisted, hdirectory, hskip, hbelow⟩
    refine ⟨reached_cons.mpr ⟨hlisted, hdirectory, hskip, hbelow.toReached⟩, ?_, hbelow.ending, ?_⟩
    · rw [← hpath]
      exact hbelow.leaf
    · rw [← hpath]
      exact hbelow.small

end Ways

/-- A directory with a link to itself, a link to a file, one that leads nowhere, and a directory that is
not entered. -/
def circle : Disk :=
  ⟨⟨1, []⟩, .directory [("b.py", .link ⟨0, ["a.js"]⟩), ("a.js", .file [0x78]), ("a", .link ⟨0, [".."]⟩),
    ("c.ts", .link ⟨0, ["gone"]⟩), ("dist", .directory [("d.js", .file [])]), ("e.md", .file [])]⟩

/-! ## What a walk tells -/

/-- What has come up, and how far: all files of some in the order of their steps, up to the first entry
of which it cannot be told whether it is a directory. -/
structure Walked.Tells (w : Walked) (isFile : Path → Prop) (isUntold : Disk.Obstacle → Prop) :
    Prop where
  mem_iff : ∀ p, .file p ∈ w.seen ↔ isFile p ∧ ∀ o, w.stopped? = some o → p.steps < o.path.steps
  sorted : w.files.Pairwise fun p q => p.steps < q.steps
  none_untold : w.stopped? = none → ∀ o, ¬ isUntold o
  first_untold : ∀ o, w.stopped? = some o →
    isUntold o ∧ ∀ other, isUntold other → o = other ∨ o.path.steps < other.path.steps

namespace Walked.Tells

variable {isFile : Path → Prop} {isUntold : Disk.Obstacle → Prop}

/-- Where there are no files, and whether an entry is a directory can be told. -/
theorem nothing {w : Walked} (hfiles : w.files = []) (hgoes : w.stopped? = none)
    (hnone : ∀ p, ¬ isFile p) (htold : ∀ o, ¬ isUntold o) : w.Tells isFile isUntold where
  mem_iff p := by
    rw [← mem_files_iff, hfiles]
    exact iff_of_false List.not_mem_nil fun h => hnone p h.1
  sorted := by rw [hfiles]; exact .nil
  none_untold _ := htold
  first_untold o ho := by rw [hgoes] at ho; cases ho

/-- The same of other files, if they are the same files. -/
theorem congr {w : Walked} {isFile' : Path → Prop} {isUntold' : Disk.Obstacle → Prop}
    (h : w.Tells isFile isUntold) (hfile : ∀ p, isFile p ↔ isFile' p)
    (huntold : ∀ o, isUntold o ↔ isUntold' o) : w.Tells isFile' isUntold' where
  mem_iff p := by rw [h.mem_iff, hfile]
  sorted := h.sorted
  none_untold hgoes o := by rw [← huntold]; exact h.none_untold hgoes o
  first_untold o ho := by
    obtain ⟨hthis, hfirst⟩ := h.first_untold o ho
    exact ⟨(huntold o).mp hthis, fun other hother => hfirst other ((huntold other).mpr hother)⟩

/-- What a walk that is stopped tells is not changed by what would come later. -/
theorem of_stopped {w : Walked} (h : w.Tells isFile isUntold) {obstacle : Disk.Obstacle}
    (hstopped : w.stopped? = some obstacle) {isFile' : Path → Prop}
    {isUntold' : Disk.Obstacle → Prop}
    (hfile : ∀ p, isFile' p → obstacle.path.steps < p.steps)
    (huntold : ∀ o, isUntold' o → obstacle.path.steps < o.path.steps) :
    w.Tells (fun p => isFile p ∨ isFile' p) (fun o => isUntold o ∨ isUntold' o) where
  mem_iff p := by
    rw [h.mem_iff]
    constructor
    · exact fun ⟨hp, hless⟩ => ⟨Or.inl hp, hless⟩
    · rintro ⟨hp | hp, hless⟩
      · exact ⟨hp, hless⟩
      · exact absurd (hless obstacle hstopped) (List.lt_asymm (hfile p hp))
  sorted := h.sorted
  none_untold hgoes := by
    rw [hstopped] at hgoes
    cases hgoes
  first_untold o ho := by
    obtain rfl : obstacle = o := Option.some.inj (hstopped.symm.trans ho)
    obtain ⟨hthis, hfirst⟩ := h.first_untold obstacle hstopped
    refine ⟨Or.inl hthis, ?_⟩
    rintro other (hother | hother)
    · exact hfirst other hother
    · exact Or.inr (huntold other hother)

/-- What two walks tell one after the other, if nothing stops the first one and all that it is about
comes before all that the second one is about. -/
theorem append {w w' : Walked} {isFile' : Path → Prop} {isUntold' : Disk.Obstacle → Prop}
    (h : w.Tells isFile isUntold) (hgoes : w.stopped? = none) (h' : w'.Tells isFile' isUntold')
    (hbefore : ∀ p, isFile p → (∀ q, isFile' q → p.steps < q.steps) ∧
      ∀ o, isUntold' o → p.steps < o.path.steps) :
    Walked.Tells { w' with seen := w.seen ++ w'.seen }
      (fun p => isFile p ∨ isFile' p) (fun o => isUntold o ∨ isUntold' o) := by
  have hall : ∀ p, .file p ∈ w.seen ↔ isFile p := by
    intro p
    rw [h.mem_iff, hgoes]
    simp
  refine ⟨?_, ?_, ?_, ?_⟩
  · intro p
    rw [List.mem_append, hall, h'.mem_iff]
    constructor
    · rintro (hp | ⟨hp, hless⟩)
      · exact ⟨Or.inl hp, fun o ho => (hbefore p hp).2 o (h'.first_untold o ho).1⟩
      · exact ⟨Or.inr hp, hless⟩
    · rintro ⟨hp | hp, hless⟩
      · exact Or.inl hp
      · exact Or.inr ⟨hp, hless⟩
  · show ((w.seen ++ w'.seen).filterMap _).Pairwise _
    rw [List.filterMap_append, List.pairwise_append]
    refine ⟨h.sorted, h'.sorted, ?_⟩
    intro p hp q hq
    exact (hbefore p ((hall p).mp (mem_files_iff.mp hp))).1 q
      ((h'.mem_iff q).mp (mem_files_iff.mp hq)).1
  · rintro hnone o (huntold | huntold)
    · exact h.none_untold hgoes o huntold
    · exact h'.none_untold hnone o huntold
  · intro o ho
    obtain ⟨hthis, hfirst⟩ := h'.first_untold o ho
    refine ⟨Or.inr hthis, ?_⟩
    rintro other (hother | hother)
    · exact absurd hother (h.none_untold hgoes other)
    · exact hfirst other hother

/-- What is told of one entry after the other is told of all of them, if whatever is below an entry
comes before whatever is below a later one. -/
theorem along {look : Path → Walked} {isFile : Path → Path → Prop}
    {isUntold : Path → Disk.Obstacle → Prop} {entries : List Path}
    (hlook : ∀ entry ∈ entries, (look entry).Tells (isFile entry) (isUntold entry))
    (hbefore : entries.Pairwise fun entry later => ∀ p q,
      (isFile entry p ∨ ∃ o, isUntold entry o ∧ o.path = p) →
        (isFile later q ∨ ∃ o, isUntold later o ∧ o.path = q) → p.steps < q.steps) :
    (Walked.along look entries).Tells (fun p => ∃ entry ∈ entries, isFile entry p)
      fun o => ∃ entry ∈ entries, isUntold entry o := by
  induction entries with
  | nil => exact nothing rfl rfl (by simp) (by simp)
  | cons entry rest ih =>
    obtain ⟨hhere, hrest⟩ := List.forall_mem_cons.mp hlook
    obtain ⟨hfirst, hlater⟩ := List.pairwise_cons.mp hbefore
    simp only [List.exists_mem_cons_iff]
    rw [Walked.along]
    dsimp only
    cases hstopped : (look entry).stopped? with
    | some obstacle =>
      have hthis := (hhere.first_untold obstacle hstopped).1
      rw [if_pos Option.isSome_some]
      refine hhere.of_stopped hstopped ?_ ?_
      · rintro p ⟨found, hfound, hp⟩
        exact hfirst found hfound obstacle.path p (Or.inr ⟨obstacle, hthis, rfl⟩) (Or.inl hp)
      · rintro o ⟨found, hfound, ho⟩
        exact hfirst found hfound obstacle.path o.path (Or.inr ⟨obstacle, hthis, rfl⟩)
          (Or.inr ⟨o, ho, rfl⟩)
    | none =>
      rw [if_neg (by simp)]
      refine hhere.append hstopped (ih hrest hlater) fun p hp => ⟨?_, ?_⟩
      · rintro q ⟨found, hfound, hq⟩
        exact hfirst found hfound p q (Or.inl hp) (Or.inl hq)
      · rintro o ⟨found, hfound, ho⟩
        exact hfirst found hfound p o.path (Or.inl hp) (Or.inr ⟨o, ho, rfl⟩)

/-- Nothing stops a walk exactly if of every entry it can be told whether it is a directory. -/
theorem stopped?_eq_none_iff {w : Walked} (h : w.Tells isFile isUntold) :
    w.stopped? = none ↔ ∀ o, ¬ isUntold o := by
  refine ⟨h.none_untold, fun htold => ?_⟩
  cases hstopped : w.stopped? with
  | none => rfl
  | some o => exact absurd (h.first_untold o hstopped).1 (htold o)

end Walked.Tells

/-! ## What a walk comes to -/

section Walk

variable {s : FileSystem} {limits : WalkLimits}

/-- A file that is to be found from a directory on, with so many directories between at most. -/
def FileSystem.IndexableWithin (s : FileSystem) (limits : WalkLimits) (depth : Int) (start p : Path) :
    Prop :=
  ∃ between name, p = start.into (between ++ [name]) ∧ depth + between.length ≤ limits.depth ∧
    s.Indexable limits start between name

/-- An entry that a walk comes to from a directory on, and of which it cannot be told whether it is a
directory. -/
def FileSystem.UntoldWithin (s : FileSystem) (limits : WalkLimits) (depth : Int) (start : Path)
    (o : Disk.Obstacle) : Prop :=
  ∃ between name, o.path = start.into (between ++ [name]) ∧ depth + between.length ≤ limits.depth ∧
    s.Reached limits start between name ∧ s.isDirectory o.path = .error o.trouble

/-- Names that are distinct are in strict order when they are sorted. -/
theorem pairwise_sorted {names : List String} (hnodup : names.Nodup) :
    (names.mergeSort fun a b => decide (a ≤ b)).Pairwise (· < ·) := by
  have hsorted : (names.mergeSort fun a b => decide (a ≤ b)).Pairwise (· ≤ ·) :=
    List.pairwise_mergeSort' (· ≤ ·) names
  have hdistinct : (names.mergeSort fun a b => decide (a ≤ b)).Nodup :=
    (List.mergeSort_perm _ _).nodup_iff.mpr hnodup
  exact (hsorted.and hdistinct).imp fun ⟨hle, hne⟩ => lt_of_le_of_ne hle hne

/-- Of two names in a directory, all that is below the smaller one comes first. -/
theorem into_lt_into (directory : Path) {a b : String} (hlt : a < b) (steps more : List String) :
    (directory.into (a :: steps)).steps < (directory.into (b :: more)).steps :=
  List.append_left_lt (List.cons_lt_cons_iff.mpr (Or.inl hlt))

/-- A file that is to be found at an entry: below it, if it is a directory that is entered, or the entry
itself. -/
def FileSystem.IndexableAt (s : FileSystem) (limits : WalkLimits) (depth : Int) (entry p : Path) :
    Prop :=
  (s.isDirectory entry = .ok true ∧ entry.name ∉ limits.skip ∧
      s.IndexableWithin limits (depth + 1) entry p) ∨
    (s.isDirectory entry = .ok false ∧ isSource entry = true ∧ s.fits limits entry = true ∧ p = entry)

/-- Something that cannot be told at an entry: below it, or of the entry itself. -/
def FileSystem.UntoldAt (s : FileSystem) (limits : WalkLimits) (depth : Int) (entry : Path)
    (o : Disk.Obstacle) : Prop :=
  (s.isDirectory entry = .ok true ∧ entry.name ∉ limits.skip ∧
      s.UntoldWithin limits (depth + 1) entry o) ∨
    (s.isDirectory entry = .error o.trouble ∧ o.path = entry)

theorem name_into (directory : Path) (name : String) : (directory.into [name]).name = name := by
  rw [Path.name, Path.into, List.getLast?_concat, Option.getD_some]

section Entries

variable {depth : Int} {directory : Path} {names : List String}

theorem lists_iff (hnames : s.names directory = .ok names) (name : String) :
    s.Lists directory name ↔ name ∈ names := by
  rw [FileSystem.Lists, hnames]
  simp

theorem indexableWithin_iff (hdepth : depth ≤ limits.depth) (hnames : s.names directory = .ok names)
    (p : Path) : s.IndexableWithin limits depth directory p ↔
      ∃ name ∈ names, s.IndexableAt limits depth (directory.into [name]) p := by
  unfold FileSystem.IndexableAt
  simp only [name_into, ← lists_iff hnames]
  constructor
  · rintro ⟨between, name, rfl, hless, hindexable⟩
    cases between with
    | nil =>
      obtain ⟨hlisted, hleaf, hsource, hfits⟩ := indexable_nil.mp hindexable
      exact ⟨name, hlisted, Or.inr ⟨hleaf, hsource, hfits, rfl⟩⟩
    | cons step between =>
      obtain ⟨hlisted, hdirectory, hskip, hbelow⟩ := indexable_cons.mp hindexable
      rw [List.length_cons] at hless
      push_cast at hless
      refine ⟨step, hlisted, Or.inl ⟨hdirectory, hskip, between, name, ?_, by omega, hbelow⟩⟩
      rw [Path.into_into, List.singleton_append, List.cons_append]
  · rintro ⟨step, hlisted, ⟨hdirectory, hskip, between, name, rfl, hless, hbelow⟩ |
      ⟨hleaf, hsource, hfits, rfl⟩⟩
    · refine ⟨step :: between, name, Path.into_into _ _ _, ?_,
        indexable_cons.mpr ⟨hlisted, hdirectory, hskip, hbelow⟩⟩
      rw [List.length_cons]
      push_cast
      omega
    · refine ⟨[], step, rfl, ?_, indexable_nil.mpr ⟨hlisted, hleaf, hsource, hfits⟩⟩
      rw [List.length_nil]
      push_cast
      omega

theorem untoldWithin_iff (hdepth : depth ≤ limits.depth) (hnames : s.names directory = .ok names)
    (o : Disk.Obstacle) : s.UntoldWithin limits depth directory o ↔
      ∃ name ∈ names, s.UntoldAt limits depth (directory.into [name]) o := by
  unfold FileSystem.UntoldAt
  simp only [name_into, ← lists_iff hnames]
  constructor
  · rintro ⟨between, name, hpath, hless, hreached, htrouble⟩
    cases between with
    | nil =>
      rw [hpath] at htrouble
      exact ⟨name, reached_nil.mp hreached, Or.inr ⟨htrouble, hpath⟩⟩
    | cons step between =>
      obtain ⟨hlisted, hdirectory, hskip, hbelow⟩ := reached_cons.mp hreached
      rw [List.length_cons] at hless
      push_cast at hless
      refine ⟨step, hlisted,
        Or.inl ⟨hdirectory, hskip, between, name, ?_, by omega, hbelow, htrouble⟩⟩
      rw [hpath, Path.into_into, List.singleton_append, List.cons_append]
  · rintro ⟨step, hlisted, ⟨hdirectory, hskip, between, name, hpath, hless, hbelow, htrouble⟩ |
      ⟨htrouble, hpath⟩⟩
    · refine ⟨step :: between, name, hpath.trans (Path.into_into _ _ _), ?_,
        reached_cons.mpr ⟨hlisted, hdirectory, hskip, hbelow⟩, htrouble⟩
      rw [List.length_cons]
      push_cast
      omega
    · refine ⟨[], step, hpath, ?_, reached_nil.mpr hlisted, hpath ▸ htrouble⟩
      rw [List.length_nil]
      push_cast
      omega

/-- All that is at an entry has a way that begins with its name. -/
theorem exists_into {name : String} {p : Path}
    (h : s.IndexableAt limits depth (directory.into [name]) p ∨
      ∃ o, s.UntoldAt limits depth (directory.into [name]) o ∧ o.path = p) :
    ∃ steps, p = directory.into (name :: steps) := by
  rcases h with (⟨-, -, between, last, rfl, -⟩ | ⟨-, -, -, rfl⟩) |
    ⟨o, ⟨-, -, between, last, hpath, -⟩ | ⟨-, hpath⟩, rfl⟩
  · exact ⟨between ++ [last], Path.into_into _ _ _⟩
  · exact ⟨[], rfl⟩
  · exact ⟨between ++ [last], hpath.trans (Path.into_into _ _ _)⟩
  · exact ⟨[], hpath⟩

end Entries

/-- What a walk tells of an entry, if it tells of all that is below. -/
theorem tells_lookAt {depth : Int} {entry : Path}
    (hbelow : (s.walkFrom limits (depth + 1) entry).Tells (s.IndexableWithin limits (depth + 1) entry)
      (s.UntoldWithin limits (depth + 1) entry)) :
    (s.lookAt limits (fun entry => s.walkFrom limits (depth + 1) entry) entry).Tells
      (s.IndexableAt limits depth entry) (s.UntoldAt limits depth entry) := by
  unfold FileSystem.lookAt FileSystem.IndexableAt FileSystem.UntoldAt
  cases hdirectory : s.isDirectory entry with
  | error trouble =>
    refine ⟨by simp, .nil, by simp, ?_⟩
    intro o ho
    obtain rfl := Option.some.inj ho
    refine ⟨Or.inr ⟨rfl, rfl⟩, ?_⟩
    rintro ⟨trouble', path⟩ (⟨habsurd, -⟩ | ⟨htrouble, rfl⟩)
    · cases habsurd
    · obtain rfl := Except.error.inj htrouble
      exact Or.inl rfl
  | ok isDirectory =>
    cases isDirectory with
    | true =>
      dsimp only
      by_cases hskip : entry.name ∈ limits.skip
      · rw [if_pos (by simpa using hskip)]
        exact .nothing rfl rfl (by simp [hskip]) (by simp [hskip])
      · rw [if_neg (by simpa using hskip)]
        exact hbelow.congr (by simp [hskip]) (by simp [hskip])
    | false =>
      dsimp only
      by_cases hfile : (isSource entry && s.fits limits entry) = true
      · rw [if_pos hfile]
        rw [Bool.and_eq_true] at hfile
        refine ⟨?_, List.pairwise_singleton _ _, by simp, by simp⟩
        intro p
        simp [hfile.1, hfile.2]
      · rw [if_neg hfile]
        refine .nothing rfl rfl ?_ (by simp)
        rintro p (⟨habsurd, -⟩ | ⟨-, hsource, hfits, -⟩)
        · cases habsurd
        · exact hfile (by rw [hsource, hfits]; rfl)

/-- What a walk tells of a directory at some depth. -/
theorem tells_walkFrom (hdistinct : s.Distinct) (depth : Int) (directory : Path) :
    (s.walkFrom limits depth directory).Tells (s.IndexableWithin limits depth directory)
      (s.UntoldWithin limits depth directory) := by
  induction depth, directory using FileSystem.walkFrom.induct s limits with
  | case1 depth directory hdeep =>
    rw [FileSystem.walkFrom, if_pos hdeep]
    refine .nothing rfl rfl ?_ ?_
    · rintro p ⟨between, name, -, hless, -⟩
      omega
    · rintro o ⟨between, name, -, hless, -⟩
      omega
  | case2 depth directory hdepth trouble hnames =>
    rw [FileSystem.walkFrom, if_neg hdepth, hnames]
    -- the first step of a way would be listed
    have hunlisted : ∀ between name, ¬ s.Reached limits directory between name := by
      intro between name hreached
      obtain ⟨step, rest, hsteps⟩ := List.exists_cons_of_ne_nil (l := between ++ [name]) (by simp)
      obtain ⟨names, hlisted, -⟩ := hreached.listed [] step rest hsteps
      rw [Path.into_nil, hnames] at hlisted
      cases hlisted
    refine .nothing rfl rfl ?_ ?_
    · rintro p ⟨between, name, -, -, hindexable⟩
      exact hunlisted between name hindexable.toReached
    · rintro o ⟨between, name, -, -, hreached, -⟩
      exact hunlisted between name hreached
  | case3 depth directory hdepth names hnames ih =>
    rw [FileSystem.walkFrom, if_neg hdepth, hnames]
    let entries := (names.mergeSort fun a b => decide (a ≤ b)).map (entryPath directory)
    have hlook : ∀ entry ∈ entries,
        (s.lookAt limits (fun entry => s.walkFrom limits (depth + 1) entry) entry).Tells
          (s.IndexableAt limits depth entry) (s.UntoldAt limits depth entry) :=
      fun entry _ => tells_lookAt (ih entry)
    refine (Walked.Tells.along hlook ?_).congr ?_ ?_
    · rw [List.pairwise_map]
      refine (pairwise_sorted (hdistinct directory names hnames)).imp fun {a b} hlt => ?_
      intro p q hp hq
      obtain ⟨steps, rfl⟩ := exists_into hp
      obtain ⟨more, rfl⟩ := exists_into hq
      exact into_lt_into directory hlt steps more
    · intro p
      rw [indexableWithin_iff (by omega) hnames]
      simp [entries, entryPath_eq_into]
    · intro o
      rw [untoldWithin_iff (by omega) hnames]
      simp [entries, entryPath_eq_into]

end Walk

/-- A walk of such a disk is not stopped, wherever it starts. -/
theorem stopped?_of_accessible {d : Disk} (hdistinct : d.root.distinct = true)
    (hroot : d.root.accessible = true) (limits : WalkLimits) (start : Path) :
    (walk d limits start).stopped? = none := by
  refine (tells_walkFrom (Disk.distinct_fileSystem hdistinct) 0 start).stopped?_eq_none_iff.mpr ?_
  rintro o ⟨between, name, hpath, -, hreached, htrouble⟩
  have hlists := hreached.listed between name [] rfl
  rw [hpath, ← Path.into_into] at htrouble
  exact told_of_accessible hroot hlists o.trouble htrouble

/-! ## The files of a walk -/

/-- A walk ends. It comes to all files there are with at most so many directories between the start and
them that can all be listed and entered, that are no directories, have the ending of a language, and
are small enough: in strict order of their steps, so none comes twice. This holds if of every entry that
it comes to it can be told whether it is a directory. Otherwise the walk is stopped at the first such
entry, with the reason for it, and has come to the files before that entry alone. Nothing is assumed of
where the links lead. -/
theorem files_of_walk (s : FileSystem) (hdistinct : s.Distinct) (limits : WalkLimits) (start : Path) :
    let walked := s.walk limits start
    walked.files.Pairwise (fun p q => p.steps < q.steps) ∧ walked.files.Nodup ∧
      (walked.stopped? = none ↔ ∀ o, ¬ s.UntoldWithin limits 0 start o) ∧
      (walked.stopped? = none → ∀ p, p ∈ walked.files ↔ s.IndexableWithin limits 0 start p) ∧
      ∀ o, walked.stopped? = some o → s.UntoldWithin limits 0 start o ∧
        (∀ other, s.UntoldWithin limits 0 start other → o = other ∨ o.path.steps < other.path.steps) ∧
        ∀ p, p ∈ walked.files ↔ s.IndexableWithin limits 0 start p ∧ p.steps < o.path.steps := by
  intro walked
  have htells : walked.Tells (s.IndexableWithin limits 0 start) (s.UntoldWithin limits 0 start) :=
    tells_walkFrom hdistinct 0 start
  refine ⟨htells.sorted, ?_, htells.stopped?_eq_none_iff, ?_, ?_⟩
  · refine htells.sorted.imp fun {p q} hlt heq => ?_
    rw [heq] at hlt
    exact List.lt_irrefl _ hlt
  · intro hgoes p
    rw [mem_files_iff, htells.mem_iff, hgoes]
    simp
  · intro o hstopped
    obtain ⟨huntold, hfirst⟩ := htells.first_untold o hstopped
    refine ⟨huntold, hfirst, fun p => ?_⟩
    rw [mem_files_iff, htells.mem_iff, hstopped]
    simp

/-- Two rounds through the circle a file is found again, and three rounds are too many. -/
theorem files_of_walk_circle : circle.fileSystem.Distinct ∧
    (circle.fileSystem.walk ⟨2, 1, ["dist"]⟩ ⟨1, []⟩).stopped? = none ∧
    (⟨1, ["a", "a", "b.py"]⟩ : Path) ∈ (circle.fileSystem.walk ⟨2, 1, ["dist"]⟩ ⟨1, []⟩).files ∧
    (⟨1, ["a", "a", "a", "b.py"]⟩ : Path) ∉
      (circle.fileSystem.walk ⟨2, 1, ["dist"]⟩ ⟨1, []⟩).files := by
  have hroot : circle.root.distinct = true := by decide +kernel
  have hgoes := stopped?_of_accessible hroot (by decide +kernel) ⟨2, 1, ["dist"]⟩ ⟨1, []⟩
  obtain ⟨-, -, -, hfiles, -⟩ :=
    files_of_walk circle.fileSystem (Disk.distinct_fileSystem hroot) ⟨2, 1, ["dist"]⟩ ⟨1, []⟩
  specialize hfiles hgoes
  refine ⟨Disk.distinct_fileSystem hroot, hgoes,
    (hfiles _).mpr ⟨["a", "a"], "b.py", rfl, by decide, ?_⟩, fun hmem => ?_⟩
  · rw [indexable_cons, indexable_cons, indexable_nil]
    exact ⟨⟨_, rfl, by decide⟩, rfl, by decide, ⟨_, rfl, by decide⟩, rfl,
      by decide, ⟨_, rfl, by decide⟩, rfl, by decide +kernel, by decide +kernel⟩
  · obtain ⟨between, name, heq, hdepth, -⟩ := (hfiles _).mp hmem
    have hsteps : ["a", "a", "a", "b.py"] = between ++ [name] := congrArg Path.steps heq
    have hlength := congrArg List.length hsteps
    simp at hlength hdepth
    omega

/-- A name that no system takes. -/
def endless : String := String.ofList (List.replicate 300 'x')

/-- A link to such a name beside a file, and a directory that can be listed but not searched. -/
def stumbling : Disk :=
  ⟨⟨1, []⟩, .directory [("l.js", .link ⟨0, [endless]⟩), ("a.js", .file []),
    ("closed", .directory [("b.js", .file [])] { search := false })]⟩

/-- Next to the link, and in the directory, a walk is stopped: where the link leads cannot be told, and
what stands in the directory cannot be told either. The file beside the link is one to be found. -/
theorem stopped_of_walk_stumbling : stumbling.fileSystem.Distinct ∧
    stumbling.fileSystem.IndexableWithin ⟨10, 100000, []⟩ 0 ⟨1, []⟩ ⟨1, ["a.js"]⟩ ∧
    (stumbling.fileSystem.walk ⟨10, 100000, []⟩ ⟨1, []⟩).stopped? ≠ none ∧
    (stumbling.fileSystem.walk ⟨10, 100000, []⟩ ⟨1, ["closed"]⟩).stopped? ≠ none := by
  have hdistinct : stumbling.fileSystem.Distinct := Disk.distinct_fileSystem (by decide +kernel)
  refine ⟨hdistinct, ⟨[], "a.js", rfl, by decide, ?_⟩, fun hgoes => ?_, fun hgoes => ?_⟩
  · rw [indexable_nil]
    exact ⟨⟨_, rfl, by decide⟩, rfl, by decide +kernel, by decide +kernel⟩
  · refine (tells_walkFrom hdistinct 0 ⟨1, []⟩).none_untold hgoes ⟨.nameTooLong, ⟨1, ["l.js"]⟩⟩
      ⟨[], "l.js", rfl, by decide, reached_nil.mpr ⟨_, rfl, by decide⟩, ?_⟩
    decide +kernel
  · exact (tells_walkFrom hdistinct 0 ⟨1, ["closed"]⟩).none_untold hgoes
      ⟨.denied, ⟨1, ["closed", "b.js"]⟩⟩
      ⟨[], "b.js", rfl, by decide, reached_nil.mpr ⟨_, rfl, by decide⟩, rfl⟩

end Files

end CodeSearch

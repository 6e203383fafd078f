import CodeSearch.Files.Reading
import CodeSearch.Proofs.Files.Listed

/-!
What one file contributes.

Whether a file is in a language is asked twice: the walk looks at the name of the file, and the
parsers look at the text of its path. A name on a disk has no slash in it, so the last step of that
text is the name again, and the two agree (`exists_language_of_mem_walk`). What is left is decided by
the text of the file, by whether the package of its language can be loaded, and by the tree of the
text (`Contributes`).
-/
set_option autoImplicit false

namespace CodeSearch

namespace Path

/-! ## Cutting at slashes -/

/-- A text is cut at a slash in it. -/
theorem foldr_cutStep_slash (cs ds : List Char) :
    (cs ++ '/' :: ds).foldr cutStep ([], []) =
      ((cs.foldr cutStep ([], [])).1, (cs.foldr cutStep ([], [])).2 ++
        (ds.foldr cutStep ([], [])).1 :: (ds.foldr cutStep ([], [])).2) := by
  induction cs with
  | nil => rw [List.nil_append, List.foldr_cons, cutStep, if_pos rfl]; rfl
  | cons c cs ih =>
    rw [List.cons_append, List.foldr_cons, List.foldr_cons, ih]
    by_cases hc : c = '/'
    · simp [cutStep, hc]
    · simp [cutStep, hc]

/-- A text without slashes is not cut. -/
theorem foldr_cutStep_plain {cs : List Char} (hplain : '/' ∉ cs) :
    cs.foldr cutStep ([], []) = (cs, []) := by
  induction cs with
  | nil => rfl
  | cons c cs ih =>
    have hc : c ≠ '/' := (List.ne_of_not_mem_cons hplain).symm
    rw [List.foldr_cons, ih (List.not_mem_of_not_mem_cons hplain), cutStep, if_neg hc]

theorem stepsOf_slash (cs ds : List Char) : stepsOf (cs ++ '/' :: ds) = stepsOf cs ++ stepsOf ds := by
  unfold stepsOf
  simp only [foldr_cutStep_slash]
  rw [← List.filter_append, ← List.map_append, List.cons_append]

/-- The ending of a name that is empty or a point is empty. -/
theorem ne_of_endingOf {name : String} (hending : endingOf name ≠ "") : name ≠ "" ∧ name ≠ "." := by
  constructor
  · rintro rfl
    exact hending (by decide)
  · rintro rfl
    exact hending (by decide)

theorem stepsOf_name {name : String} (hplain : '/' ∉ name.toList) (hending : endingOf name ≠ "") :
    stepsOf name.toList = [name] := by
  unfold stepsOf
  simp [foldr_cutStep_plain hplain, ne_of_endingOf hending]

theorem text_of_relative {below : List String} {name : String} (hbelow : below ≠ []) :
    (⟨0, below ++ [name]⟩ : Path).text.toList = ("/".intercalate below).toList ++ '/' :: name.toList := by
  unfold text
  simp [String.intercalate_append_of_ne_nil hbelow]

/-- The ending of a path is that of its last step, if that is a name. -/
theorem ending_text {below : List String} {name : String} (hplain : '/' ∉ name.toList)
    (hending : endingOf name ≠ "") : ending (⟨0, below ++ [name]⟩ : Path).text = endingOf name := by
  have hsteps : ∃ front, (ofString (⟨0, below ++ [name]⟩ : Path).text).steps = front ++ [name] := by
    by_cases hbelow : below = []
    · refine ⟨[], ?_⟩
      subst hbelow
      have htext : (⟨0, [] ++ [name]⟩ : Path).text = name := by simp [text]
      rw [htext, ofString, stepsOf_name hplain hending, List.nil_append]
    · refine ⟨stepsOf ("/".intercalate below).toList, ?_⟩
      rw [ofString, text_of_relative hbelow, stepsOf_slash, stepsOf_name hplain hending]
  obtain ⟨front, hfront⟩ := hsteps
  rw [ending, Path.name, hfront, List.getLast?_concat, Option.getD_some]

end Path

namespace Files

open CodeSearch.Text (Source)
open CodeSearch.Tree (Parsers Skipped Language LoadFailure)

/-! ## The files of a walk -/

/-- A disk with names that are single steps: no slash stands in one. -/
def Disk.Plain (d : Disk) : Prop :=
  ∀ p names, d.names p = .ok names → ∀ name ∈ names, '/' ∉ name.toList

/-- Below files there are no directories. -/
theorem entryAt?_of_files {entries inner : List (String × Item)} {access : Access} {step : String}
    {rest : List String} (hfiles : ∀ entry ∈ entries, ∃ octets access, entry.2 = .file octets access) :
    entryAt? entries step rest ≠ some (.directory inner access) := by
  induction entries with
  | nil => simp [entryAt?]
  | cons entry others ih =>
    obtain ⟨name, item⟩ := entry
    obtain ⟨⟨octets, access, hitem⟩, hothers⟩ := List.forall_mem_cons.mp hfiles
    obtain rfl : item = .file octets access := hitem
    rw [entryAt?]
    split
    · cases rest with
      | nil => simp [Item.at?]
      | cons step rest => simp [Item.at?]
    · exact ih hothers

/-- A disk that is one directory of files. -/
theorem Disk.plain_of_files {base : Path} {entries : List (String × Item)} {access : Access}
    (hfiles : ∀ entry ∈ entries, ∃ octets access, entry.2 = .file octets access)
    (hnames : ∀ entry ∈ entries, '/' ∉ entry.1.toList) :
    Disk.Plain ⟨base, .directory entries access⟩ := by
  intro p names hlisted name hname
  obtain ⟨-, place, inner, access', -, -, hitem, hentry⟩ :=
    exists_entries_of_lists (d := ⟨base, .directory entries access⟩) ⟨names, hlisted, hname⟩
  obtain rfl : inner = entries := by
    cases place with
    | nil =>
      rw [Item.at?] at hitem
      exact (Item.directory.inj (Option.some.inj hitem)).1.symm
    | cons step rest =>
      rw [Item.at?] at hitem
      exact absurd hitem (entryAt?_of_files hfiles)
  obtain ⟨entry, hmem, rfl⟩ := List.mem_map.mp hentry
  exact hnames entry hmem

/-- A file below a directory, with a name that a language is told by. -/
def SourceBelow (start p : Path) : Prop :=
  ∃ below name, p = ⟨start.slashes, start.steps ++ (below ++ [name])⟩ ∧ '/' ∉ name.toList ∧
    (Language.ofEnding? (Path.endingOf name)).isSome = true

/-- What comes up along some entries comes up at one of them. -/
theorem exists_of_mem_along {look : Path → Walked} {entries : List Path} {sighting : Sighting}
    (h : sighting ∈ (Walked.along look entries).seen) :
    ∃ entry ∈ entries, sighting ∈ (look entry).seen := by
  induction entries with
  | nil => cases h
  | cons entry rest ih =>
    rw [Walked.along] at h
    dsimp only at h
    split at h
    · exact ⟨entry, List.mem_cons_self, h⟩
    · rcases List.mem_append.mp h with hhere | hbehind
      · exact ⟨entry, List.mem_cons_self, hhere⟩
      · obtain ⟨found, hfound, hthere⟩ := ih hbehind
        exact ⟨found, List.mem_cons_of_mem _ hfound, hthere⟩

theorem sourceBelow_of_mem_walkFrom {d : Disk} (hplain : d.Plain) (limits : WalkLimits) {p : Path}
    (depth : Int) (directory : Path)
    (hp : .file p ∈ (d.fileSystem.walkFrom limits depth directory).seen) :
    SourceBelow directory p := by
  induction depth, directory using FileSystem.walkFrom.induct d.fileSystem limits with
  | case1 depth directory hdeep => simp [FileSystem.walkFrom, hdeep] at hp
  | case2 depth directory hdepth trouble hnames =>
    simp [FileSystem.walkFrom, hdepth, hnames] at hp
  | case3 depth directory hdepth names hnames ih =>
    rw [FileSystem.walkFrom, if_neg hdepth, hnames] at hp
    obtain ⟨entry, hentry, hthere⟩ := exists_of_mem_along hp
    obtain ⟨name, hname, rfl⟩ := List.mem_map.mp hentry
    have hslash : '/' ∉ name.toList :=
      hplain directory names hnames name ((List.mergeSort_perm _ _).mem_iff.mp hname)
    unfold FileSystem.lookAt at hthere
    split at hthere
    · cases hthere
    · split at hthere
      · cases hthere
      · -- a file of a directory below is one step further down
        obtain ⟨below, last, rfl, hlast, hlanguage⟩ := ih (entryPath directory name) hthere
        refine ⟨name :: below, last, ?_, hlast, hlanguage⟩
        rw [entryPath, List.append_assoc, List.singleton_append, List.cons_append]
    · split at hthere
      · rename_i hsource
        obtain rfl : p = entryPath directory name := by simpa using hthere
        rw [Bool.and_eq_true, isSource, Path.name, entryPath, List.getLast?_concat] at hsource
        exact ⟨[], name, rfl, hslash, hsource.1⟩
      · cases hthere

/-- A file with a name that a language is told by has a path that it is told by too. -/
theorem SourceBelow.exists_language {root p : Path} (h : SourceBelow root p) :
    ∃ language, Language.ofPath? (relativeText root p) = some language := by
  obtain ⟨below, name, rfl, hslash, hlanguage⟩ := h
  have hending : Path.endingOf name ≠ "" := by
    intro hempty
    rw [hempty] at hlanguage
    exact absurd hlanguage (by decide)
  rw [← Option.isSome_iff_exists, relativeText, List.drop_left, Language.ofPath?,
    Path.ending_text hslash hending]
  exact hlanguage

/-- Every file that a walk comes upon is in a language, by the path that it is known by. -/
theorem exists_language_of_mem_walk {d : Disk} (hplain : d.Plain) (limits : WalkLimits)
    {root p : Path} (hp : p ∈ (walk d limits root).files) :
    ∃ language, Language.ofPath? (relativeText root p) = some language :=
  (sourceBelow_of_mem_walkFrom hplain limits 0 root (mem_files_iff.mp hp)).exists_language

/-! ## One file -/

/-- What a file comes to: by its path below the directory, its text or what keeps it from being read,
whether the package of its language can be loaded, and the tree of the text. -/
inductive Contributes (parsers : Parsers) (radius : Int) (name : String) :
    Except String (List Char) → Except Skipped (List Chunk) → Prop where
  | unreadable (trouble : String) :
    Contributes parsers radius name (.error trouble) (.error ⟨name, "unreadable: " ++ trouble⟩)
  | unavailable (text : List Char) (language : Language) (failure : LoadFailure)
      (hlanguage : Language.ofPath? name = some language)
      (hfailure : parsers.failure? language.package = some failure)
      (hexpected : failure.isExpected = true) :
    Contributes parsers radius name (.ok text) (.error ⟨name, Tree.unavailable language failure⟩)
  | malformed (text : List Char) (language : Language)
      (hlanguage : Language.ofPath? name = some language)
      (hloaded : parsers.failure? language.package = none)
      (hmarked : (parsers.tree language text).hasError = true) :
    Contributes parsers radius name (.ok text)
      (.error ⟨name, Tree.describeFault (.ofText text) (parsers.tree language text)⟩)
  | parsed (text : List Char) (language : Language)
      (hlanguage : Language.ofPath? name = some language)
      (hloaded : parsers.failure? language.package = none)
      (hsound : (parsers.tree language text).hasError = false) :
    Contributes parsers radius name (.ok text)
      (.ok (Chunk.ofParsed radius ⟨name, language, .ofText text, parsers.tree language text⟩))

/-- A package fails in a way that is not expected of one that is missing or does not fit. -/
def Unexpected (parsers : Parsers) (name : String) : Prop :=
  ∃ language failure, Language.ofPath? name = some language ∧
    parsers.failure? language.package = some failure ∧ failure.isExpected = false

/-- What a file in a language comes to is its contribution, and nothing keeps it from that but a
package that fails unexpectedly. -/
theorem fileOutcome_cases (d : Disk) (parsers : Parsers) (radius : Int) {root p : Path}
    {language : Language} (hlanguage : Language.ofPath? (relativeText root p) = some language) :
    (∃ o, fileOutcome d parsers radius root p = .ok o ∧
        Contributes parsers radius (relativeText root p) (readText d p) o) ∨
      (∃ fault, fileOutcome d parsers radius root p = .error fault) ∧
        Unexpected parsers (relativeText root p) := by
  unfold fileOutcome
  dsimp only
  cases hread : readText d p with
  | error trouble => exact Or.inl ⟨_, rfl, .unreadable trouble⟩
  | ok text =>
    dsimp only
    unfold Parsers.outcome Parsers.obstacle?
    rw [hlanguage]
    dsimp only
    cases hfailure : parsers.failure? language.package with
    | some failure =>
      dsimp only
      cases hexpected : failure.isExpected with
      | true =>
        exact Or.inl ⟨_, rfl, .unavailable text language failure hlanguage hfailure hexpected⟩
      | false =>
        exact Or.inr ⟨⟨_, rfl⟩, language, failure, hlanguage, hfailure, hexpected⟩
    | none =>
      cases hmarked : (parsers.tree language text).hasError with
      | true => exact Or.inl ⟨_, rfl, .malformed text language hlanguage hfailure hmarked⟩
      | false => exact Or.inl ⟨_, rfl, .parsed text language hlanguage hfailure hmarked⟩

/-- What a file comes to depends on its own path and text, on the package of its own language and on
the tree of its own text: on nothing else of the disk, of the parsers or of the directory. -/
theorem fileOutcome_of_same {d d' : Disk} {parsers parsers' : Parsers} {radius : Int}
    {root root' p p' : Path} (hname : relativeText root' p' = relativeText root p)
    (hcontent : readText d' p' = readText d p)
    (hpackage : ∀ language, Language.ofPath? (relativeText root p) = some language →
      parsers'.failure? language.package = parsers.failure? language.package)
    (htree : ∀ language text, Language.ofPath? (relativeText root p) = some language →
      readText d p = .ok text → parsers'.tree language text = parsers.tree language text) :
    fileOutcome d' parsers' radius root' p' = fileOutcome d parsers radius root p := by
  unfold fileOutcome
  rw [hname, hcontent]
  cases hread : readText d p with
  | error trouble => rfl
  | ok text =>
    dsimp only
    unfold Parsers.outcome Parsers.obstacle?
    cases hlanguage : Language.ofPath? (relativeText root p) with
    | none => rfl
    | some language =>
      dsimp only
      rw [hpackage language hlanguage, htree language text hlanguage hread]

/-- What a reason begins with tells it from the one for a name without a language. -/
theorem append_ne_unsupported {begins rest : String} (c : Char) (hc : c ∈ begins.toList.take 3)
    (hother : c ∉ ['u', 'n', 's']) : begins ++ rest ≠ "unsupported file extension" := by
  intro heq
  have htake : (begins.toList ++ rest.toList).take 3 = ['u', 'n', 's'] := by
    rw [← String.toList_append, heq]
    decide
  rw [← htake, List.take_append] at hother
  exact hother (List.mem_append_left _ hc)

namespace Contributes

variable {parsers : Parsers} {radius : Int} {name : String} {content : Except String (List Char)}
  {s : Skipped}

/-- A file that is skipped is named by its path. -/
theorem path_skipped (h : Contributes parsers radius name content (.error s)) : s.path = name := by
  cases h with
  | unreadable trouble => rfl
  | unavailable text language failure hlanguage hfailure hexpected => rfl
  | malformed text language hlanguage hloaded hmarked => rfl

/-- No file is skipped for its name: no reason that is given begins like that. -/
theorem reason_ne_unsupported (h : Contributes parsers radius name content (.error s)) :
    s.reason ≠ "unsupported file extension" := by
  cases h with
  | unreadable trouble => exact append_ne_unsupported 'r' (by decide) (by decide)
  | unavailable text language failure hlanguage hfailure hexpected =>
    unfold Tree.unavailable
    simp only [String.append_assoc]
    exact append_ne_unsupported 'g' (by decide) (by decide)
  | malformed text language hlanguage hloaded hmarked =>
    unfold Tree.describeFault
    split
    · unfold Tree.faultAt
      split
      · simp only [toString, String.append_assoc]
        exact append_ne_unsupported 'm' (by decide) (by decide)
      · simp only [toString, String.append_assoc]
        exact append_ne_unsupported 'y' (by decide) (by decide)
    · rw [← String.append_empty (s := "syntax error")]
      exact append_ne_unsupported 'y' (by decide) (by decide)

end Contributes

end Files

end CodeSearch

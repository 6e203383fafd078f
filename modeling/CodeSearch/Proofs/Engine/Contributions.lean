import CodeSearch.Proofs.Engine.Gathering
import CodeSearch.Proofs.Engine.Lengths
import CodeSearch.Proofs.Files.Contribution

/-!
What files contribute to an index.

While a build reads its files other builds and questions take their steps, and files are changed. A
file comes to what it contributes by the disk as it is when it is read (`Reads`), and reading it
depends on nothing else that has happened. So whatever the order of the steps, a build has made
exactly what the files of its walk came to, and publishes that. Main statement:
`contributions_in_walk_order`.
-/
set_option autoImplicit false

namespace CodeSearch.Engine

open CodeSearch.Files (Contributes Unexpected relativeText readText fileOutcome)
open CodeSearch.Index (Generation Event)

variable {σ : Type}

namespace Session

/-! ## Builds in a session -/

/-- What a file came to at some time since a walk: its contribution, by the disk as it was. -/
def Reads (e : Engine σ) (since later : List Action) (root p : Path) (o : FileOutcome) : Prop :=
  ∃ during, during <:+ later ∧
    let d := (after e (during ++ since)).engine.disk
    fileOutcome d e.parsers e.settings.contextRadius root p = .ok o ∧
      Contributes e.parsers e.settings.contextRadius (relativeText root p) (readText d p) o

/-- What reading a file comes to at some time, by its outcome then. -/
theorem readFile_after (e : Engine σ) (past : List Action) {root p : Path} {language : Tree.Language}
    (hlanguage : Tree.Language.ofPath? (relativeText root p) = some language) :
    (∀ r, ((after e past).engine.readFile root p).1 = .ok r →
        ∃ o, r = .ofOutcome o ∧
          fileOutcome (after e past).engine.disk e.parsers e.settings.contextRadius root p = .ok o ∧
            Contributes e.parsers e.settings.contextRadius (relativeText root p)
              (readText (after e past).engine.disk p) o) ∧
      ∀ fault, ((after e past).engine.readFile root p).1 = .error fault →
        Unexpected e.parsers (relativeText root p) := by
  have hparsers := (sameOutside_after e past).parsers
  have hsettings := (sameServices_after e past).settings
  rcases Files.fileOutcome_cases (after e past).engine.disk e.parsers e.settings.contextRadius
    hlanguage with ⟨o, hok, ho⟩ | ⟨⟨broken, hbroken⟩, hunexpected⟩
  · rw [readFile_eq, hparsers, hsettings, hok]
    exact ⟨fun r hr => ⟨o, (Except.ok.inj hr).symm, rfl, ho⟩, fun fault hfault => absurd hfault (by simp)⟩
  · rw [readFile_eq, hparsers, hsettings, hbroken]
    exact ⟨fun r hr => absurd hr (by simp), fun fault hfault => hunexpected⟩

theorem files_of_filesIn {e : Engine σ} {root : Path} {files : List Path}
    (h : e.filesIn root = .ok files) : files = (Files.walk e.disk e.walkLimits root).files := by
  unfold filesIn at h
  dsimp only at h
  split at h
  · simp at h
  · exact (Except.ok.inj h).symm

theorem exists_language_of_mem_filesIn {e : Engine σ} (hplain : e.disk.Plain) {root p : Path}
    {files : List Path} (hfiles : e.filesIn root = .ok files) (hp : p ∈ files) :
    ∃ language, Tree.Language.ofPath? (relativeText root p) = some language := by
  rw [files_of_filesIn hfiles] at hp
  exact Files.exists_language_of_mem_walk hplain _ hp

/-- Chunks that a file contributes have no vectors. -/
theorem bare_of_contributes {parsers : Tree.Parsers} {radius : Int} {name : String}
    {content : Except String (List Char)} {found : List Chunk}
    (h : Contributes parsers radius name content (.ok found)) : ∀ c ∈ found, c.bare = c := by
  cases h with
  | parsed text language hlanguage hloaded hsound =>
    intro c hc
    have hnone := Chunk.embedding_ofParsed radius _ c hc
    rw [Chunk.bare, ← hnone]

section Build

variable {e : Engine σ} {past : List Action}

theorem build_of_begin {path : String} {b : Build σ} {begun : Engine σ}
    (hbegin : (after e past).engine.begin path = .ok (b, begun)) :
    (after e (.index path :: past)).builds[(after e past).builds.length]? = some b := by
  rw [after, step, hbegin]
  exact List.getElem?_concat_length

/-- A build stays as it is until it takes a step. -/
theorem build_of_waiting {call : Nat} {b : Build σ} (hb : (after e past).builds[call]? = some b)
    {waiting : List Action} (hwaiting : ∀ place, .build call place ∉ waiting) :
    (after e (waiting ++ past)).builds[call]? = some b := by
  induction waiting with
  | nil => exact hb
  | cons a waiting ih =>
    have hbefore := ih fun place hmem => hwaiting place (List.mem_cons_of_mem a hmem)
    rcases build_next hbefore a with ⟨place, rfl, -⟩ | ⟨-, hsame⟩
    · exact absurd List.mem_cons_self (hwaiting place)
    · exact hsame

/-- A build that has left its walk behind does not come back to it. -/
theorem exists_left_walking {call : Nat} {b : Build σ} (hb : (after e past).builds[call]? = some b)
    (hwalked : b.stage ≠ .walking) (later : List Action) :
    ∃ now, (after e (later ++ past)).builds[call]? = some now ∧ now.stage ≠ .walking := by
  induction later with
  | nil => exact ⟨b, hb, hwalked⟩
  | cons a later ih =>
    obtain ⟨now, hnow, hleft⟩ := ih
    rcases build_next hnow a with ⟨place, -, hnext⟩ | ⟨-, hsame⟩
    · exact ⟨_, hnext, stage_stepAt_ne_walking _ now place⟩
    · exact ⟨now, hsame, hleft⟩

end Build

section Walk

variable {e : Engine σ} {past : List Action} {call : Nat} {b : Build σ}
  (hb : (after e past).builds[call]? = some b) (hwalking : b.stage = .walking)

include hb hwalking in
/-- What a build is about to do when it has walked. -/
theorem build_of_walk (first : Nat) :
    ∃ now, (after e (.build call first :: past)).builds[call]? = some now ∧ now.root = b.root ∧
      now.stage = .ofWalk ((after e past).engine.filesIn b.root) := by
  have hlt : call < (after e past).builds.length := (List.getElem?_eq_some_iff.mp hb).1
  refine ⟨_, by rw [after_build hb]; exact List.getElem?_set_self hlt, stepAt_root _ b first, ?_⟩
  rw [stepAt_of_walking hwalking, walk_stage]

variable {files : List Path} (hfiles : (after e past).engine.filesIn b.root = .ok files)
  (hplain : (after e past).engine.disk.Plain)

include hb hwalking hfiles hplain in
/-- What a build has made at any time since its walk is that of the files of the walk. -/
theorem gathers_after (first : Nat) (later : List Action) :
    ∃ now, (after e (later ++ .build call first :: past)).builds[call]? = some now ∧
      now.root = b.root ∧
        now.stage.Gathers (Reads e (.build call first :: past) later b.root)
          (fun p => Unexpected e.parsers (relativeText b.root p)) files := by
  induction later with
  | nil =>
    obtain ⟨now, hnow, hroot, hstage⟩ := build_of_walk hb hwalking first
    rw [hfiles] at hstage
    refine ⟨now, hnow, hroot, .reading _ hstage ?_⟩
    rw [List.forall₂_map_right_iff]
    exact List.forall₂_same.mpr fun p _ => Or.inl rfl
  | cons a later ih =>
    obtain ⟨now, hnow, hroot, hgathers⟩ := ih
    have hgathers : now.stage.Gathers (Reads e (.build call first :: past) (a :: later) b.root) _ _ :=
      hgathers.mono fun p o ⟨during, hduring, hrest⟩ =>
        ⟨during, hduring.trans (List.suffix_cons a later), hrest⟩
    rcases build_next hnow a with ⟨place, -, hnext⟩ | ⟨-, hsame⟩
    · refine ⟨_, hnext, (stepAt_root _ now place).trans hroot, hgathers.stepAt ?_ ?_ ?_ place⟩
      -- a file is read from the disk as it is now
      · intro p hp r hr
        obtain ⟨language, hlanguage⟩ := exists_language_of_mem_filesIn hplain hfiles hp
        rw [hroot] at hr
        obtain ⟨o, rfl, houtcome⟩ :=
          (readFile_after e (later ++ .build call first :: past) hlanguage).1 r hr
        exact ⟨o, ⟨later, List.suffix_cons a later, houtcome⟩, rfl⟩
      · intro p hp fault hfault
        obtain ⟨language, hlanguage⟩ := exists_language_of_mem_filesIn hplain hfiles hp
        rw [hroot] at hfault
        exact (readFile_after e (later ++ .build call first :: past) hlanguage).2 fault hfault
      · rintro p found ⟨during, -, -, hcontributes⟩
        exact bare_of_contributes hcontributes
    · exact ⟨now, hsame, hroot, hgathers⟩

include hb hwalking hfiles hplain in
/-- A file is not pending any more once a step was taken for its place. -/
theorem not_pending_of_taken {first : Nat} {later : List Action} {now : Build σ}
    (hnow : (after e (later ++ .build call first :: past)).builds[call]? = some now)
    {readings : List Reading} (hstage : now.stage = .reading readings) {place : Nat}
    (htaken : .build call place ∈ later) (p : Path) :
    readings[place]? ≠ some (.pending p) := by
  induction later generalizing now readings with
  | nil => exact absurd htaken List.not_mem_nil
  | cons a later ih =>
    obtain ⟨before, hbefore, -, hgathers⟩ := gathers_after hb hwalking hfiles hplain first later
    rcases build_next hbefore a with ⟨taken, rfl, hnext⟩ | ⟨hother, hsame⟩
    · obtain rfl := Option.some.inj (hnow.symm.trans hnext)
      obtain ⟨before', hreading, -, hhere, hthere⟩ := reading_of_stepAt hgathers.ne_walking hstage
      rcases List.mem_cons.mp htaken with heq | hlater
      · obtain ⟨-, rfl⟩ := Action.build.inj heq
        exact hhere p
      · exact fun hp => ih hbefore hreading hlater (hthere place p hp)
    · obtain rfl := Option.some.inj (hnow.symm.trans hsame)
      rcases List.mem_cons.mp htaken with rfl | hlater
      · exact absurd rfl (hother place)
      · exact ih hbefore hstage hlater

include hb hwalking hfiles hplain in
/-- Once a step was taken for the place of every file, the next one ends the reading. -/
theorem ne_reading_of_taken {first : Nat} {later : List Action} {now : Build σ}
    (hnow : (after e (later ++ .build call first :: past)).builds[call]? = some now)
    {reads : Path → FileOutcome → Prop} {unexpected : Path → Prop}
    (hgathers : now.stage.Gathers reads unexpected files)
    (htaken : ∀ place < files.length, .build call place ∈ later) (place : Nat)
    (readings : List Reading) :
    (now.stepAt (after e (later ++ .build call first :: past)).engine place).1.stage ≠
      .reading readings := by
  intro hstage
  -- one that does not end it finds a file pending, at the place of the file
  obtain ⟨before, hreading, ⟨r, hr, hpending⟩, -⟩ := reading_of_stepAt hgathers.ne_walking hstage
  obtain ⟨other, hother⟩ := List.mem_iff_getElem?.mp hr
  cases hgathers with
  | reading found hfound hread =>
    obtain rfl := Stage.reading.inj (hreading.symm.trans hfound)
    have hlt : other < files.length := by
      rw [hread.length_eq]
      exact (List.getElem?_eq_some_iff.mp hother).1
    cases r with
    | pending p =>
      exact not_pending_of_taken hb hwalking hfiles hplain hnow hreading (htaken other hlt) p hother
    | chunks found => simp [Reading.isPending] at hpending
    | skipped s => simp [Reading.isPending] at hpending
  | read outcomes hread hmade =>
    rw [hreading] at hmade
    exact hmade
  | broken fault p hp hunexpected hbroken => simp [hreading] at hbroken

include hb hwalking in
/-- A build whose walk is stopped breaks, whatever happens besides. -/
theorem broken_of_stopped {fault : IndexFault}
    (hstopped : (after e past).engine.filesIn b.root = .error fault) (first : Nat)
    (later : List Action) :
    ∃ now, (after e (later ++ .build call first :: past)).builds[call]? = some now ∧
      (now.stage = .aborting (.error fault) ∨ now.stage = .ended (.error fault)) := by
  induction later with
  | nil =>
    obtain ⟨now, hnow, -, hstage⟩ := build_of_walk hb hwalking first
    rw [hstopped] at hstage
    exact ⟨now, hnow, Or.inl hstage⟩
  | cons a later ih =>
    obtain ⟨now, hnow, hbroken⟩ := ih
    rcases build_next hnow a with ⟨place, -, hnext⟩ | ⟨-, hsame⟩
    · refine ⟨_, hnext, Or.inr ?_⟩
      unfold Build.stepAt
      rcases hbroken with hstage | hstage
      · rw [hstage]
      · rw [hstage]
        exact hstage
    · exact ⟨now, hsame, hbroken⟩

end Walk

section Trace

variable {e : Engine σ} {past : List Action}

/-- Files change only when they are changed from outside. -/
theorem disk_step {s : Session σ} {a : Action} (hquiet : ∀ disk, a ≠ .edit disk) :
    (s.step a).engine.disk = s.engine.disk := by
  cases step_move s a with
  | idle hevent hnext => rw [hnext]
  | begins path b engine ha hbegin hevent hnext =>
    obtain ⟨-, -, rfl⟩ := begin_ok hbegin
    rw [hnext]
  | builds call place b ha hb hevent hnext =>
    rw [hnext]
    exact (leaves_stepAt s.engine b place).ground.disk
  | asks q ha hevent hnext => rw [hnext]
  | looks asker q r hasker hr hevent hnext => rw [hnext]
  | answers asker i ha hasker hevent hnext =>
    obtain ⟨results, monitor, database, world, notices, hengine⟩ := advance_eq_with s.engine i
    rw [hnext, Inquiry.step]
    dsimp only
    rw [hengine]
  | edits disk ha hevent hnext => exact absurd ha (hquiet disk)

/-- As long as no file is changed, a file comes to the same whenever it is read. -/
theorem Reads.outcome_of_quiet {later : List Action} (hquiet : ∀ disk, .edit disk ∉ later)
    {root p : Path} {o : FileOutcome} (h : Reads e past later root p o) :
    fileOutcome (after e past).engine.disk e.parsers e.settings.contextRadius root p = .ok o := by
  obtain ⟨during, hduring, houtcome, -⟩ := h
  have hdisk : (after e (during ++ past)).engine.disk = (after e past).engine.disk := by
    have hunchanged : ∀ disk, .edit disk ∉ during := fun disk hmem =>
      hquiet disk (hduring.subset hmem)
    clear houtcome hduring
    induction during with
    | nil => rfl
    | cons a during ih =>
      refine (disk_step fun disk ha => hunchanged disk (by simp [ha])).trans (ih fun disk hmem => ?_)
      exact hunchanged disk (List.mem_cons_of_mem a hmem)
  rw [← hdisk]
  exact houtcome

/-- Events come from the actions that a session has been through. -/
theorem exists_of_mem_trace {event : Event} (hevent : event ∈ trace e past) :
    ∃ a older, a :: older <:+ past ∧ (after e older).event? a = some event := by
  induction past with
  | nil => exact absurd hevent List.not_mem_nil
  | cons a past ih =>
    rw [trace, List.mem_append, Option.mem_toList] at hevent
    rcases hevent with hnow | hbefore
    · exact ⟨a, past, List.suffix_refl _, hnow⟩
    · obtain ⟨a', older, hsuffix, hthere⟩ := ih hbefore
      exact ⟨a', older, hsuffix.trans (List.suffix_cons a past), hthere⟩

/-- A time of a session is before a build began, or some time since. -/
theorem before_or_since {older later : List Action} {a : Action} (h : older <:+ later ++ a :: past) :
    older <:+ past ∨ ∃ during, during <:+ later ∧ older = during ++ a :: past := by
  induction later with
  | nil =>
    rcases List.suffix_cons_iff.mp h with rfl | hbefore
    · exact Or.inr ⟨[], List.suffix_refl _, rfl⟩
    · exact Or.inl hbefore
  | cons c later ih =>
    rcases List.suffix_cons_iff.mp h with rfl | hbefore
    · exact Or.inr ⟨c :: later, List.suffix_refl _, rfl⟩
    · refine (ih hbefore).imp_right ?_
      rintro ⟨during, hduring, rfl⟩
      exact ⟨during, hduring.trans (List.suffix_cons c later), rfl⟩

/-- A build that publishes a generation has not done so before its walk. -/
theorem exists_publishing (hfresh : e.holder = {}) {call : Nat} {b : Build σ}
    (hb : (after e past).builds[call]? = some b) (hwalking : b.stage = .walking) {first : Nat}
    {later : List Action} {g : Generation}
    (hg : Event.publish g ∈ trace e (later ++ .build call first :: past))
    (hnumber : g.number = b.number) :
    ∃ during, during <:+ later ∧ ∃ now embedded,
      (after e (during ++ .build call first :: past)).builds[call]? = some now ∧
        now.stage = .publishing g embedded := by
  obtain ⟨a, older, hsuffix, hevent⟩ := exists_of_mem_trace hg
  obtain ⟨call', place, b', embedded, -, hb', hstage⟩ := exists_build_of_event hevent
  have hmade := (accounted hfresh older).made_number b' (List.mem_of_getElem? hb') g
    (by rw [hstage]; rfl)
  have hplace := (accounted hfresh older).number_eq call' b' hb'
  have hplace' := (accounted hfresh past).number_eq call b hb
  obtain rfl : call' = call := by omega
  have htime : older <:+ later ++ .build call' first :: past :=
    (List.suffix_cons a older).trans hsuffix
  rcases before_or_since htime with hbefore | ⟨during, hduring, rfl⟩
  · -- a build that has left its walk behind does not walk any more
    obtain ⟨newer, rfl⟩ := hbefore
    obtain ⟨now, hnow, hwalked⟩ := exists_left_walking hb' (by rw [hstage]; simp) newer
    obtain rfl := Option.some.inj (hb.symm.trans hnow)
    exact absurd hwalking hwalked
  · exact ⟨during, hduring, b', embedded, hb', hstage⟩

/-- The generation that a build publishes is made of the files of its walk. -/
theorem exists_outcomes_of_publish (hfresh : e.holder = {}) {call : Nat} {b : Build σ}
    (hb : (after e past).builds[call]? = some b) (hwalking : b.stage = .walking)
    {files : List Path} (hfiles : (after e past).engine.filesIn b.root = .ok files)
    (hplain : (after e past).engine.disk.Plain) {first : Nat} {later : List Action} {g : Generation}
    (hg : Event.publish g ∈ trace e (later ++ .build call first :: past))
    (hnumber : g.number = b.number) :
    ∃ outcomes, List.Forall₂ (Reads e (.build call first :: past) later b.root) files outcomes ∧
      g.files = (Extract.together outcomes).files ∧
        g.chunks.map Chunk.bare = (Extract.together outcomes).chunks ∧
          g.skipped = (Extract.together outcomes).skipped := by
  obtain ⟨during, hduring, now, embedded, hnow, hstage⟩ :=
    exists_publishing hfresh hb hwalking hg hnumber
  obtain ⟨now', hnow', -, hgathers⟩ := gathers_after hb hwalking hfiles hplain first during
  obtain rfl := Option.some.inj (hnow.symm.trans hnow')
  rw [hstage] at hgathers
  cases hgathers with
  | reading readings hreading hread => simp at hreading
  | broken fault p hp hunexpected hbroken => simp at hbroken
  | read outcomes hread hmade =>
    refine ⟨outcomes, hread.imp fun p o => ?_, hmade⟩
    rintro ⟨since, hsince, houtcome⟩
    exact ⟨since, hsince.trans hduring, houtcome⟩

end Trace

/-! ## The walk and its files -/

/-- Whatever builds, questions and changes to the files take place and in whatever order files are
read, a build has at any time since its walk made exactly what the files of the walk came to: each file
by itself, in the order of the walk. When each file has had its turn the next step ends the reading, and
only a package that fails unexpectedly keeps a file from coming to anything. What is published tells of
the same files; a walk that is stopped breaks the build, and nothing is published. Each file gives
chunks or is skipped under its own path, never for its name. When it is read matters only if files are
changed, and what it comes to depends only on its path and text, the package of its language and the
tree of its text. -/
theorem contributions_in_walk_order {e : Engine σ} {past : List Action} {path : String} {b : Build σ}
    {begun : Engine σ} (hbegin : (after e past).engine.begin path = .ok (b, begun))
    {waiting : List Action} (hwaiting : ∀ place, .build (after e past).builds.length place ∉ waiting)
    (hplain : (after e (waiting ++ .index path :: past)).engine.disk.Plain) (first : Nat)
    (later : List Action) :
    let call := (after e past).builds.length
    let before := waiting ++ .index path :: past
    let since := .build call first :: before
    let reads := Reads e since later b.root
    (∀ files, (after e before).engine.filesIn b.root = .ok files →
      (∃ now, (after e (later ++ since)).builds[call]? = some now ∧
        now.stage.Gathers reads (fun p => Unexpected e.parsers (relativeText b.root p)) files ∧
          ((∀ place < files.length, .build call place ∈ later) → ∀ place readings,
            (now.stepAt (after e (later ++ since)).engine place).1.stage ≠ .reading readings)) ∧
      (e.holder = {} → ∀ g, Event.publish g ∈ trace e (later ++ since) → g.number = b.number →
        ∃ outcomes, List.Forall₂ reads files outcomes ∧
          g.files = (Extract.together outcomes).files ∧
            g.chunks.map Chunk.bare = (Extract.together outcomes).chunks ∧
              g.skipped = (Extract.together outcomes).skipped) ∧
      ∀ outcomes, List.Forall₂ reads files outcomes →
        (Extract.together outcomes).files = files.length ∧
          (Extract.together outcomes).files = (outcomes.filterMap Except.toOption).length +
            (Extract.together outcomes).skipped.length) ∧
    (∀ fault, (after e before).engine.filesIn b.root = .error fault →
      (∃ now, (after e (later ++ since)).builds[call]? = some now ∧
        (now.stage = .aborting (.error fault) ∨ now.stage = .ended (.error fault))) ∧
      (e.holder = {} → ∀ g, Event.publish g ∈ trace e (later ++ since) → g.number ≠ b.number)) ∧
    (∀ p s, reads p (.error s) →
      s.path = relativeText b.root p ∧ s.reason ≠ "unsupported file extension") ∧
    ((∀ disk, .edit disk ∉ later) → ∀ p o, reads p o →
      fileOutcome (after e before).engine.disk e.parsers e.settings.contextRadius b.root p = .ok o) ∧
    ∀ (d d' : Files.Disk) (parsers parsers' : Tree.Parsers) (radius : Int) (root root' p p' : Path),
      relativeText root' p' = relativeText root p → readText d' p' = readText d p →
      (∀ language, Tree.Language.ofPath? (relativeText root p) = some language →
        parsers'.failure? language.package = parsers.failure? language.package) →
      (∀ language text, Tree.Language.ofPath? (relativeText root p) = some language →
        readText d p = .ok text → parsers'.tree language text = parsers.tree language text) →
      fileOutcome d' parsers' radius root' p' = fileOutcome d parsers radius root p := by
  intro call before since reads
  have hb : (after e before).builds[call]? = some b :=
    build_of_waiting (build_of_begin hbegin) hwaiting
  have hwalking := stage_begin hbegin
  refine ⟨?_, ?_, ?_, ?_, ?_⟩
  · intro files hfiles
    obtain ⟨now, hnow, -, hgathers⟩ := gathers_after hb hwalking hfiles hplain first later
    refine ⟨⟨now, hnow, hgathers, ?_⟩, ?_, ?_⟩
    · exact fun htaken place readings =>
        ne_reading_of_taken hb hwalking hfiles hplain hnow hgathers htaken place readings
    · exact fun hfresh g hg hnumber =>
        exists_outcomes_of_publish hfresh hb hwalking hfiles hplain hg hnumber
    · intro outcomes houtcomes
      exact ⟨houtcomes.length_eq.symm, files_together outcomes⟩
  · intro fault hfault
    refine ⟨broken_of_stopped hb hwalking hfault first later, ?_⟩
    intro hfresh g hg hnumber
    obtain ⟨during, -, now, embedded, hnow, hstage⟩ :=
      exists_publishing hfresh hb hwalking hg hnumber
    obtain ⟨now', hnow', hbroken⟩ := broken_of_stopped hb hwalking hfault first during
    obtain rfl := Option.some.inj (hnow.symm.trans hnow')
    simp [hstage] at hbroken
  · rintro p s ⟨during, -, -, hcontributes⟩
    exact ⟨hcontributes.path_skipped, hcontributes.reason_ne_unsupported⟩
  · intro hquiet p o ho
    -- the walk changes no file either
    rw [← disk_step (s := after e before) (a := .build call first) (by simp)]
    exact ho.outcome_of_quiet hquiet
  · intro d d' parsers parsers' radius root root' p p' hname hcontent hpackage htree
    exact Files.fileOutcome_of_same hname hcontent hpackage htree

/-- An engine for a directory of four files: one that is no text, one import, one whose tree is marked
as faulty, and one in a language whose package is missing. -/
def mixed : Engine Unit :=
  let sound : Tree.Node := ⟨"program", 0, 11, true, false, false, "", [importNode 0 11]⟩
  let faulty : Tree.Node :=
    ⟨"program", 0, 1, true, false, false, "",
      [⟨Tree.Node.errorType, 0, 1, true, false, false, "", []⟩]⟩
  let failure? (package : String) : Option Tree.LoadFailure :=
    if package = "tree_sitter_python" then some ⟨"ModuleNotFoundError", "No module"⟩ else none
  Engine.new { vectorUri := "" }
    ⟨failure?, fun language _ => if language = .typescript then faulty else sound⟩
    none none false "session" (fun _ => none) {}
    ⟨⟨1, []⟩, .directory [("a.js", .file [0xff]), ("b.js", .file (Text.encode "import 'x';".toList)),
      ("c.ts", .file (Text.encode "(".toList)), ("d.py", .file (Text.encode "x".toList))]⟩ ()

/-- The four files, in the order of the walk. -/
def fourFiles : List Path :=
  [⟨1, ["a.js"]⟩, ⟨1, ["b.js"]⟩, ⟨1, ["c.ts"]⟩, ⟨1, ["d.py"]⟩]

/-- The steps of the build on the four files after its walk: they are read in the order from the last to
the first, and then a generation is published. -/
def backwards : List Action :=
  List.replicate 4 (.build 0 0) ++ [.build 0 0, .build 0 1, .build 0 2, .build 0 3]

theorem walk_mixed :
    Files.walk mixed.disk mixed.walkLimits ⟨1, []⟩ = { seen := fourFiles.map .file } := by
  have hsorted : (["a.js", "b.js", "c.ts", "d.py"].mergeSort fun a b => decide (a ≤ b)) =
      ["a.js", "b.js", "c.ts", "d.py"] :=
    List.mergeSort_of_pairwise (by decide)
  have hnames : mixed.disk.fileSystem.names ⟨1, []⟩ = .ok ["a.js", "b.js", "c.ts", "d.py"] := by
    decide +kernel
  have hdepth : ¬ mixed.walkLimits.depth < 0 := by decide
  rw [Files.walk, Files.FileSystem.walk, Files.FileSystem.walkFrom, if_neg hdepth, hnames]
  dsimp only
  rw [hsorted]
  rfl

theorem filesIn_mixed : mixed.filesIn ⟨1, []⟩ = .ok fourFiles := by
  rw [filesIn, walk_mixed]
  rfl

/-- The build on the four files as it begins. -/
def mixedBuild : Build Unit :=
  ⟨1, ⟨1, []⟩, mixed.pipeline, .walking⟩

theorem begin_mixed :
    mixed.begin "/" = .ok (mixedBuild, { mixed with holder := mixed.holder.start.2 }) := by
  have hroot : mixed.rootOf "/" = .ok ⟨1, []⟩ := rfl
  unfold Engine.begin
  rw [hroot]
  rfl

theorem plain_mixed : mixed.disk.Plain :=
  Files.Disk.plain_of_files
    (by simp)
    (by decide)

/-- What the steps come to is that of the steps after the walk. -/
theorem after_mixed : after mixed (backwards ++ [.build 0 0, .index "/"]) =
    backwards.foldr (fun a s => s.step a)
      { engine := { mixed with holder := mixed.holder.start.2 }
        builds := [{ mixedBuild with stage := .reading (fourFiles.map .pending) }] } := by
  have hwalked : after mixed [.build 0 0, .index "/"] =
      { engine := { mixed with holder := mixed.holder.start.2 }
        builds := [{ mixedBuild with stage := .reading (fourFiles.map .pending) }] } := by
    have hwalk : Files.walk mixed.disk
        ({ mixed with holder := mixed.holder.start.2 } : Engine Unit).walkLimits ⟨1, []⟩ = _ :=
      walk_mixed
    simp only [after, step, begin_mixed, List.nil_append, List.getElem?_cons_zero]
    rw [stepAt_of_walking rfl, Build.walk]
    dsimp only [mixedBuild]
    rw [hwalk]
    rfl
  rw [← hwalked]
  rfl

/-- One of the four files gives a chunk and three are skipped, in the order of the walk. -/
theorem contributions_in_walk_order_mixed :
    ∃ g now outcomes, Event.publish g ∈ trace mixed (backwards ++ [.build 0 0, .index "/"]) ∧
      (after mixed (backwards ++ [.build 0 0, .index "/"])).builds[0]? = some now ∧
        now.stage.Gathers (Reads mixed [.build 0 0, .index "/"] backwards ⟨1, []⟩)
          (fun p => Unexpected mixed.parsers (relativeText ⟨1, []⟩ p)) fourFiles ∧
          List.Forall₂ (Reads mixed [.build 0 0, .index "/"] backwards ⟨1, []⟩) fourFiles outcomes ∧
            g.files = 4 ∧ g.chunks.map Chunk.bare = (Extract.together outcomes).chunks ∧
              g.skipped = (Extract.together outcomes).skipped ∧ g.chunks.map (·.name) = ["x"] ∧
                g.skipped.map (·.path) = ["a.js", "c.ts", "d.py"] := by
  have hcurrent : (after mixed (backwards ++ [.build 0 0, .index "/"])).engine.holder.current.map
      (fun g => (g.number, g.files, g.chunks.map (·.name), g.skipped.map (·.path))) =
        some (1, 4, ["x"], ["a.js", "c.ts", "d.py"]) := by
    rw [after_mixed]
    decide +kernel
  obtain ⟨g, hg, hfound⟩ := Option.map_eq_some_iff.mp hcurrent
  simp only [Prod.mk.injEq] at hfound
  obtain ⟨hnumber, hfiles, hchunks, hskipped⟩ := hfound
  have hpublished := publish_mem_of_current rfl hg
  have hbegin : (after mixed []).engine.begin "/" = .ok (mixedBuild, _) := begin_mixed
  have hplain : (after mixed ([] ++ [.index "/"])).engine.disk.Plain := by
    rw [List.nil_append, after, disk_step (by simp)]
    exact plain_mixed
  have hread : (after mixed ([] ++ [.index "/"])).engine.filesIn ⟨1, []⟩ = .ok fourFiles := by
    rw [List.nil_append, after, after, step, begin_mixed]
    exact filesIn_mixed
  have hwaiting : ∀ place, .build (after mixed []).builds.length place ∉ ([] : List Action) :=
    fun _ => List.not_mem_nil
  obtain ⟨hgathered, -⟩ := contributions_in_walk_order hbegin hwaiting hplain 0 backwards
  obtain ⟨⟨now, hnow, hgathers, -⟩, hmade, -⟩ := hgathered fourFiles hread
  obtain ⟨outcomes, houtcomes, -, hbare, hreasons⟩ := hmade rfl g hpublished hnumber
  exact ⟨g, now, outcomes, hpublished, hnow, hgathers, houtcomes, hfiles, hbare, hreasons, hchunks,
    hskipped⟩

end Session

end CodeSearch.Engine

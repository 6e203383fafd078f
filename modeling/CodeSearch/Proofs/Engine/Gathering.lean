import CodeSearch.Proofs.Engine.Indexing

/-!
What a build makes of its files.

The files of a build are read in any order, and each stands in its place until it has come to
something. Put together in the order of the walk, what they came to is the extract
(`Extract.together`), and from then on the extract stays as it is, since embedding and storing touch
nothing but vectors (`Stage.MadeOf`). So a stage comes from the files of the walk at any time
(`Stage.Gathers.stepAt`).
-/
set_option autoImplicit false

namespace CodeSearch.Engine

open CodeSearch.Files (fileOutcome)
open CodeSearch.Tree (Skipped)

variable {σ : Type}

/-! ## Outcomes put together -/

/-- What one file comes to: its chunks, or why there are none. -/
abbrev FileOutcome := Except Skipped (List Chunk)

/-- What a file has come to, by its outcome. -/
def Reading.ofOutcome : FileOutcome → Reading
  | .ok found => .chunks found
  | .error s => .skipped s

/-- Why a file is skipped, if it is. -/
def skipped? : FileOutcome → Option Skipped
  | .ok _ => none
  | .error s => some s

/-- The outcomes of files put together in their order: the chunks of those that have any, and the
others with their reasons. -/
def Extract.together (outcomes : List FileOutcome) : Extract where
  files := outcomes.length
  chunks := (outcomes.filterMap Except.toOption).flatten
  skipped := outcomes.filterMap skipped?

theorem extract_of_outcomes (outcomes : List FileOutcome) :
    Extract.of (outcomes.map Reading.ofOutcome) = .together outcomes := by
  induction outcomes with
  | nil => rfl
  | cons o outcomes ih =>
    cases o with
    | ok found =>
      show (⟨(Extract.of (outcomes.map Reading.ofOutcome)).files + 1,
        found ++ (Extract.of (outcomes.map Reading.ofOutcome)).chunks,
        (Extract.of (outcomes.map Reading.ofOutcome)).skipped⟩ : Extract) = _
      rw [ih]
      rfl
    | error s =>
      show (⟨(Extract.of (outcomes.map Reading.ofOutcome)).files + 1,
        (Extract.of (outcomes.map Reading.ofOutcome)).chunks,
        s :: (Extract.of (outcomes.map Reading.ofOutcome)).skipped⟩ : Extract) = _
      rw [ih]
      rfl

/-- Every file is in one of two groups. -/
theorem files_together (outcomes : List FileOutcome) :
    (Extract.together outcomes).files =
      (outcomes.filterMap Except.toOption).length + (Extract.together outcomes).skipped.length := by
  induction outcomes with
  | nil => rfl
  | cons o outcomes ih =>
    cases o with
    | ok found =>
      show (Extract.together outcomes).files + 1 =
        (outcomes.filterMap Except.toOption).length + 1 + (Extract.together outcomes).skipped.length
      omega
    | error s =>
      show (Extract.together outcomes).files + 1 =
        (outcomes.filterMap Except.toOption).length + ((Extract.together outcomes).skipped.length + 1)
      omega

theorem exists_of_mem_chunks {outcomes : List FileOutcome} {c : Chunk}
    (hc : c ∈ (Extract.together outcomes).chunks) : ∃ found, .ok found ∈ outcomes ∧ c ∈ found := by
  obtain ⟨found, hfound, hc⟩ := List.mem_flatten.mp hc
  obtain ⟨o, ho, heq⟩ := List.mem_filterMap.mp hfound
  cases o with
  | ok found' =>
    obtain rfl := Option.some.inj heq
    exact ⟨found', ho, hc⟩
  | error s => simp [Except.toOption] at heq

/-! ## What builds have made -/

/-- What has become of an extract at a stage after the reading: the numbers and the reasons of the
skipped files are handed on, and chunks get nothing but vectors. -/
def Stage.MadeOf (x : Extract) : Stage → Prop
  | .walking | .reading _ => False
  | .embedding extract slots => extract = x ∧ slots.map (·.chunk) = x.chunks
  | .gathered extract chunks _ => extract = x ∧ chunks.map Chunk.bare = x.chunks
  | .storing g _ | .publishing g _ =>
    g.files = x.files ∧ g.chunks.map Chunk.bare = x.chunks ∧ g.skipped = x.skipped
  | .aborting (.ok summary) | .retiring _ summary | .ended (.ok summary) =>
    summary.files = x.files ∧ summary.chunks = x.chunks.length ∧ summary.skipped = x.skipped
  | .aborting (.error _) | .ended (.error _) => True

/-- How a stage comes from the files of a walk, by what they came to. -/
inductive Stage.Gathers (reads : Path → FileOutcome → Prop) (unexpected : Path → Prop)
    (files : List Path) (stage : Stage) : Prop where
  /-- Each file has come to its outcome, or is still to be read. -/
  | reading (readings : List Reading) (hstage : stage = .reading readings)
      (hread : List.Forall₂ (fun p r => r = .pending p ∨ ∃ o, reads p o ∧ r = .ofOutcome o)
        files readings)
  | read (outcomes : List FileOutcome) (hread : List.Forall₂ reads files outcomes)
      (hmade : stage.MadeOf (.together outcomes))
  /-- A file has come to nothing, since the package of its language failed unexpectedly. -/
  | broken (fault : IndexFault) (p : Path) (hp : p ∈ files) (hunexpected : unexpected p)
      (hstage : stage = .aborting (.error fault) ∨ stage = .ended (.error fault))

theorem Stage.Gathers.mono {reads reads' : Path → FileOutcome → Prop} {unexpected : Path → Prop}
    {files : List Path} {stage : Stage} (h : stage.Gathers reads unexpected files)
    (hmono : ∀ p o, reads p o → reads' p o) : stage.Gathers reads' unexpected files := by
  cases h with
  | reading readings hstage hread =>
    refine .reading readings hstage (hread.imp fun p r hr => ?_)
    exact hr.imp_right fun ⟨o, ho, heq⟩ => ⟨o, hmono p o ho, heq⟩
  | read outcomes hread hmade => exact .read outcomes (hread.imp fun p o => hmono p o) hmade
  | broken fault p hp hunexpected hstage => exact .broken fault p hp hunexpected hstage

/-- What comes from files comes after the walk. -/
theorem Stage.Gathers.ne_walking {reads : Path → FileOutcome → Prop} {unexpected : Path → Prop}
    {files : List Path} {stage : Stage} (h : stage.Gathers reads unexpected files) :
    stage ≠ .walking := by
  rintro rfl
  cases h with
  | reading readings hstage hread => simp at hstage
  | read outcomes hread hmade => exact hmade
  | broken fault p hp hunexpected hstage => simp at hstage

/-- With all files read there is an outcome for each of them. -/
theorem exists_outcomes {reads : Path → FileOutcome → Prop} {files : List Path} {readings : List Reading}
    (hread : List.Forall₂ (fun p r => r = .pending p ∨ ∃ o, reads p o ∧ r = .ofOutcome o)
      files readings) (hdone : ∀ r ∈ readings, r.isPending = false) :
    ∃ outcomes, List.Forall₂ reads files outcomes ∧ readings = outcomes.map .ofOutcome := by
  induction hread with
  | nil => exact ⟨[], .nil, rfl⟩
  | cons hfirst _ ih =>
    obtain ⟨hfinished, hrest⟩ := List.forall_mem_cons.mp hdone
    obtain ⟨outcomes, houtcomes, rfl⟩ := ih hrest
    rcases hfirst with rfl | ⟨o, ho, rfl⟩
    · exact absurd hfinished (by simp [Reading.isPending])
    · exact ⟨o :: outcomes, .cons ho houtcomes, rfl⟩

/-- A step of a build whose files are being read. -/
theorem stepAt_reading {b : Build σ} {readings : List Reading} (hstage : b.stage = .reading readings)
    (e : Engine σ) (place : Nat) :
    (∀ r ∈ readings, r.isPending = false) ∧
        (b.stepAt e place).1.stage = b.afterReading e (Extract.of readings) ∨
      (∃ r ∈ readings, r.isPending = true) ∧
        ((∃ p, readings[place]? = some (.pending p) ∧
            ((∃ r, (e.readFile b.root p).1 = .ok r ∧
                (b.stepAt e place).1.stage = .reading (readings.set place r)) ∨
              ∃ fault, (e.readFile b.root p).1 = .error fault ∧
                (b.stepAt e place).1.stage = .aborting (.error fault))) ∨
          (∀ p, readings[place]? ≠ some (.pending p)) ∧
            (b.stepAt e place).1.stage = .reading readings) := by
  unfold Build.stepAt
  rw [hstage]
  dsimp only
  by_cases hdone : (readings.all fun r => !r.isPending) = true
  · rw [if_pos hdone]
    exact Or.inl ⟨fun r hr => by simpa using List.all_eq_true.mp hdone r hr, rfl⟩
  · rw [if_neg hdone]
    refine Or.inr ⟨by simpa using hdone, ?_⟩
    unfold Build.readAt
    split
    · rename_i p hplace
      refine Or.inl ⟨p, hplace, ?_⟩
      split
      · rename_i r after hread
        exact Or.inl ⟨r, by rw [hread], rfl⟩
      · rename_i fault after hread
        exact Or.inr ⟨fault, by rw [hread], rfl⟩
    · rename_i hnone
      exact Or.inr ⟨hnone, hstage⟩

/-- What is done after the reading changes nothing of an extract but vectors. -/
theorem Stage.MadeOf.stepAt {x : Extract} {b : Build σ} (h : b.stage.MadeOf x)
    (hbare : ∀ c ∈ x.chunks, c.bare = c) (e : Engine σ) (place : Nat) :
    (b.stepAt e place).1.stage.MadeOf x := by
  have hkept : x.chunks.map Chunk.bare = x.chunks :=
    (List.map_congr_left hbare).trans (List.map_id _)
  cases hstage : b.stage with
  | walking =>
    rw [hstage] at h
    exact absurd h id
  | reading readings =>
    rw [hstage] at h
    exact absurd h id
  | embedding extract slots =>
    rw [hstage] at h
    obtain ⟨rfl, hslots⟩ := h
    rcases stepAt_embedding hstage e place with ⟨-, hnext⟩ | ⟨embedder, -, ⟨-, hnext⟩ | hnext⟩
    · rw [hnext]
      exact ⟨rfl, hkept⟩
    · rw [hnext, afterEmbedding]
      split
      · exact trivial
      · refine ⟨rfl, ?_⟩
        rw [List.map_map, ← hkept, ← hslots, List.map_map]
        exact List.map_congr_left fun s _ => bare_result s
    · rw [hnext, Build.embedAt]
      split
      · rename_i slot hplace
        have hsame := Embedding.Slot.chunk_step embedder b.pipeline.retries b.pipeline.backoff
          (e.holder.isStale b.number) e.vectors e.world slot
        exact ⟨rfl, (map_chunk_set hplace hsame).trans hslots⟩
      · rw [hstage]
        exact ⟨rfl, hslots⟩
  | gathered extract chunks embedded =>
    rw [hstage] at h
    obtain ⟨rfl, hchunks⟩ := h
    unfold Build.stepAt Build.afterGathering
    rw [hstage]
    dsimp only
    split
    · exact ⟨rfl, rfl, rfl⟩
    · split
      · exact ⟨rfl, hchunks, rfl⟩
      · exact ⟨rfl, hchunks, rfl⟩
  | storing g embedded =>
    rw [hstage] at h
    have hnext : b.stepAt e place = b.store e g embedded := by rw [Build.stepAt, hstage]
    rw [hnext]
    rcases store_stage e b g embedded with ⟨vector, hafter⟩ | ⟨fault, hafter⟩
    · rw [hafter]
      exact h
    · rw [hafter]
      exact trivial
  | publishing g embedded =>
    rw [hstage] at h
    obtain ⟨hfiles, hchunks, hskipped⟩ := h
    have hnext : b.stepAt e place = b.publish e g embedded := by rw [Build.stepAt, hstage]
    rw [hnext, publish_stage]
    refine ⟨hfiles, ?_, hskipped⟩
    rw [← hchunks, List.length_map]
    rfl
  | aborting result =>
    rw [hstage] at h
    unfold Build.stepAt
    rw [hstage]
    cases result with
    | ok summary => exact h
    | error fault => exact h
  | retiring old summary =>
    rw [hstage] at h
    unfold Build.stepAt
    rw [hstage]
    cases old with
    | nil => exact h
    | cons g old => exact h
  | ended result =>
    unfold Build.stepAt
    rw [hstage]
    dsimp only
    rw [hstage] at h ⊢
    exact h

/-- Every step keeps what a build has made to be that of the files of its walk. -/
theorem Stage.Gathers.stepAt {reads : Path → FileOutcome → Prop} {unexpected : Path → Prop}
    {files : List Path} {b : Build σ} {e : Engine σ} (h : b.stage.Gathers reads unexpected files)
    (hread : ∀ p ∈ files, ∀ r, (e.readFile b.root p).1 = .ok r → ∃ o, reads p o ∧ r = .ofOutcome o)
    (hunread : ∀ p ∈ files, ∀ fault, (e.readFile b.root p).1 = .error fault → unexpected p)
    (hbare : ∀ p found, reads p (.ok found) → ∀ c ∈ found, c.bare = c) (place : Nat) :
    (b.stepAt e place).1.stage.Gathers reads unexpected files := by
  cases h with
  | reading readings hstage hreadings =>
    rcases stepAt_reading hstage e place with ⟨hdone, hnext⟩ | ⟨-, hnext⟩
    · obtain ⟨outcomes, houtcomes, rfl⟩ := exists_outcomes hreadings hdone
      refine .read outcomes houtcomes ?_
      rw [hnext, extract_of_outcomes, Build.afterReading]
      split
      · exact ⟨rfl, rfl, rfl⟩
      · refine ⟨rfl, ?_⟩
        rw [List.map_map]
        exact List.map_id _
    · rcases hnext with ⟨p, hplace, hnext⟩ | ⟨-, hnext⟩
      · -- what is pending in a place is the file of that place
        have hpending : ∀ q, (Reading.pending p = .pending q ∨
            ∃ o, reads q o ∧ Reading.pending p = .ofOutcome o) → q = p := by
          rintro q (heq | ⟨o, -, heq⟩)
          · exact (Reading.pending.inj heq).symm
          · cases o <;> simp [Reading.ofOutcome] at heq
        obtain ⟨q, hq, hrel⟩ := Vector.exists_of_forall₂ hreadings (List.mem_of_getElem? hplace)
        obtain rfl := hpending q hrel
        rcases hnext with ⟨r, hr, hnext⟩ | ⟨fault, hfault, hnext⟩
        · refine .reading _ hnext (forall₂_set hreadings hplace fun q' hq' => ?_)
          obtain rfl := hpending q' hq'
          exact Or.inr (hread q' hq r hr)
        · exact .broken fault q hq (hunread q hq fault hfault) (Or.inl hnext)
      · exact .reading readings hnext hreadings
  | read outcomes houtcomes hmade =>
    refine .read outcomes houtcomes (hmade.stepAt ?_ e place)
    intro c hc
    obtain ⟨found, hfound, hc⟩ := exists_of_mem_chunks hc
    obtain ⟨p, -, hp⟩ := Vector.exists_of_forall₂ houtcomes hfound
    exact hbare p found hp c hc
  | broken fault p hp hunexpected hstage =>
    refine .broken fault p hp hunexpected (Or.inr ?_)
    unfold Build.stepAt
    rcases hstage with hstage | hstage
    · rw [hstage]
    · rw [hstage]
      exact hstage

/-- What reading a file comes to, by its outcome. -/
theorem readFile_eq (e : Engine σ) (root p : Path) :
    (e.readFile root p).1 =
      match fileOutcome e.disk e.parsers e.settings.contextRadius root p with
      | .ok o => .ok (.ofOutcome o)
      | .error fault => .error (.broken fault) := by
  unfold readFile
  dsimp only [warn, note]
  cases fileOutcome e.disk e.parsers e.settings.contextRadius root p with
  | error fault => rfl
  | ok o => cases o <;> rfl

/-- After the walk, a file is pending only as long as no step was taken for its place, and a build reads
only as long as one is pending. -/
theorem reading_of_stepAt {e : Engine σ} {b : Build σ} {place : Nat} {readings : List Reading}
    (hwalked : b.stage ≠ .walking) (hstage : (b.stepAt e place).1.stage = .reading readings) :
    ∃ before, b.stage = .reading before ∧ (∃ r ∈ before, r.isPending = true) ∧
      (∀ p, readings[place]? ≠ some (.pending p)) ∧
        ∀ (other : Nat) (p : Path),
          readings[other]? = some (.pending p) → before[other]? = some (.pending p) := by
  have hbefore : ∃ before, b.stage = .reading before := by
    cases stepAt_move e b place with
    | idle hquiet hnext =>
      rw [hnext] at hstage
      exact ⟨readings, hstage⟩
    | walked files hwalking hwalk hfiles hnext => exact absurd hwalking hwalked
    | read before p r hreading hplace hread hnext => exact ⟨before, hreading⟩
    | store g embedded hstoring hnext =>
      rw [hnext] at hstage
      rcases store_stage e b g embedded with ⟨vector, hafter⟩ | ⟨fault, hafter⟩
      · simp [hafter] at hstage
      · simp [hafter] at hstage
    | publish g embedded hpublishing hnext => simp [hnext, publish_stage] at hstage
    | made extract chunks embedded after hgathered hafter hnext =>
      rw [hnext] at hstage
      rcases hafter with ⟨rfl, -⟩ | rfl
      · simp at hstage
      · simp at hstage
    | readAll before hreading hdone hnext => exact ⟨before, hreading⟩
    | unread before p fault hreading hplace hread hnext => exact ⟨before, hreading⟩
    | _ =>
      rename_i hnext
      simp [hnext] at hstage
  obtain ⟨before, hreading⟩ := hbefore
  refine ⟨before, hreading, ?_⟩
  rcases stepAt_reading hreading e place with ⟨-, hnext⟩ | ⟨hpending, hnext⟩
  · rw [hnext, Build.afterReading] at hstage
    split at hstage
    · simp at hstage
    · simp at hstage
  refine ⟨hpending, ?_⟩
  rcases hnext with ⟨p, hplace, ⟨r, hread, hnext⟩ | ⟨fault, -, hnext⟩⟩ | ⟨hnone, hnext⟩
  · obtain rfl := Stage.reading.inj (hnext.symm.trans hstage)
    have hset : (before.set place r)[place]? = some r :=
      List.getElem?_set_self (List.getElem?_eq_some_iff.mp hplace).1
    have hfinished := isPending_readFile e b.root p hread
    refine ⟨?_, ?_⟩
    · intro q heq
      obtain rfl := Option.some.inj (hset.symm.trans heq)
      simp [Reading.isPending] at hfinished
    · intro other q hother
      by_cases hsame : place = other
      · subst hsame
        obtain rfl := Option.some.inj (hset.symm.trans hother)
        simp [Reading.isPending] at hfinished
      · rwa [List.getElem?_set_ne hsame] at hother
  · rw [hnext] at hstage
    simp at hstage
  · obtain rfl := Stage.reading.inj (hnext.symm.trans hstage)
    exact ⟨hnone, fun other q hother => hother⟩

end CodeSearch.Engine

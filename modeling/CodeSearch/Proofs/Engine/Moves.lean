import CodeSearch.Engine.Build.Ending
import CodeSearch.Engine.Inquiry
import CodeSearch.Proofs.Index.Traffic

/-!
What one step of a build or of a question can be.

Every step is one of a few moves (`Build.Move`, `Inquiry.Move`), with what it changes of the engine, and
what holds of all steps is shown move by move. As far as the holder of the generations goes there are
fewer: a build works on, publishes, aborts, or has been closed (`Build.Turn`).
-/
set_option autoImplicit false

namespace CodeSearch.Engine

open CodeSearch.Embedding (Slot)
open CodeSearch.Index (Generation Holder Event)
open CodeSearch.Search (Result)

variable {σ : Type}

/-! ## What steps leave alone

Each function that takes a step changes a few fields of the engine, and these are named here once.
What a proof needs to know about the other fields is `rfl` after rewriting with one of these. -/

theorem retire_eq_with (e : Engine σ) (g : Generation) :
    ∃ database notices, e.retire g = { e with database := database, notices := notices } := by
  unfold retire
  split
  · exact ⟨e.database, e.notices, rfl⟩
  · split
    · exact ⟨_, e.notices, rfl⟩
    · exact ⟨e.database, _, rfl⟩

theorem readFile_eq_with (e : Engine σ) (root p : Path) :
    ∃ reported notices,
      (e.readFile root p).2 = { e with reported := reported, notices := notices } := by
  unfold readFile
  split
  dsimp only
  split
  · exact ⟨_, _, rfl⟩
  · exact ⟨_, _, rfl⟩
  · exact ⟨_, _, rfl⟩

theorem store_eq_with (e : Engine σ) (b : Build σ) (g : Generation) (embedded : Nat) :
    ∃ database monitor notices, (b.store e g embedded).2 =
      { e with database := database, monitor := monitor, notices := notices } := by
  unfold Build.store
  split
  · exact ⟨_, e.monitor, e.notices, rfl⟩
  · exact ⟨e.database, _, _, rfl⟩
  · exact ⟨e.database, e.monitor, e.notices, rfl⟩

theorem available_markDown (e : Engine σ) (reason : String) :
    (e.markDown reason).monitor.available = false := by
  show (e.monitor.markDown reason).1.available = false
  unfold Search.Monitor.markDown
  split
  · rfl
  · rename_i hdown
    exact Bool.eq_false_iff.mpr hdown

/-! ## The steps of questions -/

/-- What one step of a question is: one constructor for each thing that can happen. -/
inductive Inquiry.Move (e : Engine σ) (i : Inquiry) (next : Inquiry × Engine σ) : Prop where
  /-- The answer is remembered. -/
  | remembered (results : List Result) (hprogress : i.progress = .opened)
      (hget : e.results.get? (e.resultKey i.generation i.query) = some results)
      (hnext : next = ({ i with progress := .ended (.ok results) },
        { e with results := e.results.touch (e.resultKey i.generation i.query) }))
  | forgotten (hprogress : i.progress = .opened)
      (hget : e.results.get? (e.resultKey i.generation i.query) = none)
      (hnext : next =
        ({ i with progress := .choosing (e.resultKey i.generation i.query) }, e))
  /-- There are vectors, and their store serves. -/
  | toStore (key : ResultKey) (index : Vector.VectorIndex) (hprogress : i.progress = .choosing key)
      (hvector : i.generation.vector = some index) (hserves : e.monitor.available = true)
      (hnext : next = ({ i with progress := .embedding key index }, e))
  | toWords (key : ResultKey) (hprogress : i.progress = .choosing key)
      (hnone : i.generation.vector = none ∨ e.monitor.available = false)
      (hnext : next = ({ i with progress := .byWords key }, e))
  | embedded (key : ResultKey) (index : Vector.VectorIndex) (vector : List Float)
      (hprogress : i.progress = .embedding key index)
      (hsaid : (e.pipeline.embedQuery (i.query.text.getD "") e.world).1 = .vector vector)
      (hnext : next = ({ i with progress := .searching key index vector },
        { e with world := (e.pipeline.embedQuery (i.query.text.getD "") e.world).2 }))
  /-- The embedder refuses the text. -/
  | refused (key : ResultKey) (index : Vector.VectorIndex) (reason : Embedding.Failure)
      (hprogress : i.progress = .embedding key index)
      (hsaid : (e.pipeline.embedQuery (i.query.text.getD "") e.world).1 = .failure reason)
      (hnext : next = ({ i with progress := .byWords key },
        { e with world := (e.pipeline.embedQuery (i.query.text.getD "") e.world).2 }.warn
          [notEmbedded reason]))
  | crashed (key : ResultKey) (index : Vector.VectorIndex) (fault : Fault)
      (hprogress : i.progress = .embedding key index)
      (hsaid : (e.pipeline.embedQuery (i.query.text.getD "") e.world).1 = .crash fault)
      (hnext : next = ({ i with progress := .ended (.error fault) },
        { e with world := (e.pipeline.embedQuery (i.query.text.getD "") e.world).2 }))
  | searched (key : ResultKey) (index : Vector.VectorIndex) (vector : List Float)
      (found : List Search.Match) (hprogress : i.progress = .searching key index vector)
      (hquery : (index.query e.database vector i.query.kind i.query.limit).1 = .ok found)
      (hnext : next = ({ i with progress := .found key found .vector },
        { e with database := (index.query e.database vector i.query.kind i.query.limit).2 }))
  /-- The store does not serve, and is given up. -/
  | lost (key : ResultKey) (index : Vector.VectorIndex) (vector : List Float)
      (u : Vector.Unavailable) (hprogress : i.progress = .searching key index vector)
      (hquery : (index.query e.database vector i.query.kind i.query.limit).1 =
        .error (.unavailable u))
      (hnext : next = ({ i with progress := .byWords key },
        { e with database :=
            (index.query e.database vector i.query.kind i.query.limit).2 }.markDown u.message))
  /-- A row that the store returns cannot be read. -/
  | unreadable (key : ResultKey) (index : Vector.VectorIndex) (vector : List Float) (fault : Fault)
      (hprogress : i.progress = .searching key index vector)
      (hquery : (index.query e.database vector i.query.kind i.query.limit).1 =
        .error (.data fault))
      (hnext : next = ({ i with progress := .ended (.error fault) },
        { e with database := (index.query e.database vector i.query.kind i.query.limit).2 }))
  | matched (key : ResultKey) (hprogress : i.progress = .byWords key)
      (hnext : next = ({ i with progress := .found key i.matchWords .lexical }, e))
  | finished (key : ResultKey) (found : List Search.Match) (backend : Backend)
      (results : List Result) (hprogress : i.progress = .found key found backend)
      (hresults : resultsOf i.generation i.query backend found = .ok results)
      (hnext : next = ({ i with progress := .ended (.ok results) },
        { e with results := e.results.put key results }))
  /-- Nothing that was found can be looked for among the chunks. -/
  | unfinished (key : ResultKey) (found : List Search.Match) (backend : Backend) (fault : Fault)
      (hprogress : i.progress = .found key found backend)
      (hresults : resultsOf i.generation i.query backend found = .error fault)
      (hnext : next = ({ i with progress := .ended (.error fault) }, e))
  | ended (result : Except Fault (List Result)) (hprogress : i.progress = .ended result)
      (hnext : next = (i, e))

/-- Every step of a question is a move. -/
theorem Inquiry.step_move (e : Engine σ) (i : Inquiry) : i.Move e (i.step e) := by
  unfold Inquiry.step Inquiry.advance
  cases hprogress : i.progress with
  | opened =>
    unfold Inquiry.open
    dsimp only
    split
    · rename_i results hget
      exact .remembered results hprogress hget rfl
    · rename_i hget
      exact .forgotten hprogress hget rfl
  | choosing key =>
    unfold Inquiry.choose
    dsimp only
    split
    · rename_i index hvector
      by_cases hserves : e.monitor.available = true
      · rw [if_pos hserves]
        exact .toStore key index hprogress hvector hserves rfl
      · rw [if_neg hserves]
        exact .toWords key hprogress (Or.inr (Bool.eq_false_iff.mpr hserves)) rfl
    · rename_i hvector
      exact .toWords key hprogress (Or.inl hvector) rfl
  | embedding key index =>
    unfold Inquiry.embed
    dsimp only
    split
    · rename_i vector hsaid
      exact .embedded key index vector hprogress hsaid rfl
    · rename_i reason hsaid
      exact .refused key index reason hprogress hsaid rfl
    · rename_i fault hsaid
      exact .crashed key index fault hprogress hsaid rfl
  | searching key index vector =>
    unfold Inquiry.search
    dsimp only
    split
    · rename_i found hquery
      exact .searched key index vector found hprogress hquery rfl
    · rename_i u hquery
      exact .lost key index vector u hprogress hquery rfl
    · rename_i fault hquery
      exact .unreadable key index vector fault hprogress hquery rfl
  | byWords key => exact .matched key hprogress rfl
  | found key found backend =>
    unfold Inquiry.finish
    dsimp only
    split
    · rename_i results hresults
      exact .finished key found backend results hprogress hresults rfl
    · rename_i fault hresults
      exact .unfinished key found backend fault hprogress hresults rfl
  | ended result =>
    refine .ended result hprogress ?_
    obtain ⟨g, q, progress⟩ := i
    obtain rfl := hprogress
    rfl

theorem advance_eq_with (e : Engine σ) (i : Inquiry) :
    ∃ results monitor database world notices, (i.advance e).2 =
      { e with results := results, monitor := monitor, database := database, world := world,
               notices := notices } := by
  show ∃ results monitor database world notices, (i.step e).2 = _
  cases i.step_move e with
  | remembered results hprogress hget hnext =>
    rw [hnext]
    exact ⟨_, e.monitor, e.database, e.world, e.notices, rfl⟩
  | embedded key index vector hprogress hsaid hnext =>
    rw [hnext]
    exact ⟨e.results, e.monitor, e.database, _, e.notices, rfl⟩
  | refused key index reason hprogress hsaid hnext =>
    rw [hnext]
    exact ⟨e.results, e.monitor, e.database, _, _, rfl⟩
  | crashed key index fault hprogress hsaid hnext =>
    rw [hnext]
    exact ⟨e.results, e.monitor, e.database, _, e.notices, rfl⟩
  | searched key index vector found hprogress hquery hnext =>
    rw [hnext]
    exact ⟨e.results, e.monitor, _, e.world, e.notices, rfl⟩
  | lost key index vector u hprogress hquery hnext =>
    rw [hnext]
    exact ⟨e.results, _, _, e.world, _, rfl⟩
  | unreadable key index vector fault hprogress hquery hnext =>
    rw [hnext]
    exact ⟨e.results, e.monitor, _, e.world, e.notices, rfl⟩
  | finished key found backend results hprogress hresults hnext =>
    rw [hnext]
    exact ⟨_, e.monitor, e.database, e.world, e.notices, rfl⟩
  -- the other steps leave the engine as it is
  | _ =>
    rename_i hnext
    rw [hnext]
    exact ⟨e.results, e.monitor, e.database, e.world, e.notices, rfl⟩

/-! ## The part a build is in -/

/-- Whether a build is still under way. -/
def Stage.isOpen : Stage → Bool
  | .retiring .. | .ended _ => false
  | _ => true

/-- The generation that a build has made and not published yet. -/
def Stage.made? : Stage → Option Generation
  | .storing g _ | .publishing g _ => some g
  | _ => none

/-- The summary that a build is going to return. -/
def Stage.summary? : Stage → Option Summary
  | .aborting (.ok summary) | .retiring _ summary | .ended (.ok summary) => some summary
  | _ => none

/-- What the next step of a build is at the holder, if anything. -/
def Build.event? (b : Build σ) : Option Event :=
  match b.stage with
  | .publishing g _ => some (.publish g)
  | .aborting _ => some (.abort b.number)
  | _ => none

/-- What one step of a build is: one constructor for each thing that can be done. -/
inductive Build.Move (e : Engine σ) (b : Build σ) (place : Nat) (next : Build σ × Engine σ) :
    Prop where
  /-- There is nothing to be done at the place, or at all. -/
  | idle (hquiet : b.event? = none ∧ (b.stage.isOpen = true → b.stage.summary? = none))
      (hnext : next = (b, e))
  | walked (files : List Path) (hstage : b.stage = .walking)
      (hwalk : (Files.walk e.disk e.walkLimits b.root).stopped? = none)
      (hfiles : files = (Files.walk e.disk e.walkLimits b.root).files)
      (hnext : next = ({ b with stage := .reading (files.map .pending) }, (b.walk e).2))
  /-- Of an entry it cannot be told whether it is a directory. -/
  | stopped (obstacle : Files.Disk.Obstacle) (hstage : b.stage = .walking)
      (hwalk : (Files.walk e.disk e.walkLimits b.root).stopped? = some obstacle)
      (hnext : next =
        ({ b with stage := .aborting (.error (.broken (obstacle.trouble.fault obstacle.path))) },
          (b.walk e).2))
  | read (readings : List Reading) (p : Path) (r : Reading) (hstage : b.stage = .reading readings)
      (hplace : readings[place]? = some (.pending p)) (hread : (e.readFile b.root p).1 = .ok r)
      (hnext : next =
        ({ b with stage := .reading (readings.set place r) }, (e.readFile b.root p).2))
  | unread (readings : List Reading) (p : Path) (fault : IndexFault)
      (hstage : b.stage = .reading readings) (hplace : readings[place]? = some (.pending p))
      (hread : (e.readFile b.root p).1 = .error fault)
      (hnext : next = ({ b with stage := .aborting (.error fault) }, (e.readFile b.root p).2))
  /-- It stops, since a later build has begun. -/
  | overtaken (extract : Extract) (embedded : Nat)
      (hstage : (∃ readings, b.stage = .reading readings) ∧ embedded = 0 ∨
        ∃ chunks, b.stage = .gathered extract chunks embedded)
      (hstale : e.holder.isStale b.number = true)
      (hnext : next = ({ b with stage := .aborting (.ok (b.abandoned extract embedded)) }, e))
  | readAll (readings : List Reading) (hstage : b.stage = .reading readings)
      (hdone : ∀ r ∈ readings, r.isPending = false)
      (hnext : next = ({ b with stage := .embedding (Extract.of readings)
                                           ((Extract.of readings).chunks.map Slot.ofChunk) }, e))
  | embed (extract : Extract) (slots : List Slot) (slot : Slot) (embedder : Embedding.Embedder σ)
      (hstage : b.stage = .embedding extract slots) (hplace : slots[place]? = some slot)
      (hembedder : b.pipeline.embedder = some embedder)
      (hnext : next =
        let taken := slot.step embedder b.pipeline.retries b.pipeline.backoff
          (e.holder.isStale b.number) e.vectors e.world
        ({ b with stage := .embedding extract (slots.set place taken.slot) },
          { e with vectors := taken.vectors, world := taken.world }.note taken.notices))
  | crashed (extract : Extract) (slots : List Slot) (fault : Fault)
      (hstage : b.stage = .embedding extract slots)
      (hnext : next = ({ b with stage := .aborting (.error (.broken fault)) }, e))
  /-- All chunks have been gone through, with an embedder or without. -/
  | gathered (extract : Extract) (slots : List Slot) (chunks : List Chunk) (embedded : Nat)
      (hstage : b.stage = .embedding extract slots)
      (hchunks : chunks = extract.chunks ∧ embedded = 0 ∨
        chunks = slots.map (·.result) ∧ embedded = slots.countP (·.isEmbedded))
      (hnext : next = ({ b with stage := .gathered extract chunks embedded }, e))
  /-- A generation is made; its vectors are stored first if there are any and a store serves. -/
  | made (extract : Extract) (chunks : List Chunk) (embedded : Nat) (after : Stage)
      (hstage : b.stage = .gathered extract chunks embedded)
      (hafter : after = .storing (b.generation extract chunks) embedded ∧ embedded ≠ 0 ∧
          e.hasStore = true ∧ e.monitor.available = true ∨
        after = .publishing (b.generation extract chunks) embedded)
      (hnext : next = ({ b with stage := after }, e))
  | store (g : Generation) (embedded : Nat) (hstage : b.stage = .storing g embedded)
      (hnext : next = b.store e g embedded)
  | publish (g : Generation) (embedded : Nat) (hstage : b.stage = .publishing g embedded)
      (hnext : next = b.publish e g embedded)
  | abort (result : Except IndexFault Summary) (hstage : b.stage = .aborting result)
      (hnext : next = ({ b with stage := .ended result }, { e with holder := e.holder.abort }))
  | retire (g : Generation) (old : List Generation) (summary : Summary)
      (hstage : b.stage = .retiring (g :: old) summary)
      (hnext : next = ({ b with stage := .retiring old summary }, e.retire g))
  | retired (summary : Summary) (hstage : b.stage = .retiring [] summary)
      (hnext : next = ({ b with stage := .ended (.ok summary) }, e))

/-- What one step of a build comes to, as far as the holder and the end of the build go. -/
inductive Build.Turn (e : Engine σ) (b : Build σ) (next : Build σ × Engine σ) : Prop where
  /-- It goes on: the holder is untouched, and a summary found now is that of a discarded build. -/
  | working (hopen : b.stage.isOpen = true) (hevent : b.event? = none)
      (hnext : next.1.stage.isOpen = true) (hholder : next.2.holder = e.holder)
      (hmade : ∀ g, next.1.stage.made? = some g → g.number = b.number ∨
        ∃ g', b.stage.made? = some g' ∧ g.number = g'.number)
      (hsummary : ∀ s, next.1.stage.summary? = some s → s.discarded = true)
  | publishing (g : Generation) (embedded : Nat) (hstage : b.stage = .publishing g embedded)
      (hnext : next = b.publish e g embedded)
  | aborting (result : Except IndexFault Summary) (hstage : b.stage = .aborting result)
      (hnext : next = ({ b with stage := .ended result }, { e with holder := e.holder.abort }))
  | closed (hclosed : b.stage.isOpen = false) (hevent : b.event? = none)
      (hnext : next.1.stage.isOpen = false) (hholder : next.2.holder = e.holder)
      (hsummary : next.1.stage.summary? = b.stage.summary?)

/-- Every step of a build is a move. -/
theorem stepAt_move (e : Engine σ) (b : Build σ) (place : Nat) :
    b.Move e place (b.stepAt e place) := by
  unfold Build.stepAt
  cases hstage : b.stage with
  | walking =>
    dsimp only
    cases hwalk : (Files.walk e.disk e.walkLimits b.root).stopped? with
    | none => exact .walked _ hstage hwalk rfl (by rw [Build.walk, hwalk])
    | some obstacle => exact .stopped obstacle hstage hwalk (by rw [Build.walk, hwalk])
  | reading readings =>
    dsimp only
    -- files are read in any order until none is pending
    by_cases hdone : (readings.all fun r => !r.isPending) = true
    · rw [if_pos hdone, Build.afterReading]
      by_cases hstale : e.holder.isStale b.number = true
      · rw [if_pos hstale]
        exact .overtaken _ 0 (Or.inl ⟨⟨readings, hstage⟩, rfl⟩) hstale rfl
      · rw [if_neg hstale]
        refine .readAll readings hstage ?_ rfl
        intro r hr
        simpa using List.all_eq_true.mp hdone r hr
    · rw [if_neg hdone]
      unfold Build.readAt
      split
      · rename_i p hplace
        split
        · rename_i r after hread
          exact .read readings p r hstage hplace (by rw [hread]) (by rw [hread])
        · rename_i fault after hread
          exact .unread readings p fault hstage hplace (by rw [hread]) (by rw [hread])
      · exact .idle ⟨by rw [Build.event?, hstage], fun _ => by rw [hstage]; rfl⟩ rfl
  | embedding extract slots =>
    dsimp only
    split
    · exact .gathered extract slots _ 0 hstage (Or.inl ⟨rfl, rfl⟩) rfl
    · rename_i embedder hembedder
      split
      · unfold afterEmbedding
        split
        · rename_i fault hcrash
          exact .crashed extract slots fault hstage rfl
        · exact .gathered extract slots _ _ hstage (Or.inr ⟨rfl, rfl⟩) rfl
      · unfold Build.embedAt
        split
        · rename_i slot hplace
          exact .embed extract slots slot embedder hstage hplace hembedder rfl
        · exact .idle ⟨by rw [Build.event?, hstage], fun _ => by rw [hstage]; rfl⟩ rfl
  | gathered extract chunks embedded =>
    dsimp only
    unfold Build.afterGathering
    by_cases hstale : e.holder.isStale b.number = true
    · rw [if_pos hstale]
      exact .overtaken extract embedded (Or.inr ⟨chunks, hstage⟩) hstale rfl
    · rw [if_neg hstale]
      split
      · rename_i hserves
        refine .made extract chunks embedded _ hstage (Or.inl ⟨rfl, ?_⟩) rfl
        simpa [and_assoc] using hserves
      · exact .made extract chunks embedded _ hstage (Or.inr rfl) rfl
  | storing g embedded => exact .store g embedded hstage rfl
  | publishing g embedded => exact .publish g embedded hstage rfl
  | aborting result => exact .abort result hstage rfl
  | retiring old summary =>
    cases old with
    | nil => exact .retired summary hstage rfl
    | cons g old => exact .retire g old summary hstage rfl
  | ended result =>
    exact .idle ⟨by rw [Build.event?, hstage], by rw [hstage]; simp [Stage.isOpen]⟩ rfl

/-- A step changes nothing of a build but the part it is in. -/
theorem stepAt_fst_eq_with (e : Engine σ) (b : Build σ) (place : Nat) :
    ∃ stage, (b.stepAt e place).1 = { b with stage := stage } := by
  cases stepAt_move e b place with
  | idle hquiet hnext =>
    rw [hnext]
    exact ⟨b.stage, rfl⟩
  | store g embedded hstage hnext =>
    rw [hnext, Build.store]
    split
    · exact ⟨_, rfl⟩
    · exact ⟨_, rfl⟩
    · exact ⟨_, rfl⟩
  -- the other steps name the part that they lead to
  | _ =>
    rename_i hnext
    rw [hnext]
    exact ⟨_, rfl⟩

theorem stepAt_number (e : Engine σ) (b : Build σ) (place : Nat) :
    (b.stepAt e place).1.number = b.number := by
  obtain ⟨stage, hbuild⟩ := stepAt_fst_eq_with e b place
  rw [hbuild]

theorem stepAt_pipeline (e : Engine σ) (b : Build σ) (place : Nat) :
    (b.stepAt e place).1.pipeline = b.pipeline := by
  obtain ⟨stage, hbuild⟩ := stepAt_fst_eq_with e b place
  rw [hbuild]

theorem stepAt_root (e : Engine σ) (b : Build σ) (place : Nat) :
    (b.stepAt e place).1.root = b.root := by
  obtain ⟨stage, hbuild⟩ := stepAt_fst_eq_with e b place
  rw [hbuild]

/-- The first step of a build is its walk. -/
theorem stepAt_of_walking {b : Build σ} (hstage : b.stage = .walking) (e : Engine σ) (place : Nat) :
    b.stepAt e place = b.walk e := by
  rw [Build.stepAt, hstage]

/-- Storing leads to publishing the same generation, with its vectors or without, or ends the build
with what broke. -/
theorem store_stage (e : Engine σ) (b : Build σ) (g : Generation) (embedded : Nat) :
    (∃ vector, (b.store e g embedded).1.stage = .publishing { g with vector := vector } embedded) ∨
      ∃ fault, (b.store e g embedded).1.stage = .aborting (.error fault) := by
  unfold Build.store
  split
  · exact Or.inl ⟨_, rfl⟩
  · exact Or.inl ⟨g.vector, rfl⟩
  · exact Or.inr ⟨_, rfl⟩

theorem publish_stage (e : Engine σ) (b : Build σ) (g : Generation) (embedded : Nat) :
    (b.publish e g embedded).1.stage =
      .retiring (e.holder.publish g).2.1 (summaryOf g embedded (e.holder.publish g).1) := rfl

/-- No build walks twice. -/
theorem stage_stepAt_ne_walking (e : Engine σ) (b : Build σ) (place : Nat) :
    (b.stepAt e place).1.stage ≠ .walking := by
  by_cases hstage : b.stage = .walking
  · rw [stepAt_of_walking hstage, Build.walk]
    dsimp only
    split <;> simp
  · cases stepAt_move e b place with
    | idle hquiet hnext => rwa [hnext]
    | made extract chunks embedded after hgathered hafter hnext =>
      rw [hnext]
      rcases hafter with ⟨rfl, -⟩ | rfl <;> simp
    | store g embedded hstoring hnext =>
      rw [hnext]
      rcases store_stage e b g embedded with ⟨vector, hafter⟩ | ⟨fault, hafter⟩ <;> simp [hafter]
    | publish g embedded hpublishing hnext => simp [hnext, publish_stage]
    | _ =>
      rename_i hnext
      simp [hnext]

theorem stepAt_turn (e : Engine σ) (b : Build σ) (place : Nat) :
    b.Turn e (b.stepAt e place) := by
  cases stepAt_move e b place with
  -- nothing is done by a build that has ended, and by one that is told a wrong place
  | idle hquiet hnext =>
    rw [hnext]
    cases hopen : b.stage.isOpen with
    | true =>
      refine .working hopen hquiet.1 hopen rfl (fun g hg => Or.inr ⟨g, hg, rfl⟩) ?_
      intro s hs
      rw [hquiet.2 hopen] at hs
      exact absurd hs (by simp)
    | false => exact .closed hopen hquiet.1 hopen rfl rfl
  | walked files hstage hwalk hfiles hnext =>
    rw [hnext]
    exact .working (by rw [hstage]; rfl) (by rw [Build.event?, hstage]) rfl rfl
      (by simp [Stage.made?]) (by simp [Stage.summary?])
  | stopped obstacle hstage hwalk hnext =>
    rw [hnext]
    exact .working (by rw [hstage]; rfl) (by rw [Build.event?, hstage]) rfl rfl
      (by simp [Stage.made?]) (by simp [Stage.summary?])
  | read readings p r hstage hplace hread hnext =>
    obtain ⟨reported, notices, hengine⟩ := readFile_eq_with e b.root p
    rw [hnext, hengine]
    exact .working (by rw [hstage]; rfl) (by rw [Build.event?, hstage]) rfl rfl
      (by simp [Stage.made?]) (by simp [Stage.summary?])
  | unread readings p fault hstage hplace hread hnext =>
    obtain ⟨reported, notices, hengine⟩ := readFile_eq_with e b.root p
    rw [hnext, hengine]
    exact .working (by rw [hstage]; rfl) (by rw [Build.event?, hstage]) rfl rfl
      (by simp [Stage.made?]) (by simp [Stage.summary?])
  | overtaken extract embedded hstage hstale hnext =>
    rw [hnext]
    have hopen : b.stage.isOpen = true := by
      rcases hstage with ⟨⟨readings, hstage⟩, -⟩ | ⟨chunks, hstage⟩ <;> rw [hstage] <;> rfl
    have hevent : b.event? = none := by
      rcases hstage with ⟨⟨readings, hstage⟩, -⟩ | ⟨chunks, hstage⟩ <;> rw [Build.event?, hstage]
    refine .working hopen hevent rfl rfl (by simp [Stage.made?]) ?_
    intro s hs
    obtain rfl := Option.some.inj hs
    rfl
  | readAll readings hstage hdone hnext =>
    rw [hnext]
    exact .working (by rw [hstage]; rfl) (by rw [Build.event?, hstage]) rfl rfl
      (by simp [Stage.made?]) (by simp [Stage.summary?])
  | embed extract slots slot embedder hstage hplace hembedder hnext =>
    rw [hnext]
    exact .working (by rw [hstage]; rfl) (by rw [Build.event?, hstage]) rfl rfl
      (by simp [Stage.made?]) (by simp [Stage.summary?])
  | crashed extract slots fault hstage hnext =>
    rw [hnext]
    exact .working (by rw [hstage]; rfl) (by rw [Build.event?, hstage]) rfl rfl
      (by simp [Stage.made?]) (by simp [Stage.summary?])
  | gathered extract slots chunks embedded hstage hchunks hnext =>
    rw [hnext]
    exact .working (by rw [hstage]; rfl) (by rw [Build.event?, hstage]) rfl rfl
      (by simp [Stage.made?]) (by simp [Stage.summary?])
  | made extract chunks embedded after hstage hafter hnext =>
    rw [hnext]
    rcases hafter with ⟨rfl, -⟩ | rfl
    · refine .working (by rw [hstage]; rfl) (by rw [Build.event?, hstage]) rfl rfl ?_
        (by simp [Stage.summary?])
      intro g hg
      obtain rfl := Option.some.inj hg
      exact Or.inl rfl
    · refine .working (by rw [hstage]; rfl) (by rw [Build.event?, hstage]) rfl rfl ?_
        (by simp [Stage.summary?])
      intro g hg
      obtain rfl := Option.some.inj hg
      exact Or.inl rfl
  -- the number of the generation is kept, whether or not its vectors are stored
  | store g embedded hstage hnext =>
    obtain ⟨database, monitor, notices, hengine⟩ := store_eq_with e b g embedded
    have hholder : (b.store e g embedded).2.holder = e.holder := by rw [hengine]
    rw [hnext]
    rcases store_stage e b g embedded with ⟨vector, hafter⟩ | ⟨fault, hafter⟩
    · refine .working (by rw [hstage]; rfl) (by rw [Build.event?, hstage]) (by rw [hafter]; rfl)
        hholder ?_ (by simp [hafter, Stage.summary?])
      intro g' hg'
      rw [hafter] at hg'
      obtain rfl := Option.some.inj hg'
      exact Or.inr ⟨g, by rw [hstage]; rfl, rfl⟩
    · exact .working (by rw [hstage]; rfl) (by rw [Build.event?, hstage]) (by rw [hafter]; rfl)
        hholder (by simp [hafter, Stage.made?]) (by simp [hafter, Stage.summary?])
  | publish g embedded hstage hnext => exact .publishing g embedded hstage hnext
  | abort result hstage hnext => exact .aborting result hstage hnext
  | retire g old summary hstage hnext =>
    obtain ⟨database, notices, hengine⟩ := retire_eq_with e g
    rw [hnext]
    exact .closed (by rw [hstage]; rfl) (by rw [Build.event?, hstage]) rfl (by rw [hengine])
      (by rw [hstage]; rfl)
  | retired summary hstage hnext =>
    rw [hnext]
    exact .closed (by rw [hstage]; rfl) (by rw [Build.event?, hstage]) rfl rfl
      (by rw [hstage]; rfl)

/-- A step of a build changes nothing of the engine besides these. -/
theorem stepAt_eq_with (e : Engine σ) (b : Build σ) (place : Nat) :
    ∃ holder vectors reported database monitor world notices, (b.stepAt e place).2 =
      { e with holder := holder, vectors := vectors, reported := reported, database := database,
               monitor := monitor, world := world, notices := notices } := by
  cases stepAt_move e b place with
  | walked files hstage hwalk hfiles hnext =>
    rw [hnext]
    exact ⟨e.holder, e.vectors, e.reported, e.database, e.monitor, e.world, _, rfl⟩
  | stopped obstacle hstage hwalk hnext =>
    rw [hnext]
    exact ⟨e.holder, e.vectors, e.reported, e.database, e.monitor, e.world, _, rfl⟩
  | read readings p r hstage hplace hread hnext =>
    obtain ⟨reported, notices, hengine⟩ := readFile_eq_with e b.root p
    rw [hnext, hengine]
    exact ⟨e.holder, e.vectors, _, e.database, e.monitor, e.world, _, rfl⟩
  | unread readings p fault hstage hplace hread hnext =>
    obtain ⟨reported, notices, hengine⟩ := readFile_eq_with e b.root p
    rw [hnext, hengine]
    exact ⟨e.holder, e.vectors, _, e.database, e.monitor, e.world, _, rfl⟩
  | embed extract slots slot embedder hstage hplace hembedder hnext =>
    rw [hnext]
    exact ⟨e.holder, _, e.reported, e.database, e.monitor, _, _, rfl⟩
  | store g embedded hstage hnext =>
    obtain ⟨database, monitor, notices, hengine⟩ := store_eq_with e b g embedded
    rw [hnext, hengine]
    exact ⟨e.holder, e.vectors, e.reported, _, _, e.world, _, rfl⟩
  | publish g embedded hstage hnext =>
    rw [hnext]
    exact ⟨_, e.vectors, e.reported, e.database, e.monitor, e.world, e.notices, rfl⟩
  | abort result hstage hnext =>
    rw [hnext]
    exact ⟨_, e.vectors, e.reported, e.database, e.monitor, e.world, e.notices, rfl⟩
  | retire g old summary hstage hnext =>
    obtain ⟨database, notices, hengine⟩ := retire_eq_with e g
    rw [hnext, hengine]
    exact ⟨e.holder, e.vectors, e.reported, _, e.monitor, e.world, _, rfl⟩
  -- the other steps change only what is known of the build
  | _ =>
    rename_i hnext
    rw [hnext]
    exact ⟨e.holder, e.vectors, e.reported, e.database, e.monitor, e.world, e.notices, rfl⟩

/-- A store that is given up stays given up, for the reason that it was given up for. -/
theorem monitor_markDown {e : Engine σ} (hdown : e.monitor.available = false) (reason : String) :
    (e.markDown reason).monitor = e.monitor := by
  show (e.monitor.markDown reason).1 = e.monitor
  unfold Search.Monitor.markDown
  rw [if_neg (by simp [hdown])]

theorem monitor_stepAt_of_down {e : Engine σ} (hdown : e.monitor.available = false) (b : Build σ)
    (place : Nat) : (b.stepAt e place).2.monitor = e.monitor := by
  cases stepAt_move e b place with
  | read readings p r hstage hplace hread hnext =>
    obtain ⟨reported, notices, hengine⟩ := readFile_eq_with e b.root p
    rw [hnext, hengine]
  | unread readings p fault hstage hplace hread hnext =>
    obtain ⟨reported, notices, hengine⟩ := readFile_eq_with e b.root p
    rw [hnext, hengine]
  | store g embedded hstage hnext =>
    rw [hnext]
    unfold Build.store
    split
    · rfl
    · exact monitor_markDown hdown _
    · rfl
  | retire g old summary hstage hnext =>
    obtain ⟨database, notices, hengine⟩ := retire_eq_with e g
    rw [hnext, hengine]
  | _ =>
    rename_i hnext
    exact congrArg (fun next => next.2.monitor) hnext

theorem monitor_advance_of_down {e : Engine σ} (hdown : e.monitor.available = false) (i : Inquiry) :
    (i.advance e).2.monitor = e.monitor := by
  show (i.step e).2.monitor = e.monitor
  cases i.step_move e with
  | lost key index vector u hprogress hquery hnext =>
    rw [hnext]
    exact monitor_markDown hdown _
  | _ =>
    rename_i hnext
    exact congrArg (fun next => next.2.monitor) hnext

/-- A build that is closed stays closed. -/
theorem isOpen_stepAt {b : Build σ} (h : b.stage.isOpen = false) (e : Engine σ) (place : Nat) :
    (b.stepAt e place).1.stage.isOpen = false := by
  cases stepAt_turn e b place with
  | working hopen hevent hnext hholder hmade hsummary =>
    rw [h] at hopen
    exact absurd hopen Bool.false_ne_true
  | publishing g embedded hstage hnext => rw [hnext, publish_stage]; rfl
  | aborting result hstage hnext => rw [hnext]; rfl
  | closed hclosed hevent hnext hholder hsummary => exact hnext

end CodeSearch.Engine

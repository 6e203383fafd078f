import CodeSearch.Proofs.Engine.Attempts
import CodeSearch.Proofs.Engine.ChunkIds
import CodeSearch.Proofs.Engine.WholeCalls
import CodeSearch.Proofs.Vector.Rows

/-!
What indexing a directory comes to.

Apart from vectors that is settled by the files of the directory (`chunksIn`): in whatever order they
are read, whatever the embedder makes of the chunks, and whether or not a store takes the vectors. Main
statement: a directory indexed with no other build beginning is refused, or breaks on an entry, or
becomes the current generation with these chunks (`indexed_index`). The embedder may refuse any text,
but must not break.
-/
set_option autoImplicit false

namespace CodeSearch

/-- A chunk without its vector. -/
def Chunk.bare (c : Chunk) : Chunk :=
  { c with embedding := none }

/-- An embedder that refuses a text or gives a vector, and never breaks. -/
def Embedding.Embedder.Unbroken {σ : Type} (embedder : Embedding.Embedder σ) : Prop :=
  ∀ text world fault, (embedder.embed text world).1 ≠ .crash fault

namespace Engine

open CodeSearch.Embedding (Slot)
open CodeSearch.Index (Generation Holder)

variable {σ : Type}

/-! ## The ground that engines stand on -/

/-- Two engines that come upon the same files and read them in the same way. -/
structure SameGround (e e' : Engine σ) : Prop where
  settings : e'.settings = e.settings
  parsers : e'.parsers = e.parsers
  homeOf : e'.homeOf = e.homeOf
  disk : e'.disk = e.disk

/-- The files of a directory that are read, or what stops the walk through it. -/
def filesIn (e : Engine σ) (root : Path) : Except IndexFault (List Path) :=
  let walked := Files.walk e.disk e.walkLimits root
  match walked.stopped? with
  | some obstacle => .error (.broken (obstacle.trouble.fault obstacle.path))
  | none => .ok walked.files

/-- The chunks of a directory without their vectors, or what breaks when it is walked through and its
files are read. -/
def chunksIn (e : Engine σ) (root : Path) : Except IndexFault (List Chunk) := do
  let files ← e.filesIn root
  let readings ← files.mapM fun p => (e.readFile root p).1
  return (Extract.of readings).chunks.map Chunk.bare

/-- What a walk leads to: its files are read, or the build breaks. -/
def Stage.ofWalk : Except IndexFault (List Path) → Stage
  | .ok files => .reading (files.map .pending)
  | .error fault => .aborting (.error fault)

theorem walk_stage (e : Engine σ) (b : Build σ) :
    (b.walk e).1.stage = .ofWalk (e.filesIn b.root) := by
  unfold Build.walk filesIn
  dsimp only
  cases (Files.walk e.disk e.walkLimits b.root).stopped? with
  | none => rfl
  | some obstacle => rfl

namespace SameGround

variable {e e' e'' : Engine σ}

theorem refl (e : Engine σ) : SameGround e e :=
  ⟨rfl, rfl, rfl, rfl⟩

theorem symm (h : SameGround e e') : SameGround e' e :=
  ⟨h.settings.symm, h.parsers.symm, h.homeOf.symm, h.disk.symm⟩

theorem trans (h : SameGround e e') (h' : SameGround e' e'') : SameGround e e'' :=
  ⟨h'.settings.trans h.settings, h'.parsers.trans h.parsers, h'.homeOf.trans h.homeOf,
    h'.disk.trans h.disk⟩

theorem rootOf (h : SameGround e e') (path : String) : e'.rootOf path = e.rootOf path := by
  unfold Engine.rootOf
  rw [h.homeOf, h.disk]

theorem readFile (h : SameGround e e') (root p : Path) :
    (e'.readFile root p).1 = (e.readFile root p).1 := by
  unfold Engine.readFile
  dsimp only [Engine.warn, Engine.note]
  rw [h.disk, h.parsers, h.settings]
  cases Files.fileOutcome e.disk e.parsers e.settings.contextRadius root p with
  | error fault => rfl
  | ok found => cases found <;> rfl

theorem filesIn (h : SameGround e e') (root : Path) : e'.filesIn root = e.filesIn root := by
  unfold Engine.filesIn walkLimits
  rw [h.disk, h.settings]

theorem chunksIn (h : SameGround e e') (root : Path) : e'.chunksIn root = e.chunksIn root := by
  unfold Engine.chunksIn
  simp only [h.filesIn, h.readFile]

end SameGround

/-! ## A build that alone takes steps -/

/-- What builds leave as it is. A store that is given up stays given up. -/
structure Leaves (e e' : Engine σ) : Prop where
  ground : SameGround e e'
  embedder : e'.embedder = e.embedder
  results : e'.results = e.results
  down : e.monitor.available = false → e'.monitor = e.monitor

theorem Leaves.refl (e : Engine σ) : Leaves e e :=
  ⟨.refl e, rfl, rfl, fun _ => rfl⟩

theorem Leaves.trans {e e' e'' : Engine σ} (h : Leaves e e') (h' : Leaves e' e'') : Leaves e e'' where
  ground := h.ground.trans h'.ground
  embedder := h'.embedder.trans h.embedder
  results := h'.results.trans h.results
  down hdown := (h'.down (by rw [h.down hdown, hdown])).trans (h.down hdown)

theorem leaves_stepAt (e : Engine σ) (b : Build σ) (place : Nat) : Leaves e (b.stepAt e place).2 := by
  obtain ⟨holder, vectors, reported, database, monitor, world, notices, hengine⟩ :=
    stepAt_eq_with e b place
  refine ⟨?_, ?_, ?_, fun hdown => monitor_stepAt_of_down hdown b place⟩
  · rw [hengine]; exact ⟨rfl, rfl, rfl, rfl⟩
  · rw [hengine]
  · rw [hengine]

/-- Chunks are those of a directory. -/
def Holds (begun : Engine σ) (root : Path) (chunks : List Chunk) : Prop :=
  begun.chunksIn root = .ok (chunks.map Chunk.bare)

/-- A generation is made of the chunks of a directory. It has no vectors if the store was given up when
its build began. -/
structure Makes (begun : Engine σ) (root : Path) (g : Generation) : Prop where
  number : g.number = begun.holder.latest
  chunks : Holds begun root g.chunks
  lexical : g.lexical = .ofChunks g.chunks
  plain : begun.monitor.available = false → g.vector = none

/-- What a file of a directory has come to so far. -/
def ReadsAs (begun : Engine σ) (root p : Path) (r : Reading) : Prop :=
  r = .pending p ∨ (begun.readFile root p).1 = .ok r

/-! ## A directory that is read in steps -/

section Directory

variable {begun e : Engine σ} {root p : Path} {files : List Path} {readings : List Reading}
  {fault : IndexFault}

/-- A walk that comes to an end has found the files of the directory. -/
theorem filesIn_of_walked (hground : SameGround begun e)
    (hwalk : (Files.walk e.disk e.walkLimits root).stopped? = none)
    (hfiles : files = (Files.walk e.disk e.walkLimits root).files) :
    begun.filesIn root = .ok files := by
  rw [← hground.filesIn root, filesIn, hwalk, hfiles]

/-- A walk that is stopped keeps the directory from being read. -/
theorem chunksIn_of_stopped (hground : SameGround begun e) {obstacle : Files.Disk.Obstacle}
    (hwalk : (Files.walk e.disk e.walkLimits root).stopped? = some obstacle) :
    begun.chunksIn root = .error (.broken (obstacle.trouble.fault obstacle.path)) := by
  have hfiles : begun.filesIn root = .error (.broken (obstacle.trouble.fault obstacle.path)) := by
    rw [← hground.filesIn root, filesIn, hwalk]
  unfold chunksIn
  simp only [hfiles, bind, Except.bind]

/-- At first all files are still to be read. -/
theorem readsAs_pending (begun : Engine σ) (root : Path) (files : List Path) :
    List.Forall₂ (ReadsAs begun root) files (files.map .pending) := by
  rw [List.forall₂_map_right_iff]
  exact List.forall₂_same.mpr fun p _ => Or.inl rfl

/-- Files are read in any order, and on any engine with the same ground. -/
theorem readsAs_set (hground : SameGround begun e)
    (hreadings : List.Forall₂ (ReadsAs begun root) files readings) {place : Nat} {r : Reading}
    (hplace : readings[place]? = some (.pending p)) (hread : (e.readFile root p).1 = .ok r) :
    List.Forall₂ (ReadsAs begun root) files (readings.set place r) := by
  refine forall₂_set hreadings hplace ?_
  rintro p' (hpending | hdone)
  · obtain rfl := Reading.pending.inj hpending
    exact Or.inr ((hground.readFile root p).symm.trans hread)
  · exact absurd (isPending_readFile begun root p' hdone) (by simp [Reading.isPending])

/-- What is still to be read is one of the files. -/
theorem mem_of_pending (hreadings : List.Forall₂ (ReadsAs begun root) files readings)
    (hp : .pending p ∈ readings) : p ∈ files := by
  induction hreadings with
  | nil => exact absurd hp List.not_mem_nil
  | cons hfirst _ ih =>
    rcases List.mem_cons.mp hp with rfl | hrest
    · rcases hfirst with hpending | hdone
      · rw [Reading.pending.inj hpending]
        exact List.mem_cons_self
      · exact absurd (isPending_readFile begun root _ hdone) (by simp [Reading.isPending])
    · exact List.mem_cons_of_mem _ (ih hrest)

/-- A file that cannot be read keeps the directory from being read. -/
theorem chunksIn_of_unread (hground : SameGround begun e)
    (hfiles : begun.filesIn root = .ok files)
    (hreadings : List.Forall₂ (ReadsAs begun root) files readings) {place : Nat}
    (hplace : readings[place]? = some (.pending p)) (hread : (e.readFile root p).1 = .error fault) :
    ∃ fault, begun.chunksIn root = .error fault := by
  have hp : p ∈ files := mem_of_pending hreadings (List.mem_of_getElem? hplace)
  cases hall : files.mapM fun p => (begun.readFile root p).1 with
  | error broken =>
    refine ⟨broken, ?_⟩
    unfold chunksIn
    simp only [hfiles, hall, bind, Except.bind]
  | ok readings' =>
    obtain ⟨r, hr⟩ := Vector.exists_mapM_eq_ok_iff.mp ⟨readings', hall⟩ p hp
    rw [← hground.readFile root p, hread] at hr
    cases hr

theorem mapM_of_readsAs (hreadings : List.Forall₂ (ReadsAs begun root) files readings)
    (hdone : ∀ r ∈ readings, r.isPending = false) :
    (files.mapM fun p => (begun.readFile root p).1) = .ok readings := by
  rw [Vector.mapM_eq_ok_iff]
  induction hreadings with
  | nil => exact .nil
  | cons hfirst _ ih =>
    obtain ⟨hfinished, hrest⟩ := List.forall_mem_cons.mp hdone
    refine .cons ?_ (ih hrest)
    rcases hfirst with rfl | hr
    · exact absurd hfinished (by simp [Reading.isPending])
    · exact hr

/-- With all files read the chunks are those of the directory. -/
theorem holds_of_read (hfiles : begun.filesIn root = .ok files)
    (hreadings : List.Forall₂ (ReadsAs begun root) files readings)
    (hdone : ∀ r ∈ readings, r.isPending = false) :
    Holds begun root (Extract.of readings).chunks := by
  unfold Holds chunksIn
  simp only [hfiles, mapM_of_readsAs hreadings hdone, bind, Except.bind]
  rfl

end Directory

/-! ## How far a build has come -/

/-- How far a build has come that alone has taken steps since it began, and what it has made of the
holder. -/
def Build.Stands (begun : Engine σ) (root : Path) (holder : Holder) : Stage → Prop
  | .walking => holder = begun.holder
  | .reading readings =>
    holder = begun.holder ∧ ∃ files, begun.filesIn root = .ok files ∧
      List.Forall₂ (ReadsAs begun root) files readings
  | .embedding extract slots =>
    holder = begun.holder ∧ Holds begun root extract.chunks ∧
      slots.map (·.chunk) = extract.chunks ∧ ∀ s ∈ slots, ∀ fault, s.progress ≠ .crashed fault
  | .gathered _ chunks _ => holder = begun.holder ∧ Holds begun root chunks
  | .storing g _ => holder = begun.holder ∧ Makes begun root g ∧ begun.monitor.available = true
  | .publishing g _ => holder = begun.holder ∧ Makes begun root g
  | .aborting result =>
    holder = begun.holder ∧ (∃ fault, result = .error fault) ∧
      ∃ fault, begun.chunksIn root = .error fault
  | .retiring _ _ | .ended (.ok _) =>
    ∃ g, Makes begun root g ∧ holder = (begun.holder.publish g).2.2
  | .ended (.error _) =>
    holder = begun.holder.abort ∧ ∃ fault, begun.chunksIn root = .error fault

/-- A build that alone has taken steps since it began, with an embedder that does not break. -/
structure Build.Alone (begun e : Engine σ) (b : Build σ) : Prop where
  leaves : Leaves begun e
  number : b.number = begun.holder.latest
  unbroken : ∀ embedder ∈ b.pipeline.embedder, embedder.Unbroken
  stands : Build.Stands begun b.root e.holder b.stage

theorem bare_result (s : Slot) : s.result.bare = s.chunk.bare := by
  unfold Slot.result
  split <;> rfl

/-- An embedder that does not break breaks no slot. -/
theorem uncrashed_slotStep {embedder : Embedding.Embedder σ} (hunbroken : embedder.Unbroken)
    {s : Slot} (h : ∀ fault, s.progress ≠ .crashed fault) (retries : Nat) (backoff : Float)
    (stop : Bool) (vectors : Embedding.Vectors) (world : σ) (fault : Fault) :
    (s.step embedder retries backoff stop vectors world).slot.progress ≠ .crashed fault := by
  obtain ⟨chunk, progress⟩ := s
  cases progress with
  | waiting =>
    simp only [Slot.step]
    split <;> simp
  | admitted =>
    simp only [Slot.step]
    split <;> simp
  | calling attempt =>
    simp only [Slot.step]
    cases houtcome : (embedder.embed chunk.canonicalText world).1 with
    | vector v => simp [Embedding.attemptOutcome]
    | failure reason =>
      simp only [Embedding.attemptOutcome]
      split <;> simp
    | crash broken => exact absurd houtcome (hunbroken _ _ _)
  | received v => simp [Slot.step]
  | embedded v => exact h fault
  | skipped => exact h fault
  | failed => exact h fault
  | crashed broken => exact h fault

namespace Build.Alone

variable {begun e : Engine σ} {b : Build σ}

/-- A build that nobody overtakes is not stale. -/
theorem not_stale (h : b.Alone begun e) (hholder : e.holder = begun.holder) :
    e.holder.isStale b.number = false := by
  rw [hholder, h.number]
  exact bne_self_eq_false _

/-- While the chunks are embedded nothing becomes of a chunk but a vector. -/
theorem stands_embedding (h : b.Alone begun e) {extract : Extract} {slots : List Slot}
    (hstage : b.stage = .embedding extract slots) (place : Nat) :
    Build.Stands begun b.root (b.stepAt e place).2.holder (b.stepAt e place).1.stage := by
  have hstands := h.stands
  rw [hstage] at hstands
  obtain ⟨hholder, hchunks, hslots, hsound⟩ := hstands
  rcases stepAt_embedding hstage e place with ⟨-, hnext⟩ | ⟨embedder, hembedder, hrest⟩
  · rw [hnext]
    exact ⟨hholder, hchunks⟩
  have hunbroken : embedder.Unbroken := h.unbroken embedder hembedder
  rcases hrest with ⟨-, hnext⟩ | hnext
  · -- no slot has crashed, so the chunks are complete
    rw [hnext, afterEmbedding, Embedding.firstCrash_eq_none_iff.mpr hsound]
    refine ⟨hholder, ?_⟩
    rw [Holds] at hchunks ⊢
    rw [hchunks, ← hslots, List.map_map, List.map_map]
    exact congrArg _ (List.map_congr_left fun s _ => (bare_result s).symm)
  · rw [hnext, Build.embedAt]
    cases hplace : slots[place]? with
    | none => rw [hstage]; exact ⟨hholder, hchunks, hslots, hsound⟩
    | some slot =>
      have hslot : slot ∈ slots := List.mem_of_getElem? hplace
      refine ⟨hholder, hchunks, ?_, ?_⟩
      · rw [map_chunk_set hplace (Slot.chunk_step embedder _ _ _ _ _ slot), hslots]
      · intro s hs
        rcases List.mem_or_eq_of_mem_set hs with hold | rfl
        · exact hsound s hold
        · exact uncrashed_slotStep hunbroken (hsound slot hslot) _ _ _ _ _

/-- A step leads on from how far the build has come. -/
theorem stands_stepAt (h : b.Alone begun e) (place : Nat) :
    Build.Stands begun b.root (b.stepAt e place).2.holder (b.stepAt e place).1.stage := by
  by_cases hembedding : ∃ extract slots, b.stage = .embedding extract slots
  · obtain ⟨extract, slots, hstage⟩ := hembedding
    exact h.stands_embedding hstage place
  have hstands := h.stands
  cases stepAt_move e b place with
  | idle hquiet hnext => rw [hnext]; exact hstands
  | walked files hstage hwalk hfiles hnext =>
    rw [hstage] at hstands
    rw [hnext]
    exact ⟨hstands, files, filesIn_of_walked h.leaves.ground hwalk hfiles,
      readsAs_pending begun b.root files⟩
  | stopped obstacle hstage hwalk hnext =>
    rw [hstage] at hstands
    rw [hnext]
    exact ⟨hstands, ⟨_, rfl⟩, _, chunksIn_of_stopped h.leaves.ground hwalk⟩
  | read readings p r hstage hplace hread hnext =>
    obtain ⟨reported, notices, hengine⟩ := readFile_eq_with e b.root p
    rw [hstage] at hstands
    obtain ⟨hholder, files, hfiles, hreadings⟩ := hstands
    rw [hnext, hengine]
    exact ⟨hholder, files, hfiles, readsAs_set h.leaves.ground hreadings hplace hread⟩
  | unread readings p fault hstage hplace hread hnext =>
    obtain ⟨reported, notices, hengine⟩ := readFile_eq_with e b.root p
    rw [hstage] at hstands
    obtain ⟨hholder, files, hfiles, hreadings⟩ := hstands
    rw [hnext, hengine]
    exact ⟨hholder, ⟨fault, rfl⟩,
      chunksIn_of_unread h.leaves.ground hfiles hreadings hplace hread⟩
  | overtaken extract embedded hstage hstale hnext =>
    have hholder : e.holder = begun.holder := by
      rcases hstage with ⟨⟨readings, hstage⟩, -⟩ | ⟨chunks, hstage⟩
      · rw [hstage] at hstands; exact hstands.1
      · rw [hstage] at hstands; exact hstands.1
    rw [h.not_stale hholder] at hstale
    exact absurd hstale (by decide)
  | readAll readings hstage hdone hnext =>
    rw [hstage] at hstands
    obtain ⟨hholder, files, hfiles, hreadings⟩ := hstands
    rw [hnext]
    refine ⟨hholder, holds_of_read hfiles hreadings hdone, ?_, ?_⟩
    · rw [List.map_map]
      exact List.map_id _
    · intro s hs fault
      obtain ⟨c, -, rfl⟩ := List.mem_map.mp hs
      simp [Slot.ofChunk]
  | embed extract slots slot embedder hstage hplace hembedder hnext =>
    exact absurd ⟨extract, slots, hstage⟩ hembedding
  | crashed extract slots fault hstage hnext => exact absurd ⟨extract, slots, hstage⟩ hembedding
  | gathered extract slots chunks embedded hstage hchunks hnext =>
    exact absurd ⟨extract, slots, hstage⟩ hembedding
  | made extract chunks embedded after hstage hafter hnext =>
    rw [hstage] at hstands
    have hmakes : Makes begun b.root (b.generation extract chunks) :=
      ⟨h.number, hstands.2, rfl, fun _ => rfl⟩
    rw [hnext]
    rcases hafter with ⟨rfl, -, -, hserves⟩ | rfl
    · refine ⟨hstands.1, hmakes, ?_⟩
      -- a store that serves now has served when the build began
      by_contra hdown
      have hsame := h.leaves.down (Bool.eq_false_iff.mpr hdown)
      rw [hsame] at hserves
      exact hdown hserves
    · exact ⟨hstands.1, hmakes⟩
  | store g embedded hstage hnext =>
    rw [hstage] at hstands
    obtain ⟨hholder, hmakes, hserves⟩ := hstands
    rw [hnext, Build.store]
    cases hbuild : Vector.VectorIndex.build e.database (e.tableName b.number) g.chunks with
    | ok made =>
      refine ⟨hholder, hmakes.number, hmakes.chunks, hmakes.lexical, fun hdown => ?_⟩
      rw [hserves] at hdown
      exact absurd hdown (by decide)
    | error fault =>
      cases fault with
      | unavailable u => exact ⟨hholder, hmakes⟩
      | data fault => exact absurd hbuild (Vector.build_ne_data _ _ _ _)
  | publish g embedded hstage hnext =>
    rw [hstage] at hstands
    rw [hnext, publish_stage]
    refine ⟨g, hstands.2, ?_⟩
    show (e.holder.publish g).2.2 = _
    rw [hstands.1]
  | abort result hstage hnext =>
    rw [hstage] at hstands
    obtain ⟨hholder, ⟨fault, rfl⟩, hbroken⟩ := hstands
    rw [hnext]
    exact ⟨by rw [← hholder], hbroken⟩
  | retire g old summary hstage hnext =>
    obtain ⟨database, notices, hengine⟩ := retire_eq_with e g
    rw [hstage] at hstands
    rw [hnext, hengine]
    exact hstands
  | retired summary hstage hnext =>
    rw [hstage] at hstands
    rw [hnext]
    exact hstands

theorem stepAt (h : b.Alone begun e) (place : Nat) :
    (b.stepAt e place).1.Alone begun (b.stepAt e place).2 where
  leaves := h.leaves.trans (leaves_stepAt e b place)
  number := (stepAt_number e b place).trans h.number
  unbroken := by rw [stepAt_pipeline]; exact h.unbroken
  stands := by rw [stepAt_root]; exact h.stands_stepAt place

end Build.Alone

/-! ## Whole builds -/

/-- A build that has begun has changed nothing but the holder. -/
theorem alone_begin {e begun : Engine σ} {path : String} {b : Build σ}
    (hbegin : e.begin path = .ok (b, begun))
    (hunbroken : ∀ embedder ∈ e.embedder, embedder.Unbroken) :
    e.rootOf path = .ok b.root ∧ Leaves e begun ∧ begun.holder = e.holder.start.2 ∧
      b.Alone begun begun := by
  obtain ⟨hroot, hb, rfl⟩ := Session.begin_ok hbegin
  refine ⟨hroot, ⟨⟨rfl, rfl, rfl, rfl⟩, rfl, rfl, fun _ => rfl⟩, rfl, .refl _, ?_, ?_, ?_⟩
  · rw [hb]; rfl
  · rw [hb]; exact hunbroken
  · rw [Session.stage_begin hbegin]
    rfl

/-- What a directory that is indexed with no other build beginning leaves behind. -/
inductive Indexed (e : Engine σ) (path : String) (after : Engine σ) : Prop where
  /-- There is no such directory, and nothing is changed. -/
  | refused (fault : IndexFault) (hroot : e.rootOf path = .error fault) (hafter : after = e)
  /-- The walk is stopped, or a file cannot be read. A number is used up for that. -/
  | broken (root : Path) (fault : IndexFault) (hroot : e.rootOf path = .ok root)
      (hbroken : e.chunksIn root = .error fault) (hleaves : Leaves e after)
      (hholder : after.holder = { e.holder with latest := e.holder.latest + 1 })
  /-- There is a new generation. -/
  | made (root : Path) (g : Generation) (hroot : e.rootOf path = .ok root)
      (hchunks : e.chunksIn root = .ok (g.chunks.map Chunk.bare)) (hleaves : Leaves e after)
      (hnumber : g.number = e.holder.latest + 1) (hlexical : g.lexical = .ofChunks g.chunks)
      (hplain : e.monitor.available = false → g.vector = none)
      (hholder : after.holder =
        { e.holder with
          current := some g, previous := e.holder.current, latest := e.holder.latest + 1 })

theorem Indexed.leaves {e after : Engine σ} {path : String} (h : Indexed e path after) :
    Leaves e after := by
  cases h with
  | refused fault hroot hafter => rw [hafter]; exact .refl e
  | broken root fault hroot hbroken hleaves hholder => exact hleaves
  | made root g hroot hchunks hleaves hnumber hlexical hplain hholder => exact hleaves

/-- A directory indexed. -/
theorem indexed_index {e : Engine σ} (hunbroken : ∀ embedder ∈ e.embedder, embedder.Unbroken)
    (path : String) : Indexed e path (e.index undisturbed path).2 := by
  unfold Engine.index
  cases hbegin : e.begin path with
  | error fault =>
    refine .refused fault ?_ rfl
    unfold Engine.begin at hbegin
    cases hroot : e.rootOf path with
    | error found =>
      simp only [hroot, bind, Except.bind, Except.error.injEq] at hbegin
      rw [hbegin]
    | ok root => simp [hroot, bind, Except.bind, pure, Except.pure] at hbegin
  | ok started =>
    obtain ⟨b, begun⟩ := started
    obtain ⟨hroot, hbegun, hholder, halone⟩ := alone_begin hbegin hunbroken
    obtain ⟨b', hended, halone', hsame⟩ := Build.complete_keeps undisturbed
      (P := fun e b' => b'.Alone begun e ∧ b'.root = b.root) (fun _ _ _ h => h)
      (fun e b' h _ => ⟨h.1.stepAt b'.place, (stepAt_root e b' b'.place).trans h.2⟩) begun b
      ⟨halone, rfl⟩
    have hleaves := hbegun.trans halone'.leaves
    have hstands := halone'.stands
    rw [hended, hsame] at hstands
    dsimp only
    cases hresult : (b.complete undisturbed begun).1 with
    | error fault =>
      rw [hresult] at hstands
      obtain ⟨habort, broken, hbroken⟩ := hstands
      refine .broken b.root broken hroot ?_ hleaves ?_
      · rw [← hbroken, hbegun.ground.chunksIn]
      · rw [habort, hholder]
        simp [Holder.start, Holder.abort]
    | ok summary =>
      rw [hresult] at hstands
      obtain ⟨g, hmakes, hpublish⟩ := hstands
      have hnumber : g.number = e.holder.latest + 1 := by
        rw [hmakes.number, hholder]
        rfl
      refine .made b.root g hroot ?_ hleaves hnumber hmakes.lexical ?_ ?_
      · rw [← hbegun.ground.chunksIn]
        exact hmakes.chunks
      · intro hdown
        refine hmakes.plain ?_
        rw [hbegun.down hdown, hdown]
      · rw [hpublish, hholder]
        simp [Holder.start, Holder.publish, hnumber]

end Engine

end CodeSearch

import CodeSearch.Proofs.Engine.ChunkIds
import CodeSearch.Proofs.Vector.Tables

/-!
Vectors of one length.

An embedder whose vectors are of one length gives every chunk of a session a vector of that length,
whether it was asked for it or had it among the vectors that are kept. So a build that comes to
store its vectors has chunks that make a table (`Vector.Storable`).
-/
set_option autoImplicit false

namespace CodeSearch.Chunk

/-- A chunk of a node is not embedded yet, whatever its id. -/
theorem embedding_withIds (earlier : List String) (chunks : List Chunk)
    (h : ∀ c ∈ chunks, c.embedding = none) : ∀ c ∈ withIds earlier chunks, c.embedding = none := by
  -- only the id of a chunk is changed, by the bases before it
  induction chunks generalizing earlier with
  | nil => intro c hc; simp [withIds] at hc
  | cons first rest ih =>
    intro c hc
    rw [withIds] at hc
    rcases List.mem_cons.mp hc with rfl | hrest
    · exact h first List.mem_cons_self
    · exact ih _ (fun d hd => h d (List.mem_cons_of_mem _ hd)) c hrest

theorem embedding_ofParsed (radius : Int) (file : Tree.Parsed) :
    ∀ c ∈ ofParsed radius file, c.embedding = none := by
  unfold ofParsed
  refine embedding_withIds [] _ fun c hc => ?_
  obtain ⟨o, -, ho⟩ := List.mem_flatMap.mp hc
  unfold ofNode at ho
  dsimp only at ho
  split at ho
  · simp at ho
  · obtain ⟨part, -, rfl⟩ := List.mem_map.mp ho
    rfl

end CodeSearch.Chunk

namespace CodeSearch.Engine

open CodeSearch.Embedding (Slot Embedder)
open CodeSearch.Vector (Sized Storable)

variable {σ : Type}

/-! ## Vectors of slots -/

/-- All vectors of an embedder are of one length. -/
def Uniform (n : Nat) (embedder : Embedder σ) : Prop :=
  ∀ text world v, (embedder.embed text world).1 = .vector v → v.length = n

/-- All vectors that are kept are of one length. -/
def KeepsLength (n : Nat) (vectors : Embedding.Vectors) : Prop :=
  ∀ entry ∈ vectors.entries, entry.2.length = n

/-- A slot of a chunk without a vector, which has come to none or to one of a length. -/
structure SlotSized (n : Nat) (s : Slot) : Prop where
  bare : s.chunk.embedding = none
  length : ∀ v, s.progress = .received v ∨ s.progress = .embedded v → v.length = n

theorem SlotSized.ofChunk {n : Nat} {c : Chunk} (h : c.embedding = none) :
    SlotSized n (Slot.ofChunk c) where
  bare := h
  length := Slot.holds_ofChunk _ c

theorem SlotSized.result {n : Nat} {s : Slot} (h : SlotSized n s) {v : List Float}
    (hv : s.result.embedding = some v) : v.length = n := by
  unfold Slot.result at hv
  split at hv
  · rename_i w hprogress
    obtain rfl := Option.some.inj hv
    exact h.length _ (Or.inr hprogress)
  · rw [h.bare] at hv
    exact absurd hv (by simp)

/-- A slot that has come to a vector results in a chunk that is embedded. -/
theorem SlotSized.isEmbedded_result {n : Nat} (hn : 0 < n) {s : Slot} (h : SlotSized n s)
    (hembedded : s.isEmbedded = true) : s.result.isEmbedded = true := by
  unfold Slot.isEmbedded at hembedded
  split at hembedded
  · rename_i v hprogress
    have hlength := h.length v (Or.inr hprogress)
    rw [Slot.result, hprogress]
    cases v with
    | nil => simp at hlength; omega
    | cons x rest => rfl
  · simp at hembedded

/-- A step keeps the length, in the slot and among the vectors that are kept. -/
theorem SlotSized.step {n : Nat} {embedder : Embedder σ} (hembedder : Uniform n embedder)
    {vectors : Embedding.Vectors} (hkeeps : KeepsLength n vectors) {s : Slot} (h : SlotSized n s)
    (retries : Nat) (backoff : Float) (stop : Bool) (world : σ) :
    SlotSized n (s.step embedder retries backoff stop vectors world).slot ∧
      KeepsLength n (s.step embedder retries backoff stop vectors world).vectors := by
  have hholds : s.Holds (·.length = n) := h.length
  obtain ⟨hlength, hkept⟩ :=
    hholds.step embedder retries backoff stop vectors world hembedder hkeeps
  exact ⟨⟨by rw [Slot.chunk_step]; exact h.bare, hlength⟩, hkept⟩

/-! ## Vectors of builds -/

/-- Nothing that was read is embedded. -/
def Bare (readings : List Reading) : Prop :=
  ∀ found, .chunks found ∈ readings → ∀ c ∈ found, c.embedding = none

theorem Bare.extract {readings : List Reading} (h : Bare readings) :
    ∀ c ∈ (Extract.of readings).chunks, c.embedding = none := by
  intro c hc
  unfold Extract.of at hc
  obtain ⟨r, hr, hmem⟩ := List.mem_flatMap.mp hc
  cases r with
  | chunks found => exact h found hr c hmem
  | pending p => simp at hmem
  | skipped s => simp at hmem

theorem embedding_readFile {e : Engine σ} {root p : Path} {found : List Chunk}
    (h : (e.readFile root p).1 = .ok (.chunks found)) : ∀ c ∈ found, c.embedding = none := by
  unfold readFile at h
  dsimp only at h
  split at h
  · simp at h
  · simp at h
  · rename_i made houtcome
    obtain rfl := Reading.chunks.inj (Except.ok.inj h)
    obtain ⟨parsed, -, rfl⟩ := exists_of_fileOutcome houtcome
    exact Chunk.embedding_ofParsed _ parsed

/-- A file that has been read adds nothing that is embedded. -/
theorem Bare.set {readings : List Reading} (h : Bare readings) {e : Engine σ} {root p : Path}
    {r : Reading} (hread : (e.readFile root p).1 = .ok r) (place : Nat) :
    Bare (readings.set place r) := by
  intro found hfound
  rcases List.mem_or_eq_of_mem_set hfound with hold | hnew
  · exact h found hold
  · rw [← hnew] at hread
    exact embedding_readFile hread

/-- What a build has found is of one length, and makes a table if it is to be stored. -/
def Build.Sized (n : Nat) (b : Build σ) : Prop :=
  match b.stage with
  | .reading readings => Bare readings
  | .embedding extract slots =>
    (∀ c ∈ extract.chunks, c.embedding = none) ∧ ∀ s ∈ slots, SlotSized n s
  | .gathered _ chunks embedded =>
    Vector.Sized n chunks ∧ (embedded ≠ 0 → ∃ c ∈ chunks, c.isEmbedded = true)
  | .storing g _ => g.vector = none ∧ Storable n g.chunks
  | _ => True

/-- The chunks that slots have come to are of one length, and if any is counted one of them has a
vector. -/
theorem sized_gathered {n : Nat} (hn : 0 < n) {extract : Extract} {slots : List Slot}
    {chunks : List Chunk} {embedded : Nat} (hbare : ∀ c ∈ extract.chunks, c.embedding = none)
    (hslots : ∀ s ∈ slots, SlotSized n s)
    (hchunks : chunks = extract.chunks ∧ embedded = 0 ∨
      chunks = slots.map (·.result) ∧ embedded = slots.countP (·.isEmbedded)) :
    Vector.Sized n chunks ∧ (embedded ≠ 0 → ∃ c ∈ chunks, c.isEmbedded = true) := by
  rcases hchunks with ⟨rfl, rfl⟩ | ⟨rfl, rfl⟩
  · refine ⟨?_, fun hnone => absurd rfl hnone⟩
    intro c hc v hv
    rw [hbare c hc] at hv
    exact absurd hv (by simp)
  · refine ⟨?_, ?_⟩
    · intro c hc v hv
      obtain ⟨s, hs, rfl⟩ := List.mem_map.mp hc
      exact (hslots s hs).result hv
    · -- at least one slot has come to a vector, which is not empty
      intro hsome
      obtain ⟨s, hs, hembedded⟩ := List.countP_pos_iff.mp (Nat.pos_of_ne_zero hsome)
      exact ⟨s.result, List.mem_map_of_mem hs, (hslots s hs).isEmbedded_result hn hembedded⟩

/-- A step keeps the length, in the build and among the vectors that are kept. -/
theorem Build.Sized.stepAt {n : Nat} (hn : 0 < n) {e : Engine σ} {b : Build σ}
    (huniform : ∀ embedder, b.pipeline.embedder = some embedder → Uniform n embedder)
    (hkeeps : KeepsLength n e.vectors) (h : b.Sized n) (place : Nat) :
    (b.stepAt e place).1.Sized n ∧ KeepsLength n (b.stepAt e place).2.vectors := by
  unfold Build.Sized at h
  cases stepAt_move e b place with
  | idle hquiet hnext => rw [hnext]; exact ⟨h, hkeeps⟩
  | walked files hstage hwalk hfiles hnext =>
    rw [hnext]
    refine ⟨?_, hkeeps⟩
    intro found hfound
    simp at hfound
  | stopped obstacle hstage hwalk hnext => rw [hnext]; exact ⟨trivial, hkeeps⟩
  | read readings p r hstage hplace hread hnext =>
    obtain ⟨reported, notices, hengine⟩ := readFile_eq_with e b.root p
    rw [hstage] at h
    rw [hnext, hengine]
    exact ⟨h.set hread place, hkeeps⟩
  | unread readings p fault hstage hplace hread hnext =>
    obtain ⟨reported, notices, hengine⟩ := readFile_eq_with e b.root p
    rw [hnext, hengine]
    exact ⟨trivial, hkeeps⟩
  | overtaken extract embedded hstage hstale hnext => rw [hnext]; exact ⟨trivial, hkeeps⟩
  | readAll readings hstage hdone hnext =>
    rw [hstage] at h
    rw [hnext]
    refine ⟨⟨Bare.extract h, ?_⟩, hkeeps⟩
    intro s hs
    obtain ⟨c, hc, rfl⟩ := List.mem_map.mp hs
    exact SlotSized.ofChunk (Bare.extract h c hc)
  | embed extract slots slot embedder hstage hplace hembedder hnext =>
    rw [hstage] at h
    rw [hnext]
    obtain ⟨hslot, hkept⟩ := (h.2 slot (List.mem_of_getElem? hplace)).step
      (huniform embedder hembedder) hkeeps b.pipeline.retries b.pipeline.backoff
      (e.holder.isStale b.number) e.world
    refine ⟨⟨h.1, ?_⟩, hkept⟩
    intro s hs
    rcases List.mem_or_eq_of_mem_set hs with hold | rfl
    · exact h.2 s hold
    · exact hslot
  | crashed extract slots fault hstage hnext => rw [hnext]; exact ⟨trivial, hkeeps⟩
  | gathered extract slots chunks embedded hstage hchunks hnext =>
    rw [hstage] at h
    rw [hnext]
    exact ⟨sized_gathered hn h.1 h.2 hchunks, hkeeps⟩
  | made extract chunks embedded after hstage hafter hnext =>
    rw [hstage] at h
    rw [hnext]
    refine ⟨?_, hkeeps⟩
    rcases hafter with ⟨rfl, hsome, -⟩ | rfl
    · exact ⟨rfl, h.1, h.2 hsome⟩
    · exact trivial
  | store g embedded hstage hnext =>
    obtain ⟨database, monitor, notices, hengine⟩ := store_eq_with e b g embedded
    rw [hnext, hengine]
    refine ⟨?_, hkeeps⟩
    rcases store_stage e b g embedded with ⟨vector, hafter⟩ | ⟨fault, hafter⟩
    · rw [Build.Sized, hafter]; exact trivial
    · rw [Build.Sized, hafter]; exact trivial
  | publish g embedded hstage hnext => rw [hnext]; exact ⟨trivial, hkeeps⟩
  | abort result hstage hnext => rw [hnext]; exact ⟨trivial, hkeeps⟩
  | retire g old summary hstage hnext =>
    obtain ⟨database, notices, hengine⟩ := retire_eq_with e g
    rw [hnext, hengine]
    exact ⟨trivial, hkeeps⟩
  | retired summary hstage hnext => rw [hnext]; exact ⟨trivial, hkeeps⟩

/-! ## Vectors of sessions -/

namespace Session

/-- An engine with an embedder whose vectors are of one length and not empty. -/
structure Measured (n : Nat) (e : Engine σ) : Prop where
  positive : 0 < n
  uniform : ∀ embedder, e.embedder = some embedder → Uniform n embedder
  keeps : KeepsLength n e.vectors

/-- An engine that nothing has been asked of yet, with a database in which nothing fails and an
embedder whose vectors are of one length and not empty. -/
structure Steady (n : Nat) (e : Engine σ) : Prop where
  fresh : e.holder = {}
  healthy : e.database.failures = []
  positive : 0 < n
  uniform : ∀ embedder, e.embedder = some embedder → Uniform n embedder
  keeps : KeepsLength n e.vectors

theorem Steady.ofNew {n : Nat} (hn : 0 < n) {embedder : Option (Embedder σ)}
    (huniform : ∀ embedder', embedder = some embedder' → Uniform n embedder')
    {database : Vector.Database} (hhealthy : database.failures = []) (settings : Config.Settings)
    (parsers : Tree.Parsers) (explainer : Option (Explain.Explainer σ)) (hasStore : Bool)
    (session : String) (homeOf : String → Option String) (disk : Files.Disk) (world : σ) :
    Steady n (Engine.new settings parsers embedder explainer hasStore session homeOf database disk
      world) where
  fresh := rfl
  healthy := hhealthy
  positive := hn
  uniform := huniform
  keeps := by intro entry hentry; simp [Engine.new, Lru.empty] at hentry

theorem steady_oneImport : Steady 1 oneImport := by
  unfold oneImport importing
  refine Steady.ofNew Nat.one_pos ?_ rfl _ _ _ _ _ _ _ _
  intro embedder hembedder text world v hv
  obtain rfl := Option.some.inj hembedder
  obtain rfl := Embedding.Outcome.vector.inj hv
  rfl

theorem Steady.measured {n : Nat} {e : Engine σ} (h : Steady n e) : Measured n e :=
  ⟨h.positive, h.uniform, h.keeps⟩

/-- The vectors of a session are of one length. -/
theorem sized_after {n : Nat} {e : Engine σ} (h : Measured n e) (past : List Action) :
    KeepsLength n (after e past).engine.vectors ∧
      ∀ b ∈ (after e past).builds, b.pipeline.embedder = e.embedder ∧ b.Sized n := by
  apply forall_builds_of_vectors h.keeps
  · intro b hstage
    rw [Build.Sized, hstage]
    exact trivial
  · intro e' b place hembedder hkeeps hsized
    apply hsized.stepAt h.positive _ hkeeps place
    exact fun embedder hsome => h.uniform embedder (hembedder ▸ hsome)

end Session

end CodeSearch.Engine

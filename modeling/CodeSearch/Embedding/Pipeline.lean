import CodeSearch.Chunk.Basic
import CodeSearch.Embedding.Basic
import CodeSearch.Lru
import CodeSearch.Notice

/-!
Embedding many chunks.

Each chunk is a slot that goes through steps of its own: it is admitted unless the work is to
stop, looks for its text among the vectors that are kept, asks the embedder until it gets a vector
or has no attempts left, and puts the vector among those kept. Several workers take such steps in
some order; `run` takes all steps of a slot before those of the next one. A refusal costs a chunk
its vector and nothing else. If the embedder breaks, all slots are still gone through, and the
first break is what the whole run comes to.
-/
set_option autoImplicit false

namespace CodeSearch.Embedding

/-- How attempts are made: an embedder, if there is one, how often a failed attempt is made again,
how long is waited before, and how many vectors are kept. -/
structure Pipeline (σ : Type) where
  embedder : Option (Embedder σ)
  retries : Nat
  backoff : Float
  room : Nat

/-- A pipeline as it is asked for; what is below zero counts as zero. -/
def Pipeline.new {σ : Type} (embedder : Option (Embedder σ)) (retries : Int) (backoff : Float)
    (room : Int) : Pipeline σ :=
  ⟨embedder, retries.toNat, if 0.0 < backoff then backoff else 0.0, room.toNat⟩

/-- The vectors that are kept, by the embedder's key and the text. -/
abbrev Vectors := Lru String (List Float)

/-- How far a slot has come. -/
inductive Progress where
  | waiting
  | admitted
  /-- The next attempt, counted from zero. -/
  | calling (attempt : Nat)
  /-- A vector came, and is not kept yet. -/
  | received (v : List Float)
  | embedded (v : List Float)
  /-- The work was stopped before the slot began. -/
  | skipped
  | failed
  | crashed (fault : Fault)

/-- A chunk with how far it has come. -/
structure Slot where
  chunk : Chunk
  progress : Progress

namespace Slot

/-- The slot of a chunk that nothing has been done for. -/
def ofChunk (c : Chunk) : Slot := ⟨c, .waiting⟩

/-- Whether nothing more is done for a slot. -/
def isSettled (s : Slot) : Bool :=
  match s.progress with
  | .embedded _ | .skipped | .failed | .crashed _ => true
  | _ => false

/-- Whether a slot has come to a vector. -/
def isEmbedded (s : Slot) : Bool :=
  match s.progress with
  | .embedded _ => true
  | _ => false

/-- The chunk of a slot, with the vector that it came to. -/
def result (s : Slot) : Chunk :=
  match s.progress with
  | .embedded v => { s.chunk with embedding := some v }
  | _ => s.chunk

/-- The text that is given to the embedder next. -/
def request? (s : Slot) : Option String :=
  match s.progress with
  | .calling _ => some s.chunk.canonicalText
  | _ => none

/-- How many steps a slot can still take. -/
def rank (retries : Nat) (s : Slot) : Nat :=
  match s.progress with
  | .waiting => retries + 5
  | .admitted => retries + 4
  | .calling attempt => retries - attempt + 2
  | .received _ => 1
  | _ => 0

end Slot

variable {σ : Type}

/-- The key of a text among the vectors that are kept. -/
def vectorKey (embedder : Embedder σ) (text : String) : String :=
  embedder.key ++ "||" ++ text

/-- The pause after an attempt that failed: twice as long after each further one. -/
def pauseAfter (backoff : Float) (attempt : Nat) : List Notice :=
  if backoff == 0.0 then [] else [.pause (backoff * Float.ofNat (Nat.pow 2 attempt))]

/-- What a step leaves: the slot, the vectors kept, the world outside, and notices. -/
structure Stepped (σ : Type) where
  slot : Slot
  vectors : Vectors
  world : σ
  notices : List Notice

/-- What one attempt comes to. After a refusal comes the pause before the next attempt, if there
is one. -/
def attemptOutcome (retries : Nat) (backoff : Float) (attempt : Nat) (c : Chunk) :
    Outcome → Progress × List Notice
  | .vector v => (.received v, [])
  | .failure reason =>
    if attempt < retries then (.calling (attempt + 1), pauseAfter backoff attempt)
    else (.failed, [.warning s!"Embedding failed for {c.id}: {reason.message}"])
  | .crash fault => (.crashed fault, [])

/-- One step of a slot; `stop` says whether the work is to stop. -/
def Slot.step (embedder : Embedder σ) (retries : Nat) (backoff : Float) (stop : Bool)
    (vectors : Vectors) (world : σ) (s : Slot) : Stepped σ :=
  let key := vectorKey embedder s.chunk.canonicalText
  match s.progress with
  | .waiting => ⟨{ s with progress := if stop then .skipped else .admitted }, vectors, world, []⟩
  | .admitted =>
    match vectors.get? key with
    | some v => ⟨{ s with progress := .embedded v }, vectors.touch key, world, []⟩
    | none => ⟨{ s with progress := .calling 0 }, vectors, world, []⟩
  | .calling attempt =>
    let (outcome, after) := embedder.embed s.chunk.canonicalText world
    let (progress, said) := attemptOutcome retries backoff attempt s.chunk outcome
    ⟨{ s with progress := progress }, vectors, after, said⟩
  | .received v => ⟨{ s with progress := .embedded v }, vectors.put key v, world, []⟩
  | _ => ⟨s, vectors, world, []⟩

/-- Every step of a slot that is not settled leaves it fewer steps. -/
theorem Slot.rank_step_lt (embedder : Embedder σ) (retries : Nat) (backoff : Float) (stop : Bool)
    (vectors : Vectors) (world : σ) (s : Slot) (h : s.isSettled = false) :
    (s.step embedder retries backoff stop vectors world).slot.rank retries < s.rank retries := by
  obtain ⟨chunk, progress⟩ := s
  cases progress with
  | waiting => simp only [Slot.step]; split <;> simp [Slot.rank]
  | admitted => simp only [Slot.step]; split <;> simp [Slot.rank]
  | calling attempt =>
    simp only [Slot.step]
    cases (embedder.embed chunk.canonicalText world).1 with
    | vector v => simp [attemptOutcome, Slot.rank]
    | crash fault => simp [attemptOutcome, Slot.rank]
    | failure reason =>
      simp only [attemptOutcome]
      split
      · simp only [Slot.rank]; omega
      · simp [Slot.rank]
  | received v => simp [Slot.step, Slot.rank]
  | embedded v => simp [Slot.isSettled] at h
  | skipped => simp [Slot.isSettled] at h
  | failed => simp [Slot.isSettled] at h
  | crashed fault => simp [Slot.isSettled] at h

/-- Whether the work is to stop; asking may change the world outside. -/
abbrev StopSignal (σ : Type) := σ → Bool × σ

/-- A signal that never says stop. -/
def never : StopSignal σ := fun world => (false, world)

/-- All steps of a slot. The signal is asked before the first one. -/
def Slot.settle (embedder : Embedder σ) (retries : Nat) (backoff : Float) (stop : StopSignal σ)
    (vectors : Vectors) (world : σ) (notices : List Notice) (s : Slot) : Stepped σ :=
  if _h : s.isSettled = true then ⟨s, vectors, world, notices⟩
  else
    let (stopped, asked) := match s.progress with
      | .waiting => stop world
      | _ => (false, world)
    let next := s.step embedder retries backoff stopped vectors asked
    Slot.settle embedder retries backoff stop next.vectors next.world (notices ++ next.notices) next.slot
termination_by s.rank retries
decreasing_by exact Slot.rank_step_lt _ _ _ _ _ _ _ (by simpa using _h)

/-- What a run comes to: the chunks, how many of them got a vector, what broke first, and what it
leaves. -/
structure Run (σ : Type) where
  chunks : List Chunk
  embedded : Nat
  fault : Option Fault
  vectors : Vectors
  world : σ
  notices : List Notice

/-- The first break among some slots. -/
def firstCrash (slots : List Slot) : Option Fault :=
  slots.findSome? fun s =>
    match s.progress with
    | .crashed fault => some fault
    | _ => none

/-- The slots of a run one after the other. -/
def settleAll (embedder : Embedder σ) (retries : Nat) (backoff : Float) (stop : StopSignal σ)
    (vectors : Vectors) (world : σ) : List Slot → List Slot × Vectors × σ × List Notice
  | [] => ([], vectors, world, [])
  | s :: rest =>
    let first := s.settle embedder retries backoff stop vectors world []
    let (slots, kept, after, said) :=
      settleAll embedder retries backoff stop first.vectors first.world rest
    (first.slot :: slots, kept, after, first.notices ++ said)

/-- The chunks embedded, as far as the signal lets it. Without an embedder nothing is done. -/
def Pipeline.run (p : Pipeline σ) (stop : StopSignal σ) (vectors : Vectors) (world : σ)
    (chunks : List Chunk) : Run σ :=
  match p.embedder with
  | none => ⟨chunks, 0, none, vectors, world, []⟩
  | some embedder =>
    let (slots, kept, after, said) :=
      settleAll embedder p.retries p.backoff stop vectors world (chunks.map Slot.ofChunk)
    ⟨slots.map (·.result), slots.countP (·.isEmbedded), firstCrash slots, kept, after, said⟩

/-- A text embedded once, without a second attempt and without the vectors that are kept. -/
def Pipeline.embedQuery (p : Pipeline σ) (text : String) (world : σ) : Outcome × σ :=
  match p.embedder with
  | none => (.failure .notConfigured, world)
  | some embedder => embedder.embed text world

end CodeSearch.Embedding

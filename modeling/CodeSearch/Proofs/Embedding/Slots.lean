import CodeSearch.Embedding.Pipeline

/-!
What one step of a slot is.

A slot takes its steps by itself, and what a step can do is said here once (`Slot.Move`). All that a
step keeps follows from that: the chunk, and a progress from which nothing more is done.
-/
set_option autoImplicit false

namespace CodeSearch.Embedding

section

variable {σ : Type} (embedder : Embedder σ) (retries : Nat) (backoff : Float) (stop : Bool)
  (vectors : Vectors) (world : σ) (s : Slot)

/-- What one step of a slot is: one constructor for each thing that can be done. -/
inductive Slot.Move (next : Stepped σ) : Prop where
  | polled (hprogress : s.progress = .waiting)
      (hnext : next =
        ⟨{ s with progress := if stop then .skipped else .admitted }, vectors, world, []⟩)
  /-- A vector is kept for its text. -/
  | kept (v : List Float) (hprogress : s.progress = .admitted)
      (hget : vectors.get? (vectorKey embedder s.chunk.canonicalText) = some v)
      (hnext : next = ⟨{ s with progress := .embedded v },
        vectors.touch (vectorKey embedder s.chunk.canonicalText), world, []⟩)
  | missed (hprogress : s.progress = .admitted)
      (hget : vectors.get? (vectorKey embedder s.chunk.canonicalText) = none)
      (hnext : next = ⟨{ s with progress := .calling 0 }, vectors, world, []⟩)
  /-- The embedder is asked. -/
  | asked (attempt : Nat) (hprogress : s.progress = .calling attempt)
      (hnext : next =
        let said := embedder.embed s.chunk.canonicalText world
        let came := attemptOutcome retries backoff attempt s.chunk said.1
        ⟨{ s with progress := came.1 }, vectors, said.2, came.2⟩)
  | stored (v : List Float) (hprogress : s.progress = .received v)
      (hnext : next = ⟨{ s with progress := .embedded v },
        vectors.put (vectorKey embedder s.chunk.canonicalText) v, world, []⟩)
  | settled (hsettled : s.isSettled = true) (hnext : next = ⟨s, vectors, world, []⟩)

/-- Every step of a slot is a move. -/
theorem Slot.step_move :
    s.Move embedder retries backoff stop vectors world
      (s.step embedder retries backoff stop vectors world) := by
  unfold Slot.step
  cases hprogress : s.progress with
  | waiting => exact .polled hprogress rfl
  | admitted =>
    dsimp only
    split
    · rename_i v hget
      exact .kept v hprogress hget rfl
    · rename_i hget
      exact .missed hprogress hget rfl
  | calling attempt => exact .asked attempt hprogress rfl
  | received v => exact .stored v hprogress rfl
  | embedded v => exact .settled (by rw [Slot.isSettled, hprogress]) rfl
  | skipped => exact .settled (by rw [Slot.isSettled, hprogress]) rfl
  | failed => exact .settled (by rw [Slot.isSettled, hprogress]) rfl
  | crashed fault => exact .settled (by rw [Slot.isSettled, hprogress]) rfl

/-- A step does not change what chunk a slot is for. -/
theorem Slot.chunk_step : (s.step embedder retries backoff stop vectors world).slot.chunk = s.chunk := by
  cases s.step_move embedder retries backoff stop vectors world with
  | polled hprogress hnext => rw [hnext]
  | kept v hprogress hget hnext => rw [hnext]
  | missed hprogress hget hnext => rw [hnext]
  | asked attempt hprogress hnext => rw [hnext]
  | stored v hprogress hnext => rw [hnext]
  | settled hsettled hnext => rw [hnext]

/-- Nothing more is done for a slot that is settled. -/
theorem Slot.step_of_settled (h : s.isSettled = true) :
    s.step embedder retries backoff stop vectors world = ⟨s, vectors, world, []⟩ := by
  unfold Slot.isSettled at h
  unfold Slot.step
  split at h
  · rename_i v hprogress; rw [hprogress]
  · rename_i hprogress; rw [hprogress]
  · rename_i hprogress; rw [hprogress]
  · rename_i fault hprogress; rw [hprogress]
  · exact absurd h (by simp)

/-- A slot is skipped only if the work is to stop when it begins. -/
theorem Slot.ne_skipped_step (hstop : stop = false) (h : s.progress ≠ .skipped) :
    (s.step embedder retries backoff stop vectors world).slot.progress ≠ .skipped := by
  cases s.step_move embedder retries backoff stop vectors world with
  | polled hprogress hnext => rw [hnext, hstop]; simp
  | kept v hprogress hget hnext => rw [hnext]; simp
  | missed hprogress hget hnext => rw [hnext]; simp
  | asked attempt hprogress hnext =>
    rw [hnext]
    dsimp only
    unfold attemptOutcome
    split
    · simp
    · split <;> simp
    · simp
  | stored v hprogress hnext => rw [hnext]; simp
  | settled hsettled hnext => rw [hnext]; exact h

/-! ## Vectors of slots -/

/-- The vector that a slot has come to, if it has, is of a kind. -/
def Slot.Holds (P : List Float → Prop) (s : Slot) : Prop :=
  ∀ v, s.progress = .received v ∨ s.progress = .embedded v → P v

theorem Slot.holds_ofChunk (P : List Float → Prop) (c : Chunk) : (Slot.ofChunk c).Holds P := by
  rintro v (hv | hv)
  · simp [Slot.ofChunk] at hv
  · simp [Slot.ofChunk] at hv

/-- If all vectors of an embedder are of a kind, and all that are kept, they stay so with every step. -/
theorem Slot.Holds.step {P : List Float → Prop} {s : Slot} (h : s.Holds P)
    (hgives : ∀ text world v, (embedder.embed text world).1 = .vector v → P v)
    (hkept : ∀ entry ∈ vectors.entries, P entry.2) :
    (s.step embedder retries backoff stop vectors world).slot.Holds P ∧
      ∀ entry ∈ (s.step embedder retries backoff stop vectors world).vectors.entries, P entry.2 := by
  cases s.step_move embedder retries backoff stop vectors world with
  | polled hprogress hnext =>
    rw [hnext]
    refine ⟨?_, hkept⟩
    intro v hv
    cases stop <;> simp at hv
  -- a vector that is kept is used as it is
  | kept w hprogress hget hnext =>
    rw [hnext]
    refine ⟨?_, fun entry hentry => hkept entry (Lru.mem_of_touch hentry)⟩
    intro v hv
    obtain rfl : w = v := by simpa using hv
    exact hkept _ (Lru.mem_of_get? hget)
  | missed hprogress hget hnext =>
    rw [hnext]
    refine ⟨?_, hkept⟩
    intro v hv
    simp at hv
  -- a new one is of the embedder
  | asked attempt hprogress hnext =>
    rw [hnext]
    refine ⟨?_, hkept⟩
    intro v hv
    dsimp only at hv
    cases houtcome : (embedder.embed s.chunk.canonicalText world).1 with
    | vector w =>
      obtain rfl : w = v := by simpa [houtcome, attemptOutcome] using hv
      exact hgives _ _ _ houtcome
    | failure reason =>
      by_cases hmore : attempt < retries
      · simp [houtcome, attemptOutcome, hmore] at hv
      · simp [houtcome, attemptOutcome, hmore] at hv
    | crash fault => simp [houtcome, attemptOutcome] at hv
  | stored w hprogress hnext =>
    have hw : P w := h w (Or.inl hprogress)
    rw [hnext]
    constructor
    · intro v hv
      obtain rfl : w = v := by simpa using hv
      exact hw
    · intro entry hentry
      rcases Lru.mem_of_put hentry with rfl | hold
      · exact hw
      · exact hkept entry hold
  | settled hsettled hnext => rw [hnext]; exact ⟨h, hkept⟩

end

/-- Nothing has broken exactly if no slot has crashed. -/
theorem firstCrash_eq_none_iff {slots : List Slot} :
    firstCrash slots = none ↔ ∀ s ∈ slots, ∀ fault, s.progress ≠ .crashed fault := by
  rw [firstCrash, List.findSome?_eq_none_iff]
  refine forall₂_congr fun s _ => ?_
  cases s.progress with
  | crashed fault => exact iff_of_false (by simp) fun hnever => hnever fault rfl
  | _ => exact iff_of_true rfl fun fault => by simp

theorem exists_of_firstCrash {slots : List Slot} {fault : Fault}
    (h : firstCrash slots = some fault) : ∃ s ∈ slots, s.progress = .crashed fault := by
  obtain ⟨s, hs, hcrash⟩ := List.exists_of_findSome?_eq_some h
  refine ⟨s, hs, ?_⟩
  split at hcrash
  · rename_i found hprogress
    rw [hprogress, Option.some.inj hcrash]
  · cases hcrash

theorem Slot.isSettled_of_rank {retries : Nat} {s : Slot} (h : s.rank retries = 0) :
    s.isSettled = true := by
  obtain ⟨chunk, progress⟩ := s
  cases progress with
  | waiting => simp [Slot.rank] at h
  | admitted => simp [Slot.rank] at h
  | calling attempt => simp [Slot.rank] at h
  | received v => simp [Slot.rank] at h
  | _ => rfl

end CodeSearch.Embedding

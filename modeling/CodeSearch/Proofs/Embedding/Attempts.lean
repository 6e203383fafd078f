import CodeSearch.Embedding.Pipeline

/-!
What a chunk goes through on the way to its vector.

A slot asks whether the work is to stop, looks among the vectors that are kept, and then asks the
embedder until it is given a vector or has been refused as often as the settings allow. What it
learns there are its signs (`Sign`), the latest one first. How far a slot has come is told by its
signs (`Tells`), whatever other slots and builds do in between, since every step adds the sign of
what it has learnt (`Tells.step`). So a chunk that came through without being skipped was attempted
(`Attempted`): it is without a vector only if none was kept and the embedder refused it each time.
-/
set_option autoImplicit false

namespace CodeSearch.Embedding

variable {σ : Type}

/-! ## Signs -/

/-- What a slot can learn by a step. -/
inductive Sign where
  /-- Whether the work is to stop. -/
  | polled (stop : Bool)
  /-- The vector that is kept for a text, if there is one. -/
  | looked (text : String) (kept : Option (List Float))
  /-- What the embedder says to a text. -/
  | said (text : String) (outcome : Outcome)

/-- What the next step of a slot learns, if anything. -/
def Slot.sign? (embedder : Embedder σ) (stop : Bool) (vectors : Vectors) (world : σ) (s : Slot) :
    Option Sign :=
  let text := s.chunk.canonicalText
  match s.progress with
  | .waiting => some (.polled stop)
  | .admitted => some (.looked text (vectors.get? (vectorKey embedder text)))
  | .calling _ => some (.said text (embedder.embed text world).1)
  | _ => none

/-- The signs of a text that was not stopped, of which no vector was kept, and that the embedder has
refused for some reasons since. -/
def refusals (text : String) (reasons : List Failure) : List Sign :=
  reasons.map (fun reason => .said text (.failure reason)) ++ [.looked text none, .polled false]

/-- An attempt at a text that was made to its end: the signs of it and the vector that it gave. -/
inductive Attempted (retries : Nat) (text : String) : List Sign → Option (List Float) → Prop where
  | kept (v : List Float) : Attempted retries text [.looked text (some v), .polled false] (some v)
  | given (reasons : List Failure) (v : List Float) (henough : reasons.length ≤ retries) :
    Attempted retries text (.said text (.vector v) :: refusals text reasons) (some v)
  | refused (reasons : List Failure) (hall : reasons.length = retries + 1) :
    Attempted retries text (refusals text reasons) none

/-- Which signs lead to which progress. -/
inductive Tells (retries : Nat) (text : String) : Progress → List Sign → Prop where
  | waiting : Tells retries text .waiting []
  | skipped : Tells retries text .skipped [.polled true]
  | admitted : Tells retries text .admitted [.polled false]
  | calling (reasons : List Failure) (hmore : reasons.length ≤ retries) :
    Tells retries text (.calling reasons.length) (refusals text reasons)
  | received (reasons : List Failure) (v : List Float) (henough : reasons.length ≤ retries) :
    Tells retries text (.received v) (.said text (.vector v) :: refusals text reasons)
  | embedded (v : List Float) (signs : List Sign) (hattempted : Attempted retries text signs (some v)) :
    Tells retries text (.embedded v) signs
  | failed (reasons : List Failure) (hall : reasons.length = retries + 1) :
    Tells retries text .failed (refusals text reasons)
  | crashed (fault : Fault) (signs : List Sign) : Tells retries text (.crashed fault) signs

/-! ## Steps -/

/-- An attempt that gave no vector found none among those that are kept, and was refused each time.
-/
theorem Attempted.of_none {retries : Nat} {text : String} {signs : List Sign}
    (h : Attempted retries text signs none) :
    ∃ reasons : List Failure, reasons.length = retries + 1 ∧ signs = refusals text reasons := by
  cases h with
  | refused reasons hall => exact ⟨reasons, hall, rfl⟩

/-- Every step of a slot adds the sign of what it has learnt. -/
theorem Tells.step {retries : Nat} {s : Slot} {signs : List Sign}
    (h : Tells retries s.chunk.canonicalText s.progress signs) (embedder : Embedder σ)
    (backoff : Float) (stop : Bool) (vectors : Vectors) (world : σ) :
    Tells retries s.chunk.canonicalText (s.step embedder retries backoff stop vectors world).slot.progress
      ((s.sign? embedder stop vectors world).toList ++ signs) := by
  obtain ⟨chunk, progress⟩ := s
  dsimp only at h ⊢
  cases h with
  | waiting =>
    cases stop with
    | true => exact .skipped
    | false => exact .admitted
  | admitted =>
    simp only [Slot.step, Slot.sign?]
    cases hkept : vectors.get? (vectorKey embedder chunk.canonicalText) with
    | some v => exact .embedded v _ (.kept v)
    | none => exact .calling [] (Nat.zero_le _)
  | calling reasons hmore =>
    simp only [Slot.step, Slot.sign?]
    cases (embedder.embed chunk.canonicalText world).1 with
    | vector v => exact .received reasons v hmore
    | crash fault => exact .crashed fault _
    | failure reason =>
      -- one refusal more, and the last one if there have been as many as the settings allow
      by_cases hleft : reasons.length < retries
      · rw [attemptOutcome, if_pos hleft]
        exact .calling (reason :: reasons) hleft
      · have hlast : (reason :: reasons).length = retries + 1 := by
          rw [List.length_cons]
          omega
        rw [attemptOutcome, if_neg hleft]
        exact .failed (reason :: reasons) hlast
  | received reasons v henough => exact .embedded v _ (.given reasons v henough)
  | skipped => exact .skipped
  | embedded v signs hattempted => exact .embedded v signs hattempted
  | failed reasons hall => exact .failed reasons hall
  | crashed fault signs => exact .crashed fault signs

/-- A slot that nothing more is done for was skipped, has crashed, or was attempted to the end. -/
theorem Tells.settled {retries : Nat} {s : Slot} {signs : List Sign}
    (h : Tells retries s.chunk.canonicalText s.progress signs) (hbare : s.chunk.embedding = none)
    (hsettled : s.isSettled = true) :
    signs = [.polled true] ∨ (∃ fault, s.progress = .crashed fault) ∨
      Attempted retries s.result.canonicalText signs s.result.embedding := by
  obtain ⟨chunk, progress⟩ := s
  dsimp only at h hbare
  cases h with
  | skipped => exact Or.inl rfl
  | crashed fault signs => exact Or.inr (Or.inl ⟨fault, rfl⟩)
  | embedded v signs hattempted => exact Or.inr (Or.inr hattempted)
  | failed reasons hall =>
    refine Or.inr (Or.inr ?_)
    show Attempted retries chunk.canonicalText (refusals _ reasons) chunk.embedding
    rw [hbare]
    exact .refused reasons hall
  | waiting => simp [Slot.isSettled] at hsettled
  | admitted => simp [Slot.isSettled] at hsettled
  | calling reasons hmore => simp [Slot.isSettled] at hsettled
  | received reasons v henough => simp [Slot.isSettled] at hsettled

end CodeSearch.Embedding

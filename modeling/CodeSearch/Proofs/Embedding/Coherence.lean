import CodeSearch.Proofs.Embedding.Workbench

/-!
What runs come to when the embedder is a function of the text.

If the embedder does the same with a text every time, then it does not matter who asks it. Every vector
that is kept is the one of the text that its key is of (`Coherent`), since a vector is only put under
the key of the text that it was given for, and forgetting others does not change it. So a slot comes to
what the embedder says of its text, whether it asks the embedder or finds what another slot, another
run or an earlier one has left (`Workbench.Sound`). What else is done in between, how many slots race
for the same text, and how few vectors there is room for, does not change what a run comes to
(`embedded_as_said`).
-/
set_option autoImplicit false

namespace CodeSearch.Embedding

variable {σ : Type}

/-- The embedder does the same with a text every time: it gives the vector that the text has, or
refuses a text that has none. -/
def Embedder.Says (embedder : Embedder σ) (f : String → Option (List Float)) : Prop :=
  ∀ text world,
    match f text with
    | some v => (embedder.embed text world).1 = .vector v
    | none => ∃ reason, (embedder.embed text world).1 = .failure reason

/-- Texts are told apart by their keys. -/
theorem vectorKey_inj {embedder : Embedder σ} {text other : String} :
    vectorKey embedder text = vectorKey embedder other ↔ text = other :=
  String.append_right_inj _

/-- What is kept for a text is its vector. -/
def Coherent (embedder : Embedder σ) (f : String → Option (List Float)) (vectors : Vectors) : Prop :=
  ∀ text v, vectors.get? (vectorKey embedder text) = some v → f text = some v

/-- What a slot came to so far is what is said of its text. -/
def Slot.Sound (f : String → Option (List Float)) (s : Slot) : Prop :=
  match s.progress with
  | .received v | .embedded v => f s.chunk.canonicalText = some v
  | .failed => f s.chunk.canonicalText = none
  | .crashed _ => False
  | _ => True

variable {embedder : Embedder σ} {f : String → Option (List Float)}

/-! ## What a step keeps -/

namespace Coherent

variable {vectors : Vectors} {text : String} {v : List Float}

theorem empty (room : Nat) : Coherent embedder f (Lru.empty room) := by
  intro text v h
  exact absurd h (by simp [Lru.empty, Lru.get?])

theorem put (h : Coherent embedder f vectors) (hsaid : f text = some v) :
    Coherent embedder f (vectors.put (vectorKey embedder text) v) := by
  intro other found hfound
  rcases Lru.get?_put hfound with ⟨hkey, rfl⟩ | hold
  · rw [vectorKey_inj.mp hkey, hsaid]
  · exact h other found hold

theorem touch (h : Coherent embedder f vectors) (key : String) :
    Coherent embedder f (vectors.touch key) :=
  fun other found hfound => h other found (Lru.get?_touch hfound)

end Coherent

/-- A slot and the vectors that are kept stay as the embedder says. -/
theorem Slot.sound_step (hfaithful : embedder.Says f) (retries : Nat) (backoff : Float) (stop : Bool)
    {vectors : Vectors} (world : σ) {s : Slot} (hvectors : Coherent embedder f vectors)
    (hs : s.Sound f) :
    (s.step embedder retries backoff stop vectors world).slot.Sound f ∧
      Coherent embedder f (s.step embedder retries backoff stop vectors world).vectors := by
  cases s.step_move embedder retries backoff stop vectors world with
  | polled hprogress hnext =>
    rw [hnext]
    refine ⟨?_, hvectors⟩
    cases stop with
    | true => trivial
    | false => trivial
  | kept v hprogress hget hnext =>
    rw [hnext]
    exact ⟨hvectors _ v hget, hvectors.touch _⟩
  | missed hprogress hget hnext =>
    rw [hnext]
    exact ⟨trivial, hvectors⟩
  | asked attempt hprogress hnext =>
    rw [hnext]
    refine ⟨?_, hvectors⟩
    have hsaid := hfaithful s.chunk.canonicalText world
    dsimp only
    cases hf : f s.chunk.canonicalText with
    | some v =>
      rw [hf] at hsaid
      dsimp only at hsaid
      rw [hsaid]
      exact hf
    | none =>
      rw [hf] at hsaid
      obtain ⟨reason, hreason⟩ := hsaid
      rw [hreason, attemptOutcome]
      split
      · trivial
      · exact hf
  | stored v hprogress hnext =>
    have hsaid : f s.chunk.canonicalText = some v := by
      rwa [Slot.Sound, hprogress] at hs
    rw [hnext]
    exact ⟨hsaid, hvectors.put hsaid⟩
  | settled hsettled hnext =>
    rw [hnext]
    exact ⟨hs, hvectors⟩

/-! ## What a history keeps -/

namespace Workbench

/-- All vectors that are kept, and all slots, are as the embedder says. -/
structure Sound (embedder : Embedder σ) (f : String → Option (List Float)) (w : Workbench σ) : Prop where
  vectors : Coherent embedder f w.vectors
  slots : ∀ run place s, w.slot? run place = some s → s.Sound f

variable (p : Pipeline σ)

theorem Sound.step {w : Workbench σ} (h : w.Sound embedder f) (hfaithful : embedder.Says f) (a : Act) :
    (w.step p embedder a).Sound embedder f := by
  cases step_move p embedder w a with
  | idle hask hnext => rwa [hnext]
  | begins chunks ha hask hnext =>
    rw [hnext]
    refine ⟨h.vectors, fun run place s hslot => ?_⟩
    obtain ⟨slots, hrun, hplace⟩ := Option.bind_eq_some_iff.mp hslot
    dsimp only at hrun
    rw [List.getElem?_append] at hrun
    split at hrun
    · exact h.slots run place s (by rw [slot?, hrun]; exact hplace)
    · -- a slot of the run that begins
      obtain rfl := List.mem_singleton.mp (List.mem_of_getElem? hrun)
      obtain ⟨c, -, rfl⟩ := List.mem_map.mp (List.mem_of_getElem? hplace)
      trivial
  | turns run place stop s ha hslot hask hnext =>
    obtain ⟨hsound, hvectors⟩ := Slot.sound_step hfaithful p.retries p.backoff stop w.world h.vectors
      (h.slots run place s hslot)
    rw [hnext]
    refine ⟨hvectors, fun run' place' s' hslot' => ?_⟩
    dsimp only at hslot'
    rw [slot?_modify w hslot] at hslot'
    split at hslot'
    · obtain rfl := Option.some.inj hslot'
      exact hsound
    · exact h.slots run' place' s' hslot'
  | queries text ha hask hnext =>
    rw [hnext]
    exact ⟨h.vectors, h.slots⟩
  | clears ha hask hnext =>
    rw [hnext]
    exact ⟨.empty _, h.slots⟩

/-- In every history, the vectors that are kept and the slots are as the embedder says. -/
theorem sound_after (hfaithful : embedder.Says f) (world : σ) (acts : List Act) :
    (after p embedder world acts).Sound embedder f := by
  induction acts with
  | nil => exact ⟨.empty _, fun run place s hslot => by simp [after, slot?] at hslot⟩
  | cons a past ih => exact ih.step p hfaithful a

end Workbench

/-! ## What a run comes to -/

/-- A slot that nothing more is done for has come to what the embedder says of its text, unless it was
skipped. -/
theorem Slot.Sound.answers {s : Slot} (h : s.Sound f) (hsettled : s.isSettled = true)
    (hne : s.progress ≠ .skipped) (hbare : s.chunk.embedding = none) : s.Answers f := by
  unfold Slot.Sound at h
  unfold Slot.isSettled at hsettled
  cases hprogress : s.progress with
  | embedded v =>
    rw [hprogress] at h
    exact .vector v hprogress h
  | failed =>
    rw [hprogress] at h
    exact .none hprogress hbare h
  | skipped => exact absurd hprogress hne
  | crashed fault =>
    rw [hprogress] at h
    exact h.elim
  | waiting => simp [hprogress] at hsettled
  | admitted => simp [hprogress] at hsettled
  | calling attempt => simp [hprogress] at hsettled
  | received v => simp [hprogress] at hsettled

namespace Workbench

variable (p : Pipeline σ)

/-- Whatever is done in between, a slot of a run that is not to stop comes to what the embedder says of
its text. -/
theorem answers_of_settled (hfaithful : embedder.Says f) (world : σ) {past later : List Act}
    {chunks : List Chunk} (hbare : ∀ c ∈ chunks, c.embedding = none)
    (hstop : ∀ place, Act.turn (after p embedder world past).runs.length place true ∉ later)
    {place : Nat} {s : Slot}
    (hslot : (after p embedder world (later ++ .begin chunks :: past)).slot?
      (after p embedder world past).runs.length place = some s)
    (hsettled : s.isSettled = true) : s.Answers f := by
  have hplace := chunk_of_slot? hslot
  obtain ⟨s', hslot', hne⟩ := ne_skipped_of_run p embedder world past hplace later (hstop place)
  obtain rfl : s = s' := Option.some.inj (hslot.symm.trans hslot')
  exact ((sound_after p hfaithful world _).slots _ place s hslot).answers hsettled hne
    (hbare _ (List.mem_of_getElem? hplace))

/-- A run that is not to stop gives each chunk the vector that the embedder says of its text, or none
where it refuses the text, and counts the chunks that have one. This holds in every history and under
every schedule, also of the run that takes one chunk after the other; and the run has come to its end
as soon as each chunk has had as many turns as there can be steps. -/
theorem embedded_as_said (hfaithful : embedder.Says f) (hp : p.embedder = some embedder) (world : σ)
    (past later : List Act) {chunks : List Chunk} (hbare : ∀ c ∈ chunks, c.embedding = none)
    (hstop : ∀ place, Act.turn (after p embedder world past).runs.length place true ∉ later) :
    let found := chunks.map (embeddedBy f)
    let number := found.countP (·.embedding.isSome)
    let before := after p embedder world past
    let run := before.runs.length
    let w := after p embedder world (later ++ .begin chunks :: past)
    (∀ result, w.ending? run = some result → result = .ok (found, number)) ∧
      ((∀ place < chunks.length, p.retries + 5 ≤ later.countP (·.isTurn run place)) →
        (w.ending? run).isSome = true) ∧
      let ran := p.run never before.vectors before.world chunks
      ran.chunks = found ∧ ran.embedded = number ∧ ran.fault = none := by
  intro found number before run w
  refine ⟨fun result hending => ?_, ending?_isSome_of_turns, ?_⟩
  · exact ending?_eq_of_answers
      (fun place s hslot hsettled => answers_of_settled p hfaithful world hbare hstop hslot hsettled) hending
  · refine run_eq_of_answers hp fun turns hall place s hslot hsettled =>
      answers_of_settled p hfaithful world hbare (fun place' hmem => ?_) hslot hsettled
    obtain ⟨other, hother⟩ := hall _ hmem
    cases hother

/-! ### Equal texts at once -/

/-- Of the texts in sight one is refused. -/
def refusing (text : String) : Option (List Float) :=
  if text = (named "refused").canonicalText then none else some [1.0]

/-- An embedder that counts how often it was asked. -/
def counting : Embedder Nat where
  key := "counting"
  dimension := 1
  embed text n :=
    match refusing text with
    | some v => (.vector v, n + 1)
    | none => (.failure .noTokens, n + 1)

theorem counting_says : counting.Says refusing := by
  intro text n
  cases h : refusing text with
  | some v => simp [counting, h]
  | none => exact ⟨.noTokens, by simp [counting, h]⟩

/-- One attempt more after a refusal, and room for a single vector. -/
def narrow : Pipeline Nat := ⟨some counting, 1, 0.0, 1⟩

/-- Two slots ask for the same text at once, which costs an earlier run its vector, and a third one is
refused twice. -/
theorem embedded_as_said_race :
    (after narrow counting 0
        (inTurn 1 6 ++ .begin [named "a", named "a", named "refused"] ::
          (inTurn 0 6 ++ [.begin [named "b"]]))).ending? 1 =
      some (.ok ([{ named "a" with embedding := some [1.0] },
        { named "a" with embedding := some [1.0] }, named "refused"], 2)) := by
  have hlength : (after narrow counting 0 (inTurn 0 6 ++ [.begin [named "b"]])).runs.length = 1 := by
    decide +kernel
  have hbare : ∀ c ∈ [named "a", named "a", named "refused"], c.embedding = none := by decide
  have hcame := embedded_as_said narrow counting_says rfl 0 (inTurn 0 6 ++ [.begin [named "b"]])
    (inTurn 1 6) hbare (fun place hmem => by
      obtain ⟨other, hother⟩ := turn_of_mem_inTurn hmem
      rw [hlength] at hother
      cases hother)
  dsimp only at hcame
  rw [hlength] at hcame
  obtain ⟨result, hresult⟩ := Option.isSome_iff_exists.mp (hcame.2.1 (by decide))
  rw [hresult, hcame.1 result hresult]
  have ha : refusing (named "a").canonicalText = some [1.0] := if_neg (by decide +kernel)
  have hrefused : refusing (named "refused").canonicalText = none := if_pos rfl
  simp only [List.map_cons, List.map_nil, embeddedBy, ha, hrefused]
  rfl

end Workbench

end CodeSearch.Embedding

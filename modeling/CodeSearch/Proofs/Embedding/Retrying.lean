import CodeSearch.Proofs.Decimal.Order
import CodeSearch.Proofs.Embedding.Course
import CodeSearch.Proofs.Embedding.Workbench

/-!
How often the embedder is asked.

A run takes one chunk after the other, and what it comes to is put together of what each of them comes
to (`run_in_turn`). A chunk begins with what the chunks before it have left: the vectors that are kept, and
the world. It does not begin with their refusals, since a chunk that was refused leaves the vectors as they
were, and its attempts are counted for itself. So it is asked for as often as it takes, or as often as the
settings allow, and each time but the first there is a pause before, twice as long as the last one
(`asked_as_needed`).
-/
set_option autoImplicit false

namespace CodeSearch.Embedding

open Workbench (named)

variable {σ : Type}

/-! ## Runs -/

section

variable {p : Pipeline σ} {embedder : Embedder σ} (stop : StopSignal σ) (vectors : Vectors) (world : σ)

/-- A chunk does not crash with an embedder that never breaks. -/
theorem Gone.ne_crashed {retries : Nat} {backoff : Float} {stopped : Bool} {c : Chunk}
    {happenings : List Happening} {progress : Progress} {vectors vectors' : Vectors} {world world' : σ}
    (h : Gone embedder retries backoff stopped vectors world c happenings progress vectors' world')
    (hunbroken : ∀ text world fault, (embedder.embed text world).1 ≠ .crash fault) (fault : Fault) :
    progress ≠ .crashed fault := by
  cases h with
  | crashed n fault hstop hget henough hrefused hbroken => exact absurd hbroken (hunbroken _ _ fault)
  | _ => simp

/-- A run does not break with an embedder that never breaks. -/
theorem fault_run (hp : p.embedder = some embedder)
    (hunbroken : ∀ text world fault, (embedder.embed text world).1 ≠ .crash fault)
    (chunks : List Chunk) : (p.run stop vectors world chunks).fault = none := by
  induction chunks generalizing vectors world with
  | nil =>
    rw [Pipeline.run, hp]
    rfl
  | cons c rest ih =>
    obtain ⟨progress, vectors', world', hgone, hsettle⟩ :=
      gone_ofChunk embedder p.retries p.backoff stop vectors world c
    have hfirst : firstCrash [(⟨c, progress⟩ : Slot)] = none :=
      firstCrash_eq_none_iff.mpr fun s hs fault => by
        rw [List.mem_singleton.mp hs]
        exact hgone.ne_crashed hunbroken fault
    rw [← List.singleton_append, run_append, run_singleton hp, hsettle]
    dsimp only
    rw [hfirst, ih]
    rfl

/-- What a run comes to is what its first chunks come to, what the next one comes to with what these have
left, and what the others come to after it. -/
theorem run_in_turn (hp : p.embedder = some embedder)
    (hunbroken : ∀ text world fault, (embedder.embed text world).1 ≠ .crash fault)
    (before : List Chunk) (c : Chunk) (behind : List Chunk) :
    let earlier := p.run stop vectors world before
    let turn := (Slot.ofChunk c).settle embedder p.retries p.backoff stop earlier.vectors earlier.world []
    let later := p.run stop turn.vectors turn.world behind
    p.run stop vectors world (before ++ c :: behind) =
      ⟨earlier.chunks ++ turn.slot.result :: later.chunks,
        earlier.embedded + ((if turn.slot.isEmbedded then 1 else 0) + later.embedded), none,
        later.vectors, later.world, earlier.notices ++ (turn.notices ++ later.notices)⟩ := by
  intro earlier turn later
  have hall := run_append p stop vectors world before ([c] ++ behind)
  dsimp only at hall
  rw [run_append p stop _ _ [c] behind, run_singleton hp] at hall
  -- what broke first in the parts is what broke first in the whole, and that is nothing
  have hfault := fault_run stop vectors world hp hunbroken (before ++ ([c] ++ behind))
  rw [hall] at hfault
  dsimp only at hall hfault
  rw [hfault] at hall
  exact hall

end

/-! ## Pauses and calls -/

/-- A pipeline pauses if it is to pause for longer than nothing, twice as long after each refusal. -/
theorem pauseAfter_new (embedder : Option (Embedder σ)) (retries room : Int) (backoff : Float)
    (attempt : Nat) :
    pauseAfter (Pipeline.new embedder retries backoff room).backoff attempt =
      if 0.0 < backoff then [.pause (backoff * Float.ofNat (2 ^ attempt))] else [] := by
  rw [Pipeline.new]
  by_cases hpauses : 0.0 < backoff
  · obtain ⟨hzero, hnumber⟩ := Decimal.isNumber_of_lt hpauses
    have hne : (backoff == 0.0) ≠ true := by
      rw [ne_eq, Decimal.beq_iff_place_eq hnumber hzero]
      have hplace := (Decimal.lt_iff_place_lt hzero hnumber).mp hpauses
      omega
    simp only [if_pos hpauses]
    rw [pauseAfter, if_neg hne]
    rfl
  · have heq : ((0.0 : Float) == 0.0) = true := by decide +kernel
    simp only [if_neg hpauses]
    rw [pauseAfter, if_pos heq]

/-- Whether the embedder is asked. -/
def Happening.isCall : Happening → Bool
  | .learnt (.said _ _) => true
  | _ => false

/-- How often the embedder is asked. -/
def calls (happened : List Happening) : Nat :=
  happened.countP (·.isCall)

theorem calls_attempts (embedder : Embedder σ) (backoff : Float) (text : String) (world : σ) (n : Nat) :
    calls (attempts embedder backoff text world n) = n := by
  induction n with
  | zero => rfl
  | succ n ih =>
    have hpause : calls ((pauseBefore backoff n).map .noticed) = 0 :=
      List.countP_eq_zero.mpr fun happening hmem => by
        obtain ⟨notice, -, rfl⟩ := List.mem_map.mp hmem
        exact Bool.false_ne_true
    rw [calls] at ih hpause
    rw [attempts_succ, calls, List.countP_append, List.countP_append, ih, hpause]
    rfl

/-- A chunk for which no vector is kept costs as many calls as it takes to be given one, or as many as
there may be. -/
theorem Gone.calls_eq {embedder : Embedder σ} {retries : Nat} {backoff : Float} {c : Chunk}
    {happenings : List Happening} {progress : Progress} {vectors vectors' : Vectors} {world world' : σ}
    (h : Gone embedder retries backoff false vectors world c happenings progress vectors' world')
    (hunbroken : ∀ text world fault, (embedder.embed text world).1 ≠ .crash fault)
    (hnone : vectors.get? (vectorKey embedder c.canonicalText) = none) {n : Nat}
    (hfirst : ∀ i < n, ∃ reason, embedder.answer c.canonicalText world i = .failure reason)
    (hn : (∃ v, embedder.answer c.canonicalText world n = .vector v) ∨ retries < n) :
    calls happenings = min (n + 1) (retries + 1) := by
  cases h with
  | skipped hstop => cases hstop
  | kept v hstop hget =>
    rw [hnone] at hget
    cases hget
  | given m v hstop hget henough hrefused hgiven =>
    -- there is only one first vector
    have hsame : n = m := by
      rcases Nat.lt_trichotomy n m with hless | heq | hmore
      · obtain ⟨reason, hreason⟩ := hrefused n hless
        rcases hn with ⟨w, hw⟩ | hlate
        · rw [hreason] at hw
          cases hw
        · omega
      · exact heq
      · obtain ⟨reason, hreason⟩ := hfirst m hmore
        rw [hgiven] at hreason
        cases hreason
    have hcalls := calls_attempts embedder backoff c.canonicalText world (m + 1)
    rw [hsame, Nat.min_eq_left (by omega)]
    exact hcalls
  | refused last hstop hget hrefused hlast =>
    have hlate : retries < n := by
      rcases hn with ⟨w, hw⟩ | hlate
      · by_contra hearly
        obtain ⟨reason, hreason⟩ := hrefused n (by omega)
        rw [hw] at hreason
        cases hreason
      · exact hlate
    have hcalls := calls_attempts embedder backoff c.canonicalText world (retries + 1)
    rw [calls] at hcalls
    rw [Nat.min_eq_right (by omega), calls, List.countP_cons_of_neg (by simp [Happening.isCall]),
      List.countP_cons_of_neg (by simp [Happening.isCall]), List.countP_append, hcalls]
    rfl
  | crashed m fault hstop hget henough hrefused hbroken => exact absurd hbroken (hunbroken _ _ fault)

/-- Every chunk of a run is gone through from what the chunks before it have left, whether these were
refused or not, and so are the chunks behind it. Of a text that is kept the embedder is not asked, and
there is no pause. Of another it is asked until it gives a vector, at most once more than there may be
further attempts, with a pause before each attempt but the first, which begins at the length that was
asked for and doubles each time. The chunk gets the first vector, or there is one warning, and the chunk
and the vectors that are kept stay as they are. -/
theorem asked_as_needed (embedder : Embedder σ)
    (hunbroken : ∀ text world fault, (embedder.embed text world).1 ≠ .crash fault)
    (retries : Int) (backoff : Float) (room : Int) (stop : StopSignal σ) (vectors : Vectors) (world : σ)
    (before : List Chunk) (c : Chunk) (behind : List Chunk) :
    let p := Pipeline.new (some embedder) retries backoff room
    let earlier := p.run stop vectors world before
    let polled := stop earlier.world
    let happened := (Slot.ofChunk c).course embedder p.retries p.backoff stop earlier.vectors earlier.world
    let turn := (Slot.ofChunk c).settle embedder p.retries p.backoff stop earlier.vectors earlier.world []
    let later := p.run stop turn.vectors turn.world behind
    p.run stop vectors world (before ++ c :: behind) =
        ⟨earlier.chunks ++ turn.slot.result :: later.chunks,
          earlier.embedded + ((if turn.slot.isEmbedded then 1 else 0) + later.embedded), none,
          later.vectors, later.world,
          earlier.notices ++ (happened.filterMap (·.notice?) ++ later.notices)⟩ ∧
      turn.slot.chunk = c ∧
      Gone embedder retries.toNat p.backoff polled.1 earlier.vectors polled.2 c happened
        turn.slot.progress turn.vectors turn.world ∧
      (∀ fault, turn.slot.progress ≠ .crashed fault) ∧
      (polled.1 = false → earlier.vectors.get? (vectorKey embedder c.canonicalText) = none →
        ∀ n, (∀ i < n, ∃ reason, embedder.answer c.canonicalText polled.2 i = .failure reason) →
          ((∃ v, embedder.answer c.canonicalText polled.2 n = .vector v) ∨ retries.toNat < n) →
          calls happened = min (n + 1) (retries.toNat + 1)) ∧
      ∀ attempt, pauseBefore p.backoff (attempt + 1) =
        if 0.0 < backoff then [.pause (backoff * Float.ofNat (2 ^ attempt))] else [] := by
  intro p earlier polled happened turn later
  obtain ⟨progress, vectors', world', hgone, hsettle⟩ :=
    gone_ofChunk embedder p.retries p.backoff stop earlier.vectors earlier.world c
  have hturn : turn = ⟨⟨c, progress⟩, vectors', world', happened.filterMap (·.notice?)⟩ := hsettle
  have hnever := hgone.ne_crashed hunbroken
  have hnotices : turn.notices = happened.filterMap (·.notice?) := by rw [hturn]
  refine ⟨?_, by rw [hturn], by rw [hturn]; exact hgone, by rw [hturn]; exact hnever, ?_,
    pauseAfter_new (some embedder) retries room backoff⟩
  · rw [← hnotices]
    exact run_in_turn stop vectors world rfl hunbroken before c behind
  · intro hstop hnone n hfirst hn
    have hgone' := hgone
    rw [show (stop earlier.world).1 = false from hstop] at hgone'
    exact hgone'.calls_eq hunbroken hnone hfirst hn

/-- An embedder that refuses the first two texts that it is asked for. -/
def reluctant : Embedder Nat where
  key := "reluctant"
  dimension := 1
  embed _ n := (if n < 2 then .failure .noTokens else .vector [1.0], n + 1)

/-- The third call would be the first to give a vector, and with one attempt more there are two. -/
theorem asked_as_needed_reluctant :
    (∀ text world fault, (reluctant.embed text world).1 ≠ .crash fault) ∧
      calls ((Slot.ofChunk (named "a")).course reluctant 1 0.5 never (Lru.empty 2) 0) = 2 := by
  have hunbroken : ∀ text world fault, (reluctant.embed text world).1 ≠ .crash fault := by
    intro text n fault
    show (if n < 2 then Outcome.failure .noTokens else .vector [1.0]) ≠ .crash fault
    split <;> simp
  obtain ⟨-, -, -, -, hcalls, -⟩ :=
    asked_as_needed reluctant hunbroken 1 0.5 2 never (Lru.empty 2) 0 [] (named "a") []
  refine ⟨hunbroken, hcalls rfl rfl 2 (fun i hi => ⟨.noTokens, ?_⟩) (Or.inl ⟨[1.0], rfl⟩)⟩
  obtain rfl | rfl : i = 0 ∨ i = 1 := by omega
  · rfl
  · rfl

end CodeSearch.Embedding

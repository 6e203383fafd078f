import CodeSearch.Proofs.Embedding.Attempts
import CodeSearch.Proofs.Embedding.Slots

/-!
What happens to a chunk from its beginning to its end.

A worker that is alone takes all steps of a slot before those of the next one. What happens in these is
put down in order (`Slot.course`): what the slot learns by each step, and what is to be noticed. The steps
are followed one by one (`Slot.Leads`), and what they come to is one of five ends (`Gone`): the work was
stopped, a vector was kept, the embedder gave one after some refusals, it refused each time, or it broke.
Which of them it is is settled by the signal, by what is kept for the text, and by what the embedder would
say if it were asked for the text again and again (`Embedder.answer`). A run is put together of what its
chunks come to (`run_append`).
-/
set_option autoImplicit false

namespace CodeSearch.Embedding

variable {σ : Type}

/-! ## Happenings -/

/-- One thing that happens on the way of a slot. -/
inductive Happening where
  | learnt (sign : Sign)
  | noticed (notice : Notice)

namespace Happening

def sign? : Happening → Option Sign
  | .learnt sign => some sign
  | .noticed _ => none

def notice? : Happening → Option Notice
  | .learnt _ => none
  | .noticed notice => some notice

end Happening

/-- All that happens in the steps of a slot, in order. The signal is asked before the first one. -/
def Slot.course (embedder : Embedder σ) (retries : Nat) (backoff : Float) (stop : StopSignal σ)
    (vectors : Vectors) (world : σ) (s : Slot) : List Happening :=
  if _h : s.isSettled = true then []
  else
    let (stopped, asked) := match s.progress with
      | .waiting => stop world
      | _ => (false, world)
    let next := s.step embedder retries backoff stopped vectors asked
    (s.sign? embedder stopped vectors asked).toList.map .learnt ++ next.notices.map .noticed ++
      Slot.course embedder retries backoff stop next.vectors next.world next.slot
termination_by s.rank retries
decreasing_by exact Slot.rank_step_lt _ _ _ _ _ _ _ (by simpa using _h)

/-! ## Asking again and again -/

/-- The world after the embedder was asked for a text so many times. -/
def Embedder.asked (embedder : Embedder σ) (text : String) (world : σ) : Nat → σ
  | 0 => world
  | n + 1 => (embedder.embed text (embedder.asked text world n)).2

/-- What the embedder says to a text if it was asked for it so many times before. -/
def Embedder.answer (embedder : Embedder σ) (text : String) (world : σ) (n : Nat) : Outcome :=
  (embedder.embed text (embedder.asked text world n)).1

/-- The pause before an attempt, counted from zero; there is none before the first one. -/
def pauseBefore (backoff : Float) : Nat → List Notice
  | 0 => []
  | n + 1 => pauseAfter backoff n

/-- So many attempts at a text: a pause before each, if there is one, and what the embedder says. -/
def attempts (embedder : Embedder σ) (backoff : Float) (text : String) (world : σ) (n : Nat) :
    List Happening :=
  (List.range n).flatMap fun i =>
    (pauseBefore backoff i).map .noticed ++ [.learnt (.said text (embedder.answer text world i))]

theorem attempts_succ (embedder : Embedder σ) (backoff : Float) (text : String) (world : σ) (n : Nat) :
    attempts embedder backoff text world (n + 1) =
      attempts embedder backoff text world n ++ ((pauseBefore backoff n).map .noticed ++
        [.learnt (.said text (embedder.answer text world n))]) := by
  rw [attempts, List.range_succ, List.flatMap_append, List.flatMap_singleton, ← attempts]

/-! ## Steps in a row -/

section Leads

variable (embedder : Embedder σ) (retries : Nat) (backoff : Float) (stop : StopSignal σ)

/-- Some happenings lead from a slot to a slot: what follows is what follows from there. -/
structure Slot.Leads (vectors : Vectors) (world : σ) (s : Slot) (happenings : List Happening)
    (vectors' : Vectors) (world' : σ) (s' : Slot) : Prop where
  course : s.course embedder retries backoff stop vectors world =
    happenings ++ s'.course embedder retries backoff stop vectors' world'
  settle : ∀ notices, s.settle embedder retries backoff stop vectors world notices =
    s'.settle embedder retries backoff stop vectors' world' (notices ++ happenings.filterMap (·.notice?))

namespace Slot.Leads

variable {embedder retries backoff stop} {vectors vectors' vectors'' : Vectors} {world world' world'' : σ}
  {s s' s'' : Slot} {first second : List Happening}

theorem refl : s.Leads embedder retries backoff stop vectors world [] vectors world s where
  course := rfl
  settle notices := by rw [List.filterMap_nil, List.append_nil]

theorem trans (h : s.Leads embedder retries backoff stop vectors world first vectors' world' s')
    (h' : s'.Leads embedder retries backoff stop vectors' world' second vectors'' world'' s'') :
    s.Leads embedder retries backoff stop vectors world (first ++ second) vectors'' world'' s'' where
  course := by rw [h.course, h'.course, List.append_assoc]
  settle notices := by rw [h.settle, h'.settle, List.filterMap_append, List.append_assoc]

/-- What a step of a slot that was begun brings. -/
theorem step (embedder : Embedder σ) (retries : Nat) (backoff : Float) (stop : StopSignal σ)
    (vectors : Vectors) (world : σ) {s : Slot} (hsettled : s.isSettled = false)
    (hbegun : s.progress ≠ .waiting) :
    let next := s.step embedder retries backoff false vectors world
    s.Leads embedder retries backoff stop vectors world
      ((s.sign? embedder false vectors world).toList.map .learnt ++ next.notices.map .noticed)
      next.vectors next.world next.slot := by
  intro next
  have hnotices : ((s.sign? embedder false vectors world).toList.map Happening.learnt ++
      next.notices.map Happening.noticed).filterMap (·.notice?) = next.notices := by
    have hlearnt : ∀ signs : List Sign, (signs.map Happening.learnt).filterMap (·.notice?) = [] := by
      intro signs
      rw [List.filterMap_map]
      exact List.filterMap_eq_nil_iff.mpr fun _ _ => rfl
    rw [List.filterMap_append, hlearnt, List.filterMap_map, List.nil_append]
    exact List.filterMap_some
  obtain ⟨chunk, progress⟩ := s
  constructor
  · rw [Slot.course, dif_neg (by simp [hsettled])]
    cases progress with
    | waiting => exact absurd rfl hbegun
    | _ => rfl
  · intro notices
    rw [hnotices, Slot.settle, dif_neg (by simp [hsettled])]
    cases progress with
    | waiting => exact absurd rfl hbegun
    | _ => rfl

/-- The first step of a slot asks the signal. -/
theorem begin (embedder : Embedder σ) (retries : Nat) (backoff : Float) (stop : StopSignal σ)
    (vectors : Vectors) (world : σ) (c : Chunk) :
    (Slot.ofChunk c).Leads embedder retries backoff stop vectors world [.learnt (.polled (stop world).1)]
      vectors (stop world).2 ⟨c, if (stop world).1 then .skipped else .admitted⟩ where
  course := by
    rw [Slot.course, dif_neg (by simp [ofChunk, isSettled])]
    rfl
  settle notices := by
    rw [Slot.settle, dif_neg (by simp [ofChunk, isSettled])]
    rfl

/-- With a slot that nothing more is done for, all is said. -/
theorem ends (h : s.Leads embedder retries backoff stop vectors world first vectors' world' s')
    (hsettled : s'.isSettled = true) :
    s.course embedder retries backoff stop vectors world = first ∧
      ∀ notices, s.settle embedder retries backoff stop vectors world notices =
        ⟨s', vectors', world', notices ++ first.filterMap (·.notice?)⟩ := by
  constructor
  · rw [h.course, Slot.course, dif_pos hsettled, List.append_nil]
  · intro notices
    rw [h.settle, Slot.settle, dif_pos hsettled]

end Slot.Leads

end Leads

/-! ## What it comes to -/

section Gone

variable (embedder : Embedder σ) (retries : Nat) (backoff : Float)

/-- What becomes of a chunk, by what the signal says, what is kept, and what the embedder would say: what
happens, how far its slot comes, and what is kept and how the world is afterwards. -/
inductive Gone (stopped : Bool) (vectors : Vectors) (world : σ) (c : Chunk) :
    List Happening → Progress → Vectors → σ → Prop where
  | skipped (hstop : stopped = true) :
    Gone stopped vectors world c [.learnt (.polled true)] .skipped vectors world
  | kept (v : List Float) (hstop : stopped = false)
      (hget : vectors.get? (vectorKey embedder c.canonicalText) = some v) :
    Gone stopped vectors world c
      [.learnt (.polled false), .learnt (.looked c.canonicalText (some v))]
      (.embedded v) (vectors.touch (vectorKey embedder c.canonicalText)) world
  /-- The first vector came after some refusals, as many as there may be at most. -/
  | given (n : Nat) (v : List Float) (hstop : stopped = false)
      (hget : vectors.get? (vectorKey embedder c.canonicalText) = none) (henough : n ≤ retries)
      (hrefused : ∀ i < n, ∃ reason, embedder.answer c.canonicalText world i = .failure reason)
      (hgiven : embedder.answer c.canonicalText world n = .vector v) :
    Gone stopped vectors world c
      (.learnt (.polled false) :: .learnt (.looked c.canonicalText none) ::
        attempts embedder backoff c.canonicalText world (n + 1))
      (.embedded v) (vectors.put (vectorKey embedder c.canonicalText) v)
      (embedder.asked c.canonicalText world (n + 1))
  /-- There were as many refusals as there may be, and one more. -/
  | refused (last : Failure) (hstop : stopped = false)
      (hget : vectors.get? (vectorKey embedder c.canonicalText) = none)
      (hrefused : ∀ i ≤ retries, ∃ reason, embedder.answer c.canonicalText world i = .failure reason)
      (hlast : embedder.answer c.canonicalText world retries = .failure last) :
    Gone stopped vectors world c
      (.learnt (.polled false) :: .learnt (.looked c.canonicalText none) ::
        (attempts embedder backoff c.canonicalText world (retries + 1) ++
          [.noticed (.warning s!"Embedding failed for {c.id}: {last.message}")]))
      .failed vectors (embedder.asked c.canonicalText world (retries + 1))
  | crashed (n : Nat) (fault : Fault) (hstop : stopped = false)
      (hget : vectors.get? (vectorKey embedder c.canonicalText) = none) (henough : n ≤ retries)
      (hrefused : ∀ i < n, ∃ reason, embedder.answer c.canonicalText world i = .failure reason)
      (hbroken : embedder.answer c.canonicalText world n = .crash fault) :
    Gone stopped vectors world c
      (.learnt (.polled false) :: .learnt (.looked c.canonicalText none) ::
        attempts embedder backoff c.canonicalText world (n + 1))
      (.crashed fault) vectors (embedder.asked c.canonicalText world (n + 1))

variable {embedder retries backoff} {stop : StopSignal σ} {vectors : Vectors} {world : σ} {c : Chunk}

/-- What one attempt leads to, with the pause before it. -/
theorem leads_attempt (embedder : Embedder σ) (retries : Nat) (backoff : Float) (stop : StopSignal σ)
    (vectors : Vectors) (world : σ) (c : Chunk) (n : Nat) :
    let came := attemptOutcome retries backoff n c (embedder.answer c.canonicalText world n)
    (⟨c, .calling n⟩ : Slot).Leads embedder retries backoff stop vectors
      (embedder.asked c.canonicalText world n)
      (.learnt (.said c.canonicalText (embedder.answer c.canonicalText world n)) ::
        came.2.map .noticed)
      vectors (embedder.asked c.canonicalText world (n + 1)) ⟨c, came.1⟩ :=
  Slot.Leads.step embedder retries backoff stop vectors _ rfl (by simp)

/-- Refusals lead to the next attempt, as long as there may be one. -/
theorem leads_refusals (backoff : Float) (stop : StopSignal σ) (vectors : Vectors) {n : Nat}
    (hmore : n ≤ retries)
    (hrefused : ∀ i < n, ∃ reason, embedder.answer c.canonicalText world i = .failure reason) :
    (⟨c, .calling 0⟩ : Slot).Leads embedder retries backoff stop vectors world
      (attempts embedder backoff c.canonicalText world n ++ (pauseBefore backoff n).map .noticed)
      vectors (embedder.asked c.canonicalText world n) ⟨c, .calling n⟩ := by
  -- on the number of refusals: one more of them is one step more, which goes on to the next attempt
  induction n with
  | zero => exact .refl
  | succ n ih =>
    have hbefore := ih (by omega) fun i hi => hrefused i (by omega)
    obtain ⟨reason, hreason⟩ := hrefused n (by omega)
    have hnext := leads_attempt embedder retries backoff stop vectors world c n
    dsimp only at hnext
    rw [hreason, attemptOutcome, if_pos (by omega : n < retries), ← hreason] at hnext
    have hboth := hbefore.trans hnext
    rw [attempts_succ]
    simpa only [List.append_assoc, List.singleton_append, pauseBefore] using hboth

/-- The attempt after some refusals leads to where its outcome leads. -/
theorem leads_outcome (backoff : Float) (stop : StopSignal σ) (vectors : Vectors) {n : Nat}
    (hmore : n ≤ retries)
    (hrefused : ∀ i < n, ∃ reason, embedder.answer c.canonicalText world i = .failure reason) :
    let came := attemptOutcome retries backoff n c (embedder.answer c.canonicalText world n)
    (⟨c, .calling 0⟩ : Slot).Leads embedder retries backoff stop vectors world
      (attempts embedder backoff c.canonicalText world (n + 1) ++ came.2.map .noticed)
      vectors (embedder.asked c.canonicalText world (n + 1)) ⟨c, came.1⟩ := by
  intro came
  have hboth := (leads_refusals backoff stop vectors hmore hrefused).trans
    (leads_attempt embedder retries backoff stop vectors world c n)
  rw [attempts_succ]
  simpa only [List.append_assoc, List.singleton_append] using hboth

/-- There are refusals up to the last attempt, or up to an attempt that is none. -/
theorem refused_or_exists (answers : Nat → Outcome) (retries : Nat) :
    (∀ i ≤ retries, ∃ reason, answers i = .failure reason) ∨
      ∃ n ≤ retries, (∀ i < n, ∃ reason, answers i = .failure reason) ∧
        ∀ reason, answers n ≠ .failure reason := by
  -- on the number of answers that count: a new one either goes on with the refusals or ends them
  induction retries with
  | zero =>
    cases hfirst : answers 0 with
    | failure reason => exact Or.inl fun i hi => ⟨reason, by rw [Nat.le_zero.mp hi, hfirst]⟩
    | _ => exact Or.inr ⟨0, Nat.le_refl 0, fun i hi => absurd hi (Nat.not_lt_zero i), by simp [hfirst]⟩
  | succ retries ih =>
    rcases ih with hall | ⟨n, hn, hfirst, hother⟩
    · cases hlast : answers (retries + 1) with
      | failure reason =>
        refine Or.inl fun i hi => ?_
        rcases Nat.lt_or_eq_of_le hi with hless | rfl
        · exact hall i (by omega)
        · exact ⟨reason, hlast⟩
      | _ => exact Or.inr ⟨retries + 1, Nat.le_refl _, fun i hi => hall i (by omega), by simp [hlast]⟩
    · exact Or.inr ⟨n, by omega, hfirst, hother⟩

theorem Gone.isSettled {stopped : Bool} {happenings : List Happening} {progress : Progress}
    {vectors' : Vectors} {world' : σ}
    (h : Gone embedder retries backoff stopped vectors world c happenings progress vectors' world') :
    (⟨c, progress⟩ : Slot).isSettled = true := by
  cases h with
  | _ => rfl

/-- The attempts at a chunk for which no vector is kept lead to one of its ends: after refusals only, with
the first vector, or with a break. -/
theorem exists_leads_of_missed (retries : Nat) (backoff : Float) (stop : StopSignal σ) (world : σ)
    (hget : vectors.get? (vectorKey embedder c.canonicalText) = none) :
    ∃ happenings progress vectors' world',
      Gone embedder retries backoff false vectors world c
        (.learnt (.polled false) :: .learnt (.looked c.canonicalText none) :: happenings)
        progress vectors' world' ∧
      (⟨c, .calling 0⟩ : Slot).Leads embedder retries backoff stop vectors world happenings
        vectors' world' ⟨c, progress⟩ := by
  rcases refused_or_exists (embedder.answer c.canonicalText world) retries with
    hall | ⟨n, hn, hrefused, hother⟩
  · obtain ⟨last, hlast⟩ := hall retries (Nat.le_refl _)
    have hcalls := leads_outcome backoff stop vectors (Nat.le_refl retries) fun i hi =>
      hall i (Nat.le_of_lt hi)
    rw [hlast, attemptOutcome, if_neg (Nat.lt_irrefl _)] at hcalls
    exact ⟨_, _, _, _, .refused last rfl hget hall hlast, hcalls⟩
  · have hcalls := leads_outcome backoff stop vectors hn hrefused
    cases houtcome : embedder.answer c.canonicalText world n with
    | failure reason => exact absurd houtcome (hother reason)
    | vector v =>
      rw [houtcome, attemptOutcome] at hcalls
      simp only [List.map_nil, List.append_nil] at hcalls
      -- the vector that came is put among those that are kept by a step of its own
      have hput := Slot.Leads.step embedder retries backoff stop vectors
        (embedder.asked c.canonicalText world (n + 1)) (s := ⟨c, .received v⟩) rfl (by simp)
      have hboth := hcalls.trans hput
      simp only [Slot.step, Slot.sign?, Option.toList_none, List.map_nil, List.append_nil] at hboth
      exact ⟨_, _, _, _, .given n v rfl hget hn hrefused houtcome, hboth⟩
    | crash fault =>
      rw [houtcome, attemptOutcome] at hcalls
      simp only [List.map_nil, List.append_nil] at hcalls
      exact ⟨_, _, _, _, .crashed n fault rfl hget hn hrefused houtcome, hcalls⟩

/-- The steps of a chunk lead to one of its ends. -/
theorem exists_leads_gone (embedder : Embedder σ) (retries : Nat) (backoff : Float)
    (stop : StopSignal σ) (vectors : Vectors) (world : σ) (c : Chunk) :
    ∃ happenings progress vectors' world',
      Gone embedder retries backoff (stop world).1 vectors (stop world).2 c happenings
        progress vectors' world' ∧
      (Slot.ofChunk c).Leads embedder retries backoff stop vectors world happenings
        vectors' world' ⟨c, progress⟩ := by
  have hbegin := Slot.Leads.begin embedder retries backoff stop vectors world c
  cases hstop : (stop world).1 with
  | true =>
    rw [hstop] at hbegin
    exact ⟨_, _, _, _, .skipped rfl, hbegin⟩
  | false =>
    rw [hstop] at hbegin
    -- what is kept for the text decides whether there are any attempts
    have hlook := Slot.Leads.step embedder retries backoff stop vectors (stop world).2
      (s := ⟨c, .admitted⟩) rfl (by simp)
    cases hget : vectors.get? (vectorKey embedder c.canonicalText) with
    | some v =>
      simp only [Slot.step, Slot.sign?, hget] at hlook
      exact ⟨_, _, _, _, .kept v rfl hget, hbegin.trans hlook⟩
    | none =>
      simp only [Slot.step, Slot.sign?, hget] at hlook
      obtain ⟨happenings, progress, vectors', world', hgone, hcalls⟩ :=
        exists_leads_of_missed retries backoff stop (stop world).2 hget
      exact ⟨_, _, _, _, hgone, (hbegin.trans hlook).trans hcalls⟩

/-- A chunk that is gone through comes to one of its ends, and the notices are those that came up on the
way. -/
theorem gone_ofChunk (embedder : Embedder σ) (retries : Nat) (backoff : Float) (stop : StopSignal σ)
    (vectors : Vectors) (world : σ) (c : Chunk) :
    let happened := (Slot.ofChunk c).course embedder retries backoff stop vectors world
    ∃ progress vectors' world',
      Gone embedder retries backoff (stop world).1 vectors (stop world).2 c happened
        progress vectors' world' ∧
      (Slot.ofChunk c).settle embedder retries backoff stop vectors world [] =
        ⟨⟨c, progress⟩, vectors', world', happened.filterMap (·.notice?)⟩ := by
  obtain ⟨happenings, progress, vectors', world', hgone, hleads⟩ :=
    exists_leads_gone embedder retries backoff stop vectors world c
  obtain ⟨hcourse, hsettle⟩ := hleads.ends hgone.isSettled
  dsimp only
  rw [hcourse, hsettle, List.nil_append]
  exact ⟨progress, vectors', world', hgone, rfl⟩

end Gone

/-! ## Runs -/

theorem settleAll_append (embedder : Embedder σ) (retries : Nat) (backoff : Float) (stop : StopSignal σ)
    (vectors : Vectors) (world : σ) (before behind : List Slot) :
    settleAll embedder retries backoff stop vectors world (before ++ behind) =
      let (slots, kept, after, said) := settleAll embedder retries backoff stop vectors world before
      let (slots', kept', after', said') := settleAll embedder retries backoff stop kept after behind
      (slots ++ slots', kept', after', said ++ said') := by
  induction before generalizing vectors world with
  | nil => rfl
  | cons s before ih =>
    rw [List.cons_append, settleAll, ih, settleAll]
    simp only [List.cons_append, List.append_assoc]

/-- What a run comes to is what its first chunks come to, and then what the others come to with what these
have left. -/
theorem run_append (p : Pipeline σ) (stop : StopSignal σ) (vectors : Vectors) (world : σ)
    (before behind : List Chunk) :
    let earlier := p.run stop vectors world before
    let later := p.run stop earlier.vectors earlier.world behind
    p.run stop vectors world (before ++ behind) =
      ⟨earlier.chunks ++ later.chunks, earlier.embedded + later.embedded,
        earlier.fault <|> later.fault, later.vectors, later.world, earlier.notices ++ later.notices⟩ := by
  unfold Pipeline.run
  cases p.embedder with
  | none => rfl
  | some embedder =>
    simp only [List.map_append, settleAll_append, List.countP_append, firstCrash, List.findSome?_append,
      Option.orElse_eq_orElse, Option.orElse_eq_or]

theorem run_singleton {p : Pipeline σ} {embedder : Embedder σ} (hp : p.embedder = some embedder)
    (stop : StopSignal σ) (vectors : Vectors) (world : σ) (c : Chunk) :
    let turn := (Slot.ofChunk c).settle embedder p.retries p.backoff stop vectors world []
    p.run stop vectors world [c] =
      ⟨[turn.slot.result], if turn.slot.isEmbedded then 1 else 0, firstCrash [turn.slot], turn.vectors,
        turn.world, turn.notices⟩ := by
  rw [Pipeline.run, hp]
  simp only [List.map_cons, List.map_nil, settleAll, List.countP_singleton, List.append_nil]

end CodeSearch.Embedding

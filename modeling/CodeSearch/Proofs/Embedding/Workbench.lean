import CodeSearch.Proofs.Embedding.Slots
import Mathlib.Data.List.Basic

/-!
A pipeline at work.

All runs of a pipeline share the vectors that are kept, and the workers of a run take the steps of its
slots in any order. A workbench holds the slots of every run that was begun, with the vectors and the
world outside; an act is the beginning of a run, one step of one slot, or something that is done to
the pipeline from elsewhere. Nothing is said about the order and about how many slots are between two
steps at a time, so the histories of a workbench are all schedules of any number of workers, with what
earlier runs have left. The run that takes one chunk after the other is one of these schedules
(`exists_turns_run`).

A slot is settled after as many steps as its rank, in whatever order they come
(`isSettled_of_turns`).
-/
set_option autoImplicit false

namespace CodeSearch.Embedding

variable {σ : Type}

/-! ## Workbenches -/

/-- The slots of all runs of a pipeline, with the vectors that are kept and the world outside. -/
structure Workbench (σ : Type) where
  runs : List (List Slot)
  vectors : Vectors
  world : σ

/-- What can happen to a pipeline. -/
inductive Act where
  /-- A run begins. -/
  | begin (chunks : List Chunk)
  /-- A worker takes a step of the slot at a place of a run, and is told whether the run is to stop. -/
  | turn (run place : Nat) (stop : Bool)
  /-- A text is embedded for a question. -/
  | query (text : String)
  /-- The vectors that are kept are given up. -/
  | clear

/-- Whether an act is a step of the slot at a place of a run. -/
def Act.isTurn (run place : Nat) : Act → Bool
  | .turn run' place' _ => run' == run && place' == place
  | _ => false

namespace Workbench

/-- The slot at a place of a run. -/
def slot? (w : Workbench σ) (run place : Nat) : Option Slot :=
  w.runs[run]?.bind (·[place]?)

/-- What an act changes. A step of a slot that is not there does nothing. -/
def step (p : Pipeline σ) (embedder : Embedder σ) (w : Workbench σ) : Act → Workbench σ
  | .begin chunks => { w with runs := w.runs ++ [chunks.map Slot.ofChunk] }
  | .turn run place stop =>
    match w.slot? run place with
    | some s =>
      let taken := s.step embedder p.retries p.backoff stop w.vectors w.world
      ⟨w.runs.modify run (·.set place taken.slot), taken.vectors, taken.world⟩
    | none => w
  | .query text => { w with world := (p.embedQuery text w.world).2 }
  | .clear => { w with vectors := w.vectors.clear }

/-- A workbench after some acts, the latest one first. -/
def after (p : Pipeline σ) (embedder : Embedder σ) (world : σ) : List Act → Workbench σ
  | [] => ⟨[], Lru.empty p.room, world⟩
  | a :: past => (after p embedder world past).step p embedder a

/-- The text that an act hands to the embedder, if it hands one. -/
def asked? (w : Workbench σ) : Act → Option String
  | .turn run place _ => (w.slot? run place).bind (·.request?)
  | .query text => some text
  | _ => none

/-- The texts that the embedder was asked for, the latest one first. -/
def asked (p : Pipeline σ) (embedder : Embedder σ) (world : σ) : List Act → List String
  | [] => []
  | a :: past =>
    ((after p embedder world past).asked? a).toList ++ asked p embedder world past

/-- What a run comes to when nothing more is done for any of its chunks: what broke first, or the chunks
and how many of them got a vector. -/
def ending? (w : Workbench σ) (run : Nat) : Option (Except Fault (List Chunk × Nat)) :=
  match w.runs[run]? with
  | some slots =>
    if slots.all (·.isSettled) then
      match firstCrash slots with
      | some fault => some (.error fault)
      | none => some (.ok (slots.map (·.result), slots.countP (·.isEmbedded)))
    else none
  | none => none

variable {p : Pipeline σ} {embedder : Embedder σ} {w : Workbench σ}

/-- What an act comes to: one constructor for each thing that can happen. -/
inductive Move (p : Pipeline σ) (embedder : Embedder σ) (w : Workbench σ) (a : Act) : Prop where
  /-- There is no such slot. -/
  | idle (hask : w.asked? a = none) (hnext : w.step p embedder a = w)
  | begins (chunks : List Chunk) (ha : a = .begin chunks) (hask : w.asked? a = none)
      (hnext : w.step p embedder a = { w with runs := w.runs ++ [chunks.map Slot.ofChunk] })
  | turns (run place : Nat) (stop : Bool) (s : Slot) (ha : a = .turn run place stop)
      (hslot : w.slot? run place = some s) (hask : w.asked? a = s.request?)
      (hnext : w.step p embedder a =
        let taken := s.step embedder p.retries p.backoff stop w.vectors w.world
        ⟨w.runs.modify run (·.set place taken.slot), taken.vectors, taken.world⟩)
  | queries (text : String) (ha : a = .query text) (hask : w.asked? a = some text)
      (hnext : w.step p embedder a = { w with world := (p.embedQuery text w.world).2 })
  | clears (ha : a = .clear) (hask : w.asked? a = none)
      (hnext : w.step p embedder a = { w with vectors := w.vectors.clear })

theorem step_move (p : Pipeline σ) (embedder : Embedder σ) (w : Workbench σ) (a : Act) :
    w.Move p embedder a := by
  cases a with
  | begin chunks => exact .begins chunks rfl rfl rfl
  | turn run place stop =>
    cases hslot : w.slot? run place with
    | none => exact .idle (by rw [asked?, hslot]; rfl) (by rw [step, hslot])
    | some s => exact .turns run place stop s rfl hslot (by rw [asked?, hslot]; rfl) (by rw [step, hslot])
  | query text => exact .queries text rfl rfl rfl
  | clear => exact .clears rfl rfl rfl

theorem after_append (p : Pipeline σ) (embedder : Embedder σ) (world : σ) (later past : List Act) :
    after p embedder world (later ++ past) =
      later.foldr (fun a w => w.step p embedder a) (after p embedder world past) := by
  induction later with
  | nil => rfl
  | cons a later ih => rw [List.cons_append, after, ih, List.foldr_cons]

/-! ## Slots before and after an act -/

theorem slot?_modify (w : Workbench σ) {run place : Nat} {s : Slot}
    (hslot : w.slot? run place = some s) (next : Slot) (vectors : Vectors) (world : σ)
    (run' place' : Nat) :
    slot? ⟨w.runs.modify run (·.set place next), vectors, world⟩ run' place' =
      if run = run' ∧ place = place' then some next else w.slot? run' place' := by
  obtain ⟨slots, hrun, hplace⟩ := Option.bind_eq_some_iff.mp hslot
  have hlt : place < slots.length := (List.getElem?_eq_some_iff.mp hplace).1
  unfold slot?
  rw [List.getElem?_modify]
  by_cases hsame : run = run'
  · subst hsame
    rw [hrun]
    simp only [Option.map_eq_map, Option.map_some, Option.bind_some, if_true, true_and,
      List.getElem?_set, hlt]
  · simp [hsame]

variable (p embedder) in
/-- A slot that is there takes its step, or stays as it is. -/
theorem slot?_step {run place : Nat} {s : Slot} (hslot : w.slot? run place = some s) (a : Act) :
    (∃ stop, a = .turn run place stop ∧ (w.step p embedder a).slot? run place =
        some (s.step embedder p.retries p.backoff stop w.vectors w.world).slot) ∨
      a.isTurn run place = false ∧ (w.step p embedder a).slot? run place = some s := by
  cases step_move p embedder w a with
  | idle hask hnext =>
    rw [hnext]
    cases a with
    | turn run' place' stop =>
      by_cases hsame : run' = run ∧ place' = place
      · obtain ⟨rfl, rfl⟩ := hsame
        refine Or.inl ⟨stop, rfl, ?_⟩
        rw [step, hslot] at hnext
        have hthere := congrArg (slot? · run' place') hnext
        rw [slot?_modify w hslot, if_pos ⟨rfl, rfl⟩] at hthere
        exact hthere.symm
      · exact Or.inr ⟨by simpa [Act.isTurn] using hsame, hslot⟩
    | _ => exact Or.inr ⟨rfl, hslot⟩
  | begins chunks ha hask hnext =>
    subst ha
    rw [hnext]
    refine Or.inr ⟨rfl, ?_⟩
    obtain ⟨slots, hrun, hplace⟩ := Option.bind_eq_some_iff.mp hslot
    have hlt : run < w.runs.length := (List.getElem?_eq_some_iff.mp hrun).1
    rw [slot?, List.getElem?_append_left hlt, hrun]
    exact hplace
  | turns run' place' stop s' ha hslot' hask hnext =>
    subst ha
    rw [hnext]
    dsimp only
    rw [slot?_modify w hslot']
    by_cases hsame : run' = run ∧ place' = place
    · obtain ⟨rfl, rfl⟩ := hsame
      rw [hslot] at hslot'
      obtain rfl := Option.some.inj hslot'
      exact Or.inl ⟨stop, rfl, by rw [if_pos ⟨rfl, rfl⟩]⟩
    · exact Or.inr ⟨by simpa [Act.isTurn] using hsame, by rw [if_neg hsame, hslot]⟩
  | queries text ha hask hnext =>
    subst ha
    rw [hnext]
    exact Or.inr ⟨rfl, hslot⟩
  | clears ha hask hnext =>
    subst ha
    rw [hnext]
    exact Or.inr ⟨rfl, hslot⟩

/-! ## A run from its beginning on -/

section Run

variable (p embedder) (world : σ) (past : List Act) (chunks : List Chunk)

/-- A run goes on with the chunks that it was begun with. -/
theorem exists_slots (later : List Act) :
    ∃ slots, (after p embedder world (later ++ .begin chunks :: past)).runs[
        (after p embedder world past).runs.length]? = some slots ∧
      slots.map (·.chunk) = chunks := by
  induction later with
  | nil =>
    refine ⟨chunks.map Slot.ofChunk, ?_, ?_⟩
    · rw [List.nil_append, after, step, List.getElem?_concat_length]
    · rw [List.map_map]
      exact List.map_id _
  | cons a later ih =>
    obtain ⟨slots, hrun, hchunks⟩ := ih
    rw [List.cons_append, after]
    generalize after p embedder world (later ++ .begin chunks :: past) = w at hrun
    cases step_move p embedder w a with
    | idle hask hnext => exact ⟨slots, by rw [hnext, hrun], hchunks⟩
    | begins more ha hask hnext =>
      have hlt := (List.getElem?_eq_some_iff.mp hrun).1
      exact ⟨slots, by rw [hnext, List.getElem?_append_left hlt, hrun], hchunks⟩
    | turns run place stop s ha hslot hask hnext =>
      rw [hnext]
      dsimp only
      rw [List.getElem?_modify]
      by_cases hsame : run = (after p embedder world past).runs.length
      · have hplace : slots[place]? = some s := by
          rw [slot?, hsame, hrun] at hslot
          exact hslot
        refine ⟨slots.set place (s.step embedder p.retries p.backoff stop w.vectors w.world).slot,
          by simp only [if_pos hsame, hrun, Option.map_eq_map, Option.map_some], ?_⟩
        -- the slot that took a step is still for the same chunk
        rw [List.map_set, Slot.chunk_step, ← hchunks]
        refine List.ext_getElem? fun i => ?_
        rw [List.getElem?_set]
        split
        · rename_i hi
          rw [← hi, List.getElem?_map, hplace]
          simp [(List.getElem?_eq_some_iff.mp hplace).1]
        · rfl
      · exact ⟨slots, by simp only [if_neg hsame, hrun, Option.map_eq_map, Option.map_some], hchunks⟩
    | queries text ha hask hnext => exact ⟨slots, by rw [hnext, hrun], hchunks⟩
    | clears ha hask hnext => exact ⟨slots, by rw [hnext, hrun], hchunks⟩

variable {p embedder world past chunks} in
/-- A slot is for the chunk at its place. -/
theorem chunk_of_slot? {later : List Act} {place : Nat} {s : Slot}
    (hslot : (after p embedder world (later ++ .begin chunks :: past)).slot?
      (after p embedder world past).runs.length place = some s) :
    chunks[place]? = some s.chunk := by
  obtain ⟨slots, hrun, hchunks⟩ := exists_slots p embedder world past chunks later
  rw [slot?, hrun, Option.bind_some] at hslot
  rw [← hchunks, List.getElem?_map, hslot, Option.map_some]

variable {chunks} {place : Nat} {c : Chunk}

/-- What holds of a slot at first and is kept by each of its steps holds of it after any acts. -/
theorem exists_slot? (hplace : chunks[place]? = some c) {P : List Act → Slot → Prop}
    (hbegin : P [] (Slot.ofChunk c))
    (hturn : ∀ later s stop vectors now, P later s →
      P (.turn (after p embedder world past).runs.length place stop :: later)
        (s.step embedder p.retries p.backoff stop vectors now).slot)
    (hother : ∀ later s a, a.isTurn (after p embedder world past).runs.length place = false →
      P later s → P (a :: later) s)
    (later : List Act) :
    ∃ s, (after p embedder world (later ++ .begin chunks :: past)).slot?
        (after p embedder world past).runs.length place = some s ∧ P later s := by
  induction later with
  | nil =>
    refine ⟨Slot.ofChunk c, ?_, hbegin⟩
    rw [List.nil_append, after, step, slot?, List.getElem?_concat_length, Option.bind_some,
      List.getElem?_map, hplace, Option.map_some]
  | cons a later ih =>
    obtain ⟨s, hslot, hP⟩ := ih
    rw [List.cons_append, after]
    rcases slot?_step p embedder hslot a with ⟨stop, rfl, hnext⟩ | ⟨ha, hnext⟩
    · exact ⟨_, hnext, hturn later s stop _ _ hP⟩
    · exact ⟨s, hnext, hother later s a ha hP⟩

/-- A slot is settled after as many steps as it can take. -/
theorem isSettled_of_turns (hplace : chunks[place]? = some c) (later : List Act)
    (hturns : p.retries + 5 ≤
      later.countP (·.isTurn (after p embedder world past).runs.length place)) :
    ∃ s, (after p embedder world (later ++ .begin chunks :: past)).slot?
        (after p embedder world past).runs.length place = some s ∧ s.isSettled = true := by
  obtain ⟨s, hslot, hrank⟩ := exists_slot? p embedder world past hplace
    (P := fun later s => s.isSettled = true ∨ s.rank p.retries +
      later.countP (·.isTurn (after p embedder world past).runs.length place) ≤ p.retries + 5)
    (Or.inr (by simp [Slot.ofChunk, Slot.rank]))
    (by
      intro later s stop vectors now h
      by_cases hs : s.isSettled = true
      · rw [Slot.step_of_settled _ _ _ _ _ _ _ hs]
        exact Or.inl hs
      · have hless := Slot.rank_step_lt embedder p.retries p.backoff stop vectors now s
          (by simpa using hs)
        rw [List.countP_cons_of_pos (by simp [Act.isTurn])]
        have hbefore := h.resolve_left hs
        exact Or.inr (by omega))
    (by
      intro later s a ha h
      rwa [List.countP_cons_of_neg (by simp [ha])])
    later
  rcases hrank with hsettled | hless
  · exact ⟨s, hslot, hsettled⟩
  · have hzero : s.rank p.retries = 0 := by omega
    exact ⟨s, hslot, Slot.isSettled_of_rank hzero⟩

/-- As long as a run is not to stop, none of its slots is skipped. -/
theorem ne_skipped_of_run (hplace : chunks[place]? = some c) (later : List Act)
    (hstop : Act.turn (after p embedder world past).runs.length place true ∉ later) :
    ∃ s, (after p embedder world (later ++ .begin chunks :: past)).slot?
        (after p embedder world past).runs.length place = some s ∧ s.progress ≠ .skipped := by
  obtain ⟨s, hslot, hne⟩ := exists_slot? p embedder world past hplace
    (P := fun later s => Act.turn (after p embedder world past).runs.length place true ∉ later →
      s.progress ≠ .skipped)
    (by simp [Slot.ofChunk])
    (by
      intro later s stop vectors now h hno
      rw [List.mem_cons, not_or] at hno
      have hfalse : stop = false := by
        cases stop with
        | false => rfl
        | true => exact absurd rfl hno.1
      exact Slot.ne_skipped_step _ _ _ _ _ _ _ hfalse (h hno.2))
    (by
      intro later s a ha h hno
      exact h fun hmem => hno (List.mem_cons_of_mem _ hmem))
    later
  exact ⟨s, hslot, hne hstop⟩

end Run

/-! ## One chunk after the other -/

section InTurn

variable (p embedder)

theorem step_turn {run : Nat} {before behind : List Slot} {s : Slot}
    (hrun : w.runs[run]? = some (before ++ s :: behind)) :
    w.step p embedder (.turn run before.length false) =
      let taken := s.step embedder p.retries p.backoff false w.vectors w.world
      ⟨w.runs.set run (before ++ taken.slot :: behind), taken.vectors, taken.world⟩ := by
  have hslot : w.slot? run before.length = some s := by
    rw [slot?, hrun, Option.bind_some, List.getElem?_append_right (Nat.le_refl _), Nat.sub_self,
      List.getElem?_cons_zero]
  rw [step, hslot]
  dsimp only
  rw [List.modify_eq_set_getElem?, hrun]
  simp

/-- All steps of a slot at once are so many turns of it. -/
theorem exists_turns_settle {run : Nat} {before behind : List Slot} (s : Slot)
    (w : Workbench σ) (notices : List Notice) (hrun : w.runs[run]? = some (before ++ s :: behind)) :
    let last := s.settle embedder p.retries p.backoff never w.vectors w.world notices
    last.slot.isSettled = true ∧ ∃ n,
      (List.replicate n (.turn run before.length false)).foldr (fun a w => w.step p embedder a) w =
        ⟨w.runs.set run (before ++ last.slot :: behind), last.vectors, last.world⟩ := by
  induction hrank : s.rank p.retries using Nat.strongRecOn generalizing s w notices with
  | ind rank ih =>
    by_cases hs : s.isSettled = true
    · rw [Slot.settle, dif_pos hs]
      refine ⟨hs, 0, ?_⟩
      have hsame : w.runs.set run (before ++ s :: behind) = w.runs := by
        obtain ⟨hlt, hget⟩ := List.getElem?_eq_some_iff.mp hrun
        rw [← hget, List.set_getElem_self]
      rw [List.replicate_zero, List.foldr_nil, hsame]
    · have hsettle : s.settle embedder p.retries p.backoff never w.vectors w.world notices =
          let next := s.step embedder p.retries p.backoff false w.vectors w.world
          next.slot.settle embedder p.retries p.backoff never next.vectors next.world
            (notices ++ next.notices) := by
        rw [Slot.settle, dif_neg hs]
        cases s.progress <;> rfl
      have hstep := step_turn p embedder hrun
      have hless := Slot.rank_step_lt embedder p.retries p.backoff false w.vectors w.world s
        (by simpa using hs)
      rw [hsettle]
      dsimp only at hstep ⊢
      generalize s.step embedder p.retries p.backoff false w.vectors w.world = next at hstep hless ⊢
      have hlt := (List.getElem?_eq_some_iff.mp hrun).1
      obtain ⟨hsettled, n, hturns⟩ := ih _ (hrank ▸ hless) next.slot
        ⟨w.runs.set run (before ++ next.slot :: behind), next.vectors, next.world⟩
        (notices ++ next.notices) (List.getElem?_set_self hlt) rfl
      refine ⟨hsettled, n + 1, ?_⟩
      rw [List.replicate_succ', List.foldr_append, List.foldr_cons, List.foldr_nil, hstep, hturns,
        List.set_set]

/-- Settling one slot after the other is one of the schedules. -/
theorem exists_turns_settleAll {run : Nat} (before rest : List Slot) (w : Workbench σ)
    (hrun : w.runs[run]? = some (before ++ rest)) :
    let last := settleAll embedder p.retries p.backoff never w.vectors w.world rest
    (∀ s ∈ last.1, s.isSettled = true) ∧ ∃ turns : List Act,
      (∀ a ∈ turns, ∃ place, a = .turn run place false) ∧
        turns.foldr (fun a w => w.step p embedder a) w =
          ⟨w.runs.set run (before ++ last.1), last.2.1, last.2.2.1⟩ := by
  induction rest generalizing before w with
  | nil =>
    refine ⟨by simp [settleAll], [], by simp, ?_⟩
    obtain ⟨hlt, hget⟩ := List.getElem?_eq_some_iff.mp hrun
    simp only [settleAll, List.foldr_nil]
    rw [← hget, List.set_getElem_self]
  | cons s rest ih =>
    obtain ⟨hfirst, n, hturns⟩ := exists_turns_settle p embedder s w [] hrun
    rw [settleAll]
    dsimp only at hfirst hturns ⊢
    generalize s.settle embedder p.retries p.backoff never w.vectors w.world [] = first
      at hfirst hturns ⊢
    have hlt := (List.getElem?_eq_some_iff.mp hrun).1
    obtain ⟨hothers, turns, hall, hlast⟩ := ih (before ++ [first.slot])
      ⟨w.runs.set run (before ++ first.slot :: rest), first.vectors, first.world⟩
      (by rw [List.append_assoc]; exact List.getElem?_set_self hlt)
    refine ⟨?_, turns ++ List.replicate n (.turn run before.length false), ?_, ?_⟩
    · exact List.forall_mem_cons.mpr ⟨hfirst, hothers⟩
    · intro a ha
      rcases List.mem_append.mp ha with ha | ha
      · exact hall a ha
      · exact ⟨before.length, (List.mem_replicate.mp ha).2⟩
    · rw [List.foldr_append, hturns, hlast, List.set_set, List.append_assoc]
      rfl

/-- A run that takes one chunk after the other is one of the schedules: some turns lead to what it
comes to. -/
theorem exists_turns_run (world : σ) (past : List Act) (chunks : List Chunk)
    (hp : p.embedder = some embedder) :
    let w := after p embedder world past
    let ran := p.run never w.vectors w.world chunks
    ∃ turns : List Act, (∀ a ∈ turns, ∃ place, a = .turn w.runs.length place false) ∧
      ∃ slots : List Slot,
        after p embedder world (turns ++ .begin chunks :: past) =
          ⟨w.runs ++ [slots], ran.vectors, ran.world⟩ ∧
        (∀ s ∈ slots, s.isSettled = true) ∧ ran.chunks = slots.map (·.result) ∧
        ran.embedded = slots.countP (·.isEmbedded) ∧ ran.fault = firstCrash slots := by
  simp only [Pipeline.run, hp]
  generalize hw : after p embedder world past = w
  obtain ⟨hsettled, turns, hall, hlast⟩ := exists_turns_settleAll p embedder [] (chunks.map Slot.ofChunk)
    (w.step p embedder (.begin chunks)) List.getElem?_concat_length
  refine ⟨turns, hall, _, ?_, hsettled, rfl, rfl, rfl⟩
  rw [after_append, after, hw, hlast]
  simp [step]

end InTurn

end Workbench

/-! ## What a run comes to -/

/-- A chunk with what is said of its text. -/
def embeddedBy (g : String → Option (List Float)) (c : Chunk) : Chunk :=
  { c with embedding := g c.canonicalText }

/-- A slot has come to what is said of its text: the vector, or that there is none. -/
inductive Slot.Answers (g : String → Option (List Float)) (s : Slot) : Prop where
  | vector (v : List Float) (hprogress : s.progress = .embedded v)
      (hsaid : g s.chunk.canonicalText = some v)
  | none (hprogress : s.progress = .failed) (hbare : s.chunk.embedding = .none)
      (hsaid : g s.chunk.canonicalText = .none)

namespace Slot.Answers

variable {g : String → Option (List Float)} {s : Slot}

theorem result_eq (h : s.Answers g) : s.result = embeddedBy g s.chunk := by
  cases h with
  | vector v hprogress hsaid => simp only [result, hprogress, embeddedBy, hsaid]
  | none hprogress hbare hsaid => simp only [result, hprogress, embeddedBy, hsaid, ← hbare]

theorem isEmbedded_eq (h : s.Answers g) : s.isEmbedded = (embeddedBy g s.chunk).embedding.isSome := by
  cases h with
  | vector v hprogress hsaid => simp [isEmbedded, hprogress, embeddedBy, hsaid]
  | none hprogress hbare hsaid => simp [isEmbedded, hprogress, embeddedBy, hsaid]

/-- If all slots of a run came to what is said of their texts, then so did its chunks: nothing broke,
and those that have a vector are counted. -/
theorem run_eq {slots : List Slot} (h : ∀ s ∈ slots, s.Answers g) :
    let found := (slots.map (·.chunk)).map (embeddedBy g)
    slots.map (·.result) = found ∧ slots.countP (·.isEmbedded) = found.countP (·.embedding.isSome) ∧
      firstCrash slots = .none := by
  refine ⟨?_, ?_, ?_⟩
  · rw [List.map_map]
    exact List.map_congr_left fun s hs => (h s hs).result_eq
  · rw [List.map_map, List.countP_map]
    exact List.countP_congr fun s hs => by rw [(h s hs).isEmbedded_eq]; rfl
  · refine firstCrash_eq_none_iff.mpr fun s hs fault => ?_
    cases h s hs with
    | vector v hprogress hsaid => simp [hprogress]
    | none hprogress hbare hsaid => simp [hprogress]

end Slot.Answers

namespace Workbench

variable {p : Pipeline σ} {embedder : Embedder σ} {world : σ} {past : List Act} {chunks : List Chunk}
  {g : String → Option (List Float)}

/-- If each slot that nothing more is done for came to what is said of its text, then a run can only
come to its chunks with what is said of their texts. -/
theorem ending?_eq_of_answers {later : List Act}
    (hslots : ∀ place s,
      (after p embedder world (later ++ .begin chunks :: past)).slot?
        (after p embedder world past).runs.length place = some s →
      s.isSettled = true → s.Answers g)
    {result : Except Fault (List Chunk × Nat)}
    (hending : (after p embedder world (later ++ .begin chunks :: past)).ending?
      (after p embedder world past).runs.length = some result) :
    result = .ok (chunks.map (embeddedBy g),
      (chunks.map (embeddedBy g)).countP (·.embedding.isSome)) := by
  obtain ⟨slots, hrun, hchunks⟩ := exists_slots p embedder world past chunks later
  rw [ending?, hrun] at hending
  dsimp only at hending
  split at hending
  · rename_i hsettled
    have hanswers : ∀ s ∈ slots, s.Answers g := by
      intro s hs
      obtain ⟨place, hplace⟩ := List.getElem?_of_mem hs
      exact hslots place s (by rw [slot?, hrun]; exact hplace) (List.all_eq_true.mp hsettled s hs)
    obtain ⟨hfound, hcount, hcrash⟩ := Slot.Answers.run_eq hanswers
    rw [hcrash, hfound, hcount, hchunks] at hending
    exact (Option.some.inj hending).symm
  · cases hending

/-- A run has come to its end when each of its slots has had as many turns as it can take. -/
theorem ending?_isSome_of_turns {later : List Act}
    (hturns : ∀ place < chunks.length, p.retries + 5 ≤
      later.countP (·.isTurn (after p embedder world past).runs.length place)) :
    ((after p embedder world (later ++ .begin chunks :: past)).ending?
      (after p embedder world past).runs.length).isSome = true := by
  obtain ⟨slots, hrun, hchunks⟩ := exists_slots p embedder world past chunks later
  have hsettled : slots.all (·.isSettled) = true := by
    refine List.all_eq_true.mpr fun s hs => ?_
    obtain ⟨place, hplace⟩ := List.getElem?_of_mem hs
    have hchunk : chunks[place]? = some s.chunk := by
      rw [← hchunks, List.getElem?_map, hplace, Option.map_some]
    obtain ⟨s', hslot, hsettled⟩ := isSettled_of_turns p embedder world past hchunk later
      (hturns place (List.getElem?_eq_some_iff.mp hchunk).1)
    rw [slot?, hrun, Option.bind_some, hplace] at hslot
    exact Option.some.inj hslot ▸ hsettled
  rw [ending?, hrun]
  dsimp only
  rw [if_pos hsettled]
  cases firstCrash slots with
  | some fault => rfl
  | none => rfl

/-- The run that takes one chunk after the other comes to what is said of the texts if the slots do
under every schedule. -/
theorem run_eq_of_answers (hp : p.embedder = some embedder)
    (hslots : ∀ turns : List Act,
      (∀ a ∈ turns, ∃ place, a = .turn (after p embedder world past).runs.length place false) →
      ∀ place s, (after p embedder world (turns ++ .begin chunks :: past)).slot?
        (after p embedder world past).runs.length place = some s →
      s.isSettled = true → s.Answers g) :
    let w := after p embedder world past
    let ran := p.run never w.vectors w.world chunks
    ran.chunks = chunks.map (embeddedBy g) ∧
      ran.embedded = (chunks.map (embeddedBy g)).countP (·.embedding.isSome) ∧ ran.fault = none := by
  obtain ⟨turns, hall, slots, hlast, hsettled, hran, hembedded, hfault⟩ :=
    exists_turns_run p embedder world past chunks hp
  have hrun : (after p embedder world (turns ++ .begin chunks :: past)).runs[
      (after p embedder world past).runs.length]? = some slots := by
    rw [hlast]
    exact List.getElem?_concat_length
  obtain ⟨slots', hrun', hchunks⟩ := exists_slots p embedder world past chunks turns
  obtain rfl : slots = slots' := Option.some.inj (hrun.symm.trans hrun')
  have hanswers : ∀ s ∈ slots, s.Answers g := by
    intro s hs
    obtain ⟨place, hplace⟩ := List.getElem?_of_mem hs
    exact hslots turns hall place s (by rw [slot?, hrun]; exact hplace) (hsettled s hs)
  obtain ⟨hfound, hcount, hcrash⟩ := Slot.Answers.run_eq hanswers
  rw [hchunks] at hfound hcount
  exact ⟨hran.trans hfound, hembedded.trans hcount, hfault.trans hcrash⟩

/-! ## Three chunks at once -/

/-- A declaration that has nothing but its name. -/
def named (name : String) : Chunk :=
  { id := name, kind := "function", name, text := "", path := "", line := 1, context := "" }

/-- Each of three chunks takes a step before the first one takes the next. -/
def inTurn (run rounds : Nat) : List Act :=
  (List.replicate rounds
    [Act.turn run 0 false, Act.turn run 1 false, Act.turn run 2 false]).flatten

theorem turn_of_mem_inTurn {run rounds : Nat} {a : Act} (h : a ∈ inTurn run rounds) :
    ∃ place, a = .turn run place false := by
  obtain ⟨round, hround, ha⟩ := List.mem_flatten.mp h
  rw [List.eq_of_mem_replicate hround] at ha
  simp only [List.mem_cons, List.not_mem_nil, or_false] at ha
  rcases ha with rfl | rfl | rfl
  · exact ⟨0, rfl⟩
  · exact ⟨1, rfl⟩
  · exact ⟨2, rfl⟩

end Workbench

end CodeSearch.Embedding

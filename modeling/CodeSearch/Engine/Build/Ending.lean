import CodeSearch.Engine.Build.Step

/-!
Every build ends.

Main statement: the next step of a build that has not ended brings its end nearer
(`Build.distance_step_lt`). So all steps of a build can be taken one after the other, which is how
a directory is indexed.
-/
set_option autoImplicit false

namespace CodeSearch.Engine

open CodeSearch.Embedding (Slot)
open CodeSearch.Index (Generation)

variable {σ : Type}

/-! ## The distance to the end -/

/-- How many files are still to be read. -/
def pending (readings : List Reading) : Nat :=
  readings.countP (·.isPending)

/-- How many steps some slots can still take. -/
def slotLoad (retries : Nat) : List Slot → Nat
  | [] => 0
  | slot :: rest => slot.rank retries + slotLoad retries rest

/-- How far a build is from its end: the part it is in, and how much of that part is left. -/
def Stage.distance (retries : Nat) : Stage → Nat × Nat
  | .walking => (8, 0)
  | .reading readings => (7, pending readings)
  | .embedding _ slots => (6, slotLoad retries slots)
  | .gathered .. => (5, 0)
  | .storing .. => (4, 0)
  | .publishing .. => (3, 0)
  | .retiring old _ => (2, old.length)
  | .aborting _ => (1, 0)
  | .ended _ => (0, 0)

/-- How far a build is from its end. -/
def Build.distance (b : Build σ) : Nat × Nat :=
  b.stage.distance b.pipeline.retries

/-- What a build that has ended came to. -/
def Build.ending? (b : Build σ) : Option (Except IndexFault Summary) :=
  match b.stage with
  | .ended result => some result
  | _ => none

/-- The order in which a distance grows less: the parts first. -/
abbrev Nearer : Nat × Nat → Nat × Nat → Prop :=
  Prod.Lex (· < ·) (· < ·)

/-- With one file fewer to be read, fewer are left. -/
theorem pending_set_lt {readings : List Reading} {place : Nat} {p : Path} {r : Reading}
    (h : readings[place]? = some (.pending p)) (done : r.isPending = false) :
    pending (readings.set place r) < pending readings := by
  obtain ⟨bound, eq⟩ := List.getElem?_eq_some_iff.mp h
  have here : (readings[place]).isPending = true := by rw [eq]; rfl
  have left : 0 < pending readings := List.countP_pos_iff.mpr ⟨_, List.getElem_mem bound, here⟩
  have counted : pending (readings.set place r) = pending readings - 1 := by
    rw [pending, pending, List.countP_set bound, if_pos here, if_neg (by simp [done]), Nat.add_zero]
  rw [counted]
  exact Nat.sub_lt left Nat.one_pos

/-- A slot that takes a step leaves fewer steps to all of them. -/
theorem slotLoad_set_lt {retries : Nat} {slots : List Slot} {place : Nat} {slot next : Slot}
    (h : slots[place]? = some slot) (less : next.rank retries < slot.rank retries) :
    slotLoad retries (slots.set place next) < slotLoad retries slots := by
  induction slots generalizing place with
  | nil => simp at h
  | cons first rest ih =>
    cases place with
    | zero =>
      obtain rfl := Option.some.inj h
      simp only [List.set_cons_zero, slotLoad]
      omega
    | succ place =>
      have here : rest[place]? = some slot := by simpa using h
      have shorter := ih here
      simp only [List.set_cons_succ, slotLoad]
      omega

/-- What is found first has what was looked for. -/
theorem find_place {α : Type} {p : α → Bool} {xs : List α} (h : xs.all (fun x => !p x) = false) :
    ∃ x, xs[xs.findIdx p]? = some x ∧ p x = true := by
  have some : ∃ x ∈ xs, p x = true := by simpa using h
  have bound : xs.findIdx p < xs.length := List.findIdx_lt_length.mpr some
  exact ⟨_, List.getElem?_eq_getElem bound, List.findIdx_getElem⟩

/-- A file that was read is not to be read again. -/
theorem isPending_readFile (e : Engine σ) (root p : Path) {r : Reading}
    (h : (e.readFile root p).1 = .ok r) : r.isPending = false := by
  simp only [readFile] at h
  split at h <;> simp at h <;> rw [← h] <;> rfl

/-- A file read brings the end nearer. -/
theorem Build.distance_readAt_lt (e : Engine σ) (b : Build σ) {readings : List Reading}
    {place : Nat} {p : Path} (stage : b.stage = .reading readings)
    (here : readings[place]? = some (.pending p)) :
    Nearer (b.readAt e readings place).1.distance b.distance := by
  simp only [Build.readAt, here, Build.distance, stage]
  cases read : e.readFile b.root p with
  | mk r after =>
    cases r with
    | ok r => exact Prod.Lex.right _ (pending_set_lt here (isPending_readFile e b.root p (by rw [read])))
    | error fault => exact Prod.Lex.left _ _ (by decide)

/-- A step on a chunk brings the end nearer. -/
theorem Build.distance_embedAt_lt (e : Engine σ) (b : Build σ) (embedder : Embedding.Embedder σ)
    {extract : Extract} {slots : List Slot} {place : Nat} {slot : Slot}
    (stage : b.stage = .embedding extract slots) (here : slots[place]? = some slot)
    (unsettled : slot.isSettled = false) :
    Nearer (b.embedAt e embedder extract slots place).1.distance b.distance := by
  simp only [Build.embedAt, here, Build.distance, stage]
  exact Prod.Lex.right _ (slotLoad_set_lt here (Slot.rank_step_lt _ _ _ _ _ _ _ unsettled))

/-- The next step of a build that has not ended brings the end nearer. -/
theorem Build.distance_step_lt (e : Engine σ) (b : Build σ) (h : b.ending? = none) :
    Nearer (b.step e).1.distance b.distance := by
  simp only [Build.step, Build.stepAt]
  split
  · rename_i stage
    simp only [Build.distance, stage, Build.walk]
    split <;> exact Prod.Lex.left _ _ (by decide)
  · rename_i readings stage
    split
    · simp only [Build.distance, stage, Build.afterReading]
      split <;> exact Prod.Lex.left _ _ (by decide)
    · rename_i some
      obtain ⟨r, at_place, isPending⟩ := find_place (by simpa using some)
      cases r with
      | pending p =>
        exact b.distance_readAt_lt e stage (by simpa [Build.place, stage] using at_place)
      | chunks found => simp [Reading.isPending] at isPending
      | skipped s => simp [Reading.isPending] at isPending
  · rename_i extract slots stage
    split
    · simp only [Build.distance, stage]
      exact Prod.Lex.left _ _ (by decide)
    · split
      · simp only [Build.distance, stage, afterEmbedding]
        split <;> exact Prod.Lex.left _ _ (by decide)
      · rename_i embedder _ some
        obtain ⟨slot, at_place, unsettled⟩ := find_place (p := fun s : Slot => !s.isSettled)
          (by simpa using some)
        refine b.distance_embedAt_lt e embedder stage ?_ (by simpa using unsettled)
        simpa [Build.place, stage] using at_place
  · rename_i stage
    simp only [Build.distance, stage, Build.afterGathering]
    split
    · exact Prod.Lex.left _ _ (by decide)
    · split <;> exact Prod.Lex.left _ _ (by decide)
  · rename_i stage
    simp only [Build.distance, stage, Build.store]
    split <;> exact Prod.Lex.left _ _ (by decide)
  · rename_i stage
    simp only [Build.distance, stage, Build.publish]
    exact Prod.Lex.left _ _ (by decide)
  · rename_i stage
    simp only [Build.distance, stage]
    exact Prod.Lex.left _ _ (by decide)
  · rename_i stage
    simp only [Build.distance, stage]
    exact Prod.Lex.left _ _ (by decide)
  · rename_i stage
    simp only [Build.distance, stage]
    exact Prod.Lex.right _ (by simp)
  · rename_i stage
    simp [Build.ending?, stage] at h

/-! ## Whole builds -/

/-- All steps of a build up to its end. Whatever a step is about to hand out is shown to
`interrupt` before. -/
def Build.complete (interrupt : Moment → Engine σ → Engine σ) (e : Engine σ) (b : Build σ) :
    Except IndexFault Summary × Engine σ :=
  match _h : b.ending? with
  | some result => (result, e)
  | none =>
    let shown := match b.moment? e with
      | some moment => interrupt moment e
      | none => e
    let next := b.step shown
    Build.complete interrupt next.2 next.1
termination_by b.distance
decreasing_by exact b.distance_step_lt _ _h

/-- A directory indexed. -/
def index (interrupt : Moment → Engine σ → Engine σ) (e : Engine σ) (path : String) :
    Except IndexFault Summary × Engine σ :=
  match e.begin path with
  | .ok (b, begun) => b.complete interrupt begun
  | .error fault => (.error fault, e)

end CodeSearch.Engine

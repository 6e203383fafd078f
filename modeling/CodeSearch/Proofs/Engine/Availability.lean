import CodeSearch.Proofs.Engine.Tables

/-!
When the store of vectors is given up.

In a session with a database in which nothing fails there are two ways to give up the store: a
question searches the table of a generation that has been given up in the meantime, or a build comes
to store a chunk whose line does not fit into the table. The first one is what the round of grace of
the generations is there to prevent, and one round is too few: a question that is held up for two
builds finds no table any more.
-/
set_option autoImplicit false

namespace CodeSearch.Engine

open CodeSearch.Index (Generation Holder Traffic)
open CodeSearch.Search (Query)

variable {σ : Type}

/-! ## Questions and their tables -/

/-- What a question is about to search is the table of its generation. -/
def Inquiry.Keeps (i : Inquiry) : Prop :=
  match i.progress with
  | .embedding _ index | .searching _ index _ => i.generation.vector = some index
  | _ => True

/-- The table that a question searches next, with the number of its generation. -/
def Asker.searched? : Asker → Option (Int × Vector.VectorIndex)
  | .served ⟨g, _, .searching _ index _⟩ => some (g.number, index)
  | _ => none

theorem Asker.of_searched? {found : Asker} {number : Int} {index : Vector.VectorIndex}
    (h : found.searched? = some (number, index)) : ∃ i key vector, found = .served i ∧
      i.progress = .searching key index vector ∧ i.generation.number = number := by
  unfold Asker.searched? at h
  split at h
  · rename_i g q key index' vector
    obtain ⟨rfl, rfl⟩ := Prod.mk.inj (Option.some.inj h)
    exact ⟨_, key, vector, rfl, rfl, rfl⟩
  · simp at h

theorem Inquiry.Keeps.step {i : Inquiry} (h : i.Keeps) (e : Engine σ) : (i.step e).1.Keeps := by
  unfold Inquiry.Keeps at h
  cases i.step_move e with
  | toStore key index hprogress hvector hserves hnext => rw [hnext]; exact hvector
  | embedded key index vector hprogress hsaid hnext =>
    rw [hprogress] at h
    rw [hnext]
    exact h
  | ended result hprogress hnext =>
    rw [hnext]
    exact h
  | _ =>
    rename_i hnext
    rw [hnext]
    exact trivial

theorem Asker.keeps_ofReader {q : Query} {r : Holder.Reader} {i : Inquiry}
    (h : Asker.ofReader q r = .served i) : i.Keeps := by
  unfold Asker.ofReader at h
  split at h
  · simp at h
  · obtain rfl := Asker.served.inj h
    exact trivial
  · simp at h

/-- After a step of a question the store is given up if it was before, or if the question searches a
table that is not there. -/
theorem available_advance_iff {e : Engine σ} (hhealthy : e.database.failures = []) (i : Inquiry) :
    (i.advance e).2.monitor.available = false ↔ e.monitor.available = false ∨
      ∃ key index vector, i.progress = .searching key index vector ∧
        e.database.rows? index.collection = none := by
  show (i.step e).2.monitor.available = false ↔ _
  have hsearching : ∀ {key index vector}, i.progress = .searching key index vector →
      ((∃ key' index' vector', i.progress = .searching key' index' vector' ∧
        e.database.rows? index'.collection = none) ↔
          ∃ u, (index.query e.database vector i.query.kind i.query.limit).1 =
            .error (.unavailable u)) := by
    intro key index vector hprogress
    rw [Vector.query_unavailable_iff hhealthy, hprogress]
    constructor
    · rintro ⟨key', index', vector', heq, hnone⟩
      obtain ⟨-, rfl, -⟩ := Progress.searching.inj heq
      exact hnone
    · intro hnone
      exact ⟨key, index, vector, rfl, hnone⟩
  -- only a search can fail, and only by a table that is not there
  cases i.step_move e with
  | searched key index vector found hprogress hquery hnext =>
    rw [hnext, hsearching hprogress, hquery]
    simp
  | lost key index vector u hprogress hquery hnext =>
    rw [hnext, hsearching hprogress]
    exact ⟨fun _ => Or.inr ⟨u, hquery⟩, fun _ => available_markDown _ _⟩
  | unreadable key index vector fault hprogress hquery hnext =>
    rw [hnext, hsearching hprogress, hquery]
    simp
  | _ =>
    rename i.progress = _ => hprogress
    rename i.step e = _ => hnext
    simp [hnext, hprogress, warn, note]

/-! ## Builds and their lines -/

/-- Whether a build is to store a chunk whose line does not fit into a table. -/
def Build.Overflows (b : Build σ) : Prop :=
  ∃ g embedded, b.stage = .storing g embedded ∧
    ∃ c ∈ g.chunks, c.isEmbedded = true ∧ ¬ Vector.FitsLine c.line

theorem Build.overflows_iff {b : Build σ} {g : Generation} {embedded : Nat}
    (hstage : b.stage = .storing g embedded) :
    b.Overflows ↔ ∃ c ∈ g.chunks, c.isEmbedded = true ∧ ¬ Vector.FitsLine c.line := by
  constructor
  · rintro ⟨g', embedded', hstage', hlarge⟩
    obtain ⟨rfl, -⟩ := Stage.storing.inj (hstage.symm.trans hstage')
    exact hlarge
  · intro hlarge
    exact ⟨g, embedded, hstage, hlarge⟩

/-- Only storing has to do with whether the store serves. -/
theorem monitor_stepAt {e : Engine σ} (hhealthy : e.database.failures = []) {b : Build σ}
    (hnot : ∀ g embedded, b.stage ≠ .storing g embedded) (place : Nat) :
    (b.stepAt e place).2.monitor = e.monitor := by
  cases hstage : b.stage with
  | storing g embedded => exact absurd hstage (hnot g embedded)
  | publishing g embedded => rw [Build.stepAt, hstage]; rfl
  | retiring old summary =>
    cases old with
    | nil => rw [Build.stepAt, hstage]
    | cons x old =>
      rw [Build.stepAt, hstage]
      exact (retire_tables (Vector.Database.writable_of_healthy hhealthy) x).2.1
  | ended result => rw [Build.stepAt, hstage]
  | _ => exact (stepAt_plain e (by rw [hstage]; rfl) place).2.1

/-- After a step of a build the store is given up if it was before, or if a line does not fit. -/
theorem available_stepAt_iff {n : Nat} {e : Engine σ} (hhealthy : e.database.failures = [])
    {b : Build σ} (hsized : b.Sized n) (place : Nat) :
    (b.stepAt e place).2.monitor.available = false ↔ e.monitor.available = false ∨ b.Overflows := by
  by_cases hstoring : ∃ g embedded, b.stage = .storing g embedded
  · obtain ⟨g, embedded, hstage⟩ := hstoring
    have hstep : b.stepAt e place = b.store e g embedded := by
      rw [Build.stepAt, hstage]
    rw [Build.Sized, hstage] at hsized
    rw [Build.overflows_iff hstage, hstep]
    have hwritable := Vector.Database.writable_of_healthy hhealthy
    rcases store_cases hwritable (b := b) hsized.2 embedded with
      ⟨index, written, hfits, hstore, -⟩ | ⟨reason, hlarge, hstore⟩
    · rw [hstore]
      constructor
      · intro hdown
        exact Or.inl hdown
      · rintro (hdown | ⟨c, hc, hembedded, hnot⟩)
        · exact hdown
        · exact absurd (hfits c hc hembedded) hnot
    · rw [hstore]
      exact ⟨fun _ => Or.inr hlarge, fun _ => available_markDown e reason⟩
  · rw [monitor_stepAt hhealthy (fun g embedded hstage => hstoring ⟨g, embedded, hstage⟩)]
    constructor
    · intro hdown
      exact Or.inl hdown
    · rintro (hdown | ⟨g, embedded, hstage, -⟩)
      · exact hdown
      · exact absurd ⟨g, embedded, hstage⟩ hstoring

namespace Session

variable {e : Engine σ}

theorem keeps_after (e : Engine σ) (past : List Action) {asker : Nat} {i : Inquiry}
    (h : (after e past).askers[asker]? = some (.served i)) : i.Keeps := by
  induction past generalizing asker i with
  | nil => simp [after] at h
  | cons a past ih =>
    rw [after] at h
    cases step_move (after e past) a with
    | idle hevent hnext => rw [hnext] at h; exact ih h
    | begins path b engine ha hbegin hevent hnext => rw [hnext] at h; exact ih h
    | builds call place b ha hb hevent hnext => rw [hnext] at h; exact ih h
    -- a new question has not chosen a table yet
    | asks q ha hevent hnext =>
      rw [hnext] at h
      rcases Nat.lt_or_ge asker (after e past).askers.length with hlt | hge
      · rw [List.getElem?_append_left hlt] at h
        exact ih h
      · rw [List.getElem?_append_right hge] at h
        have hnew := List.mem_singleton.mp (List.mem_of_getElem? h)
        exact Asker.keeps_ofReader hnew.symm
    | looks asker' q r hasker hr hevent hnext =>
      rw [hnext, List.getElem?_set] at h
      split at h
      · split at h
        · exact Asker.keeps_ofReader (Option.some.inj h)
        · simp at h
      · exact ih h
    | answers asker' i' ha hasker hevent hnext =>
      rw [hnext, List.getElem?_set] at h
      split at h
      · split at h
        · rw [← Asker.served.inj (Option.some.inj h)]
          exact (ih hasker).step _
        · simp at h
      · exact ih h
    | edits disk ha hevent hnext => rw [hnext] at h; exact ih h

theorem swapped_of_served {e : Engine σ} (hfresh : e.holder = {}) {past : List Action} {asker : Nat}
    {i : Inquiry} (hserved : (after e past).askers[asker]? = some (.served i)) :
    i.generation ∈ Traffic.swapped (trace e past) := by
  have hreader : (Traffic.after (trace e past)).readers[asker]? =
      some (.done (.ok i.generation)) := by
    rw [← traffic_after hfresh past, traffic, List.getElem?_map, hserved]
    rfl
  exact Traffic.swapped_of_served (accounted hfresh past).proper hreader

/-- The table that a question searches is missing exactly if its generation is given up. -/
theorem missing_iff_givenUp {n : Nat} (hsteady : Steady n e) (past : List Action) {asker : Nat}
    {i : Inquiry} (hserved : (after e past).askers[asker]? = some (.served i))
    {index : Vector.VectorIndex} (hvector : i.generation.vector = some index) :
    (after e past).engine.database.rows? index.collection = none ↔ GivenUp e past i.generation := by
  have hstocked := stocked hsteady past
  -- the generation of a reader is one that was swapped in
  have hswapped := swapped_of_served hsteady.fresh hserved
  rw [hstocked.collection _ hswapped index hvector]
  exact hstocked.missing_iff _ hswapped (by rw [hvector]; simp)

/-! ## Giving up the store -/

/-- Whether an action gives up a store that serves: a question searches the table of a generation
that is given up, or a build stores a chunk whose line does not fit. -/
def Strands (e : Engine σ) (past : List Action) : Action → Prop
  | .turn asker => ∃ i key index vector, (after e past).askers[asker]? = some (.served i) ∧
    i.progress = .searching key index vector ∧ GivenUp e past i.generation
  | .build call _ => ∃ b, (after e past).builds[call]? = some b ∧ b.Overflows
  | _ => False

theorem available_step_iff {n : Nat} (hsteady : Steady n e) (past : List Action) (a : Action) :
    (after e (a :: past)).engine.monitor.available = false ↔
      (after e past).engine.monitor.available = false ∨ Strands e past a := by
  have hhealthy := (stocked hsteady past).healthy
  -- most actions have nothing to do with the monitor
  have hkept : (after e (a :: past)).engine.monitor = (after e past).engine.monitor →
      ¬ Strands e past a →
        ((after e (a :: past)).engine.monitor.available = false ↔
          (after e past).engine.monitor.available = false ∨ Strands e past a) := by
    intro hsame hnot
    rw [hsame, or_iff_left hnot]
  cases a with
  | index path =>
    refine hkept ?_ not_false
    rw [after, step]
    split
    · rename_i b engine hbegin
      obtain ⟨-, -, -, notices, rfl⟩ := begin_ok hbegin
      rfl
    · rfl
  | build call place =>
    cases hb : (after e past).builds[call]? with
    | none =>
      refine hkept (by rw [after, step, hb]) ?_
      rintro ⟨b, hsome, -⟩
      rw [hb] at hsome
      exact absurd hsome (by simp)
    | some b =>
      obtain ⟨-, hsized⟩ := (sized_after hsteady.measured past).2 b (List.mem_of_getElem? hb)
      rw [after_build hb]
      refine (available_stepAt_iff hhealthy hsized place).trans (or_congr_right ?_)
      constructor
      · intro hoverflows
        exact ⟨b, hb, hoverflows⟩
      · rintro ⟨b', hb', hoverflows⟩
        rw [hb] at hb'
        rwa [Option.some.inj hb']
  | ask q =>
    refine hkept ?_ not_false
    rw [after, step]
    split <;> rfl
  | turn asker =>
    by_cases hserved : ∃ i, (after e past).askers[asker]? = some (.served i)
    · obtain ⟨i, hi⟩ := hserved
      have hkeeps := keeps_after e past hi
      unfold Inquiry.Keeps at hkeeps
      rw [after, step, hi]
      refine (available_advance_iff hhealthy i).trans (or_congr_right ?_)
      constructor
      · rintro ⟨key, index, vector, hprogress, hmissing⟩
        rw [hprogress] at hkeeps
        exact ⟨i, key, index, vector, hi, hprogress,
          (missing_iff_givenUp hsteady past hi hkeeps).mp hmissing⟩
      · rintro ⟨i', key, index, vector, hi', hprogress, hgiven⟩
        rw [hi] at hi'
        obtain rfl := Asker.served.inj (Option.some.inj hi')
        rw [hprogress] at hkeeps
        exact ⟨key, index, vector, hprogress,
          (missing_iff_givenUp hsteady past hi hkeeps).mpr hgiven⟩
    · refine hkept ?_ ?_
      · rw [after, step]
        split
        · rfl
        · rename_i i hi
          exact absurd ⟨i, hi⟩ hserved
        · rfl
      · rintro ⟨i, -, -, -, hi, -⟩
        exact hserved ⟨i, hi⟩
  | expire asker =>
    refine hkept ?_ not_false
    rw [after, step]
    split <;> rfl
  | edit disk => exact hkept rfl not_false

/-- The store is given up after some actions exactly if one of them has done so. -/
theorem available_after_iff {n : Nat} (hsteady : Steady n e) (past : List Action) :
    (after e past).engine.monitor.available = false ↔ e.monitor.available = false ∨
      ∃ later a earlier, past = later ++ a :: earlier ∧ Strands e earlier a := by
  -- the first action that gives the store up is the one, later ones find it given up
  induction past with
  | nil => simp [after]
  | cons a past ih =>
    rw [available_step_iff hsteady past a, ih]
    constructor
    · rintro ((hdown | ⟨later, a', earlier, rfl, hstrands⟩) | hstrands)
      · exact Or.inl hdown
      · exact Or.inr ⟨a :: later, a', earlier, rfl, hstrands⟩
      · exact Or.inr ⟨[], a, past, rfl, hstrands⟩
    · rintro (hdown | ⟨later, a', earlier, hpast, hstrands⟩)
      · exact Or.inl (Or.inl hdown)
      · cases later with
        | nil =>
          obtain ⟨rfl, rfl⟩ := List.cons.inj hpast
          exact Or.inr hstrands
        | cons first later =>
          obtain ⟨-, rfl⟩ := List.cons.inj hpast
          exact Or.inl (Or.inr ⟨later, a', earlier, rfl, hstrands⟩)

/-- The table of the generation that a question was given is dropped exactly if two newer ones have
been swapped in and the second build has retired it. The store is given up exactly if a question
searches after that, or if a build stores a chunk whose line does not fit. -/
theorem table_dropped_iff {n : Nat} (hsteady : Steady n e) (past : List Action) :
    (∀ (asker : Nat) (i : Inquiry) (index : Vector.VectorIndex),
      (after e past).askers[asker]? = some (.served i) → i.generation.vector = some index →
        ((after e past).engine.database.rows? index.collection = none ↔
          GivenUp e past i.generation)) ∧
    ((after e past).engine.monitor.available = false ↔ e.monitor.available = false ∨
      ∃ later a earlier, past = later ++ a :: earlier ∧ Strands e earlier a) :=
  ⟨fun _ _ _ hserved hvector => missing_iff_givenUp hsteady past hserved hvector,
    available_after_iff hsteady past⟩

/-- A question that is held up before it searches, while two more builds come to their ends. -/
def heldUp : List Action :=
  indexing 2 10 ++ indexing 1 9 ++ List.replicate 3 (.turn 0) ++
    [.ask { text := some "x", threshold := .whole 0 }] ++ indexing 0 11

/-- The question is about to search the table of a generation that is given up. -/
theorem exists_heldUp : ∃ i key index vector,
    (after oneImport heldUp).askers[0]? = some (.served i) ∧
      i.progress = .searching key index vector ∧ i.generation.vector = some index ∧
        GivenUp oneImport heldUp i.generation := by
  -- numbers and parts are computed, the tables follow from them
  have hasker : (after oneImport heldUp).askers[0]?.bind Asker.searched? =
      some (1, ⟨"codebase_embeddings_session_1", 1⟩) := by
    decide +kernel
  have hnumbers : (Traffic.swapped (trace oneImport heldUp)).map (·.number) = [3, 2, 1] := by
    decide +kernel
  have hcleared : (after oneImport heldUp).builds.map (fun b => (b.number, b.stage.isCleared)) =
      [(1, true), (2, true), (3, true)] := by
    decide +kernel
  obtain ⟨found, hfound, hsearched⟩ := Option.bind_eq_some_iff.mp hasker
  obtain ⟨i, key, vector, rfl, hprogress, hnumber⟩ := Asker.of_searched? hsearched
  have hkeeps := keeps_after oneImport heldUp hfound
  rw [Inquiry.Keeps, hprogress] at hkeeps
  refine ⟨i, key, _, vector, hfound, hprogress, hkeeps, ?_⟩
  obtain ⟨newest, rest, hswapped, hnewest, hrest⟩ := List.map_eq_cons_iff.mp hnumbers
  obtain ⟨second, rest, rfl, -, hrest⟩ := List.map_eq_cons_iff.mp hrest
  obtain ⟨third, rest, rfl, hthird, -⟩ := List.map_eq_cons_iff.mp hrest
  have hthird' : third ∈ Traffic.swapped (trace oneImport heldUp) := by
    rw [hswapped]
    simp
  have hsame := eq_of_swapped_number (accounted steady_oneImport.fresh heldUp)
    (swapped_of_served steady_oneImport.fresh hfound) hthird' (hnumber.trans hthird.symm)
  have hthere : (3, true) ∈
      (after oneImport heldUp).builds.map fun b => (b.number, b.stage.isCleared) := by
    rw [hcleared]
    simp
  obtain ⟨b, hb, hpair⟩ := List.mem_map.mp hthere
  obtain ⟨hbuild, hdone⟩ := Prod.mk.inj hpair
  refine ⟨0, newest, ?_, ?_, b, hb, hbuild.trans hnewest.symm, hdone⟩
  · rw [hswapped]
    rfl
  · rw [hswapped, hsame]
    rfl

/-- The table of that question is dropped before it is searched, and the store is given up, though
nothing fails in the database. -/
theorem table_dropped_heldUp :
    Steady 1 oneImport ∧ oneImport.monitor.available = true ∧
      (∃ i key index vector, (after oneImport heldUp).askers[0]? = some (.served i) ∧
        i.progress = .searching key index vector ∧
          (after oneImport heldUp).engine.database.rows? index.collection = none) ∧
      (after oneImport (.turn 0 :: heldUp)).engine.monitor.available = false := by
  obtain ⟨i, key, index, vector, hserved, hprogress, hvector, hgiven⟩ := exists_heldUp
  refine ⟨steady_oneImport, rfl, ⟨i, key, index, vector, hserved, hprogress, ?_⟩, ?_⟩
  · exact (missing_iff_givenUp steady_oneImport heldUp hserved hvector).mpr hgiven
  · rw [available_step_iff steady_oneImport]
    exact Or.inr ⟨i, key, index, vector, hserved, hprogress, hgiven⟩

/-- Two newer generations have been swapped in, so the table is dropped, and to search it gives up
the store. -/
theorem table_dropped_iff_heldUp :
    ∃ i index, (after oneImport heldUp).askers[0]? = some (.served i) ∧
      i.generation.vector = some index ∧ GivenUp oneImport heldUp i.generation ∧
        (after oneImport heldUp).engine.database.rows? index.collection = none ∧
          (after oneImport (.turn 0 :: heldUp)).engine.monitor.available = false := by
  obtain ⟨i, key, index, vector, hserved, hprogress, hvector, hgiven⟩ := exists_heldUp
  obtain ⟨hmissing, -⟩ := table_dropped_iff steady_oneImport heldUp
  obtain ⟨-, hdown⟩ := table_dropped_iff steady_oneImport (.turn 0 :: heldUp)
  refine ⟨i, index, hserved, hvector, hgiven, (hmissing 0 i index hserved hvector).mpr hgiven, ?_⟩
  have hstrands : Strands oneImport heldUp (.turn 0) :=
    ⟨i, key, index, vector, hserved, hprogress, hgiven⟩
  exact hdown.mpr (Or.inr ⟨[], .turn 0, heldUp, rfl, hstrands⟩)

end Session

end CodeSearch.Engine

import CodeSearch.Proofs.Engine.Lengths

/-!
Which tables a session has.

The vectors of a generation are in a table with the number of its build in its name, so no build
touches the table of another one, except to drop it: a build that was swapped in retires the
generation two rounds before its own, and one that came too late its own. Hence the table of a
generation that was swapped in is there until two more have been, and the build of the second one
has retired it (`GivenUp`). Nothing asks whether a question still searches that table. A search
that comes after that finds no table, and the store of vectors is given up for good.
-/
set_option autoImplicit false

namespace CodeSearch.Engine

open CodeSearch.Index (Generation Holder Event Traffic)

variable {σ : Type}

/-! ## Names of tables -/

theorem toList_repr_natCast (n : Nat) : (Int.repr n).toList = Nat.toDigits 10 n := Nat.toList_repr

theorem toList_repr_negSucc (n : Nat) :
    (Int.repr (Int.negSucc n)).toList = '-' :: Nat.toDigits 10 (n + 1) := by
  show ("-" ++ Nat.repr (n + 1)).toList = _
  rw [String.toList_append, Nat.toList_repr]
  rfl

theorem toDigits_ne_sign (n : Nat) (rest : List Char) : Nat.toDigits 10 n ≠ '-' :: rest := by
  intro h
  have hmem : '-' ∈ Nat.toDigits 10 n := h ▸ List.mem_cons_self
  have hdigit := Nat.isDigit_of_mem_toDigits (by decide) (by decide) hmem
  exact absurd hdigit (by decide)

theorem eq_of_toDigits_eq {m n : Nat} (h : Nat.toDigits 10 m = Nat.toDigits 10 n) : m = n := by
  have hparsed := congrArg (fun digits => Nat.ofDigitChars 10 digits 0) h
  simpa using hparsed

/-- Numbers that are written alike are equal. -/
theorem eq_of_repr_eq {m n : Int} (h : m.repr = n.repr) : m = n := by
  have hlist := congrArg String.toList h
  -- only numbers below zero are written with a sign
  cases m with
  | ofNat m =>
    cases n with
    | ofNat n =>
      have hdigits : Nat.toDigits 10 m = Nat.toDigits 10 n := by
        rw [← toList_repr_natCast, ← toList_repr_natCast]
        exact hlist
      rw [eq_of_toDigits_eq hdigits]
    | negSucc n =>
      rw [toList_repr_negSucc] at hlist
      exact absurd ((toList_repr_natCast m).symm.trans hlist) (toDigits_ne_sign m _)
  | negSucc m =>
    cases n with
    | ofNat n =>
      rw [toList_repr_negSucc] at hlist
      exact absurd ((toList_repr_natCast n).symm.trans hlist.symm) (toDigits_ne_sign n _)
    | negSucc n =>
      rw [toList_repr_negSucc, toList_repr_negSucc] at hlist
      have hsucc := eq_of_toDigits_eq (List.cons.inj hlist).2
      rw [Nat.succ.inj hsucc]

/-- Builds with different numbers have different tables. -/
theorem tableName_inj (e : Engine σ) {m n : Int} : e.tableName m = e.tableName n ↔ m = n := by
  constructor
  · intro h
    have hlist := congrArg String.toList h
    unfold tableName at hlist
    simp only [String.toList_append] at hlist
    exact eq_of_repr_eq (String.toList_injective (List.append_cancel_left hlist))
  · rintro rfl
    rfl

/-! ## What steps do to the database -/

/-- Whether a build is in a part that has nothing to do with tables. -/
def Stage.isPlain : Stage → Bool
  | .walking | .reading _ | .embedding .. | .gathered .. | .aborting _ => true
  | _ => false

/-- Whether a build has no table that it is going to publish or to drop. -/
def Stage.isTableless : Stage → Bool
  | .publishing g _ => g.vector.isNone
  | .retiring .. => false
  | _ => true

/-- Whether a build has dropped all that it was to drop. -/
def Stage.isCleared : Stage → Bool
  | .retiring [] _ | .ended _ => true
  | _ => false

/-- Until its vectors are stored a build leaves the tables alone and has none. -/
theorem stepAt_plain (e : Engine σ) {b : Build σ} (hplain : b.stage.isPlain = true) (place : Nat) :
    (b.stepAt e place).2.database = e.database ∧ (b.stepAt e place).2.monitor = e.monitor ∧
      (b.stepAt e place).1.stage.isTableless = true := by
  cases stepAt_move e b place with
  | idle hquiet hnext =>
    rw [hnext]
    refine ⟨rfl, rfl, ?_⟩
    cases hstage : b.stage with
    | publishing g embedded => simp [hstage, Stage.isPlain] at hplain
    | retiring old summary => simp [hstage, Stage.isPlain] at hplain
    | _ => rfl
  | walked files hstage hwalk hfiles hnext => rw [hnext]; exact ⟨rfl, rfl, rfl⟩
  | stopped obstacle hstage hwalk hnext => rw [hnext]; exact ⟨rfl, rfl, rfl⟩
  | read readings p r hstage hplace hread hnext =>
    obtain ⟨reported, notices, hengine⟩ := readFile_eq_with e b.root p
    rw [hnext, hengine]
    exact ⟨rfl, rfl, rfl⟩
  | unread readings p fault hstage hplace hread hnext =>
    obtain ⟨reported, notices, hengine⟩ := readFile_eq_with e b.root p
    rw [hnext, hengine]
    exact ⟨rfl, rfl, rfl⟩
  | overtaken extract embedded hstage hstale hnext => rw [hnext]; exact ⟨rfl, rfl, rfl⟩
  | readAll readings hstage hdone hnext => rw [hnext]; exact ⟨rfl, rfl, rfl⟩
  | embed extract slots slot embedder hstage hplace hembedder hnext =>
    rw [hnext]
    exact ⟨rfl, rfl, rfl⟩
  | crashed extract slots fault hstage hnext => rw [hnext]; exact ⟨rfl, rfl, rfl⟩
  | gathered extract slots chunks embedded hstage hchunks hnext =>
    rw [hnext]
    exact ⟨rfl, rfl, rfl⟩
  | made extract chunks embedded after hstage hafter hnext =>
    rw [hnext]
    rcases hafter with ⟨rfl, -⟩ | rfl
    · exact ⟨rfl, rfl, rfl⟩
    · exact ⟨rfl, rfl, rfl⟩
  | abort result hstage hnext => rw [hnext]; exact ⟨rfl, rfl, rfl⟩
  | store g embedded hstage hnext => rw [hstage] at hplain; exact absurd hplain Bool.false_ne_true
  | publish g embedded hstage hnext => rw [hstage] at hplain; exact absurd hplain Bool.false_ne_true
  | retire g old summary hstage hnext =>
    rw [hstage] at hplain
    exact absurd hplain Bool.false_ne_true
  | retired summary hstage hnext => rw [hstage] at hplain; exact absurd hplain Bool.false_ne_true

/-- A build that has dropped all it was to drop does nothing but end. -/
theorem stepAt_cleared (e : Engine σ) {b : Build σ} (hcleared : b.stage.isCleared = true)
    (place : Nat) : (∃ result, (b.stepAt e place).1.stage = .ended result) ∧
      (b.stepAt e place).2 = e ∧ b.event? = none := by
  unfold Build.stepAt Build.event?
  cases hstage : b.stage with
  | retiring old summary =>
    cases old with
    | nil => exact ⟨⟨_, rfl⟩, rfl, rfl⟩
    | cons x old => simp [hstage, Stage.isCleared] at hcleared
  | ended result => exact ⟨⟨result, hstage⟩, rfl, rfl⟩
  | _ => simp [hstage, Stage.isCleared] at hcleared

theorem retire_tables {e : Engine σ} (hwritable : e.database.Writable) (g : Generation) :
    (e.retire g).database.failures = e.database.failures ∧ (e.retire g).monitor = e.monitor ∧
      ∀ other, (e.retire g).database.rows? other =
        if g.vector.map (·.collection) = some other then none else e.database.rows? other := by
  unfold retire
  cases hvector : g.vector with
  | none => exact ⟨rfl, rfl, fun other => rfl⟩
  | some index =>
    obtain ⟨left, hdrop⟩ :=
      Vector.exists_dropCollection hwritable.list hwritable.drop index.collection
    obtain ⟨hleft, htables⟩ := Vector.dropCollection_inv hdrop
    dsimp only
    rw [hdrop]
    refine ⟨hleft, rfl, ?_⟩
    intro other
    rw [htables]
    refine if_congr ⟨?_, ?_⟩ rfl rfl
    · rintro rfl
      rfl
    · intro heq
      exact (Option.some.inj heq).symm

/-- Storing makes the table of the build, or finds a line that does not fit and gives up the
store. -/
theorem store_cases {e : Engine σ} (hwritable : e.database.Writable) {n : Nat} {b : Build σ}
    {g : Generation} (hstorable : Vector.Storable n g.chunks) (embedded : Nat) :
    (∃ index written, (∀ c ∈ g.chunks, c.isEmbedded = true → Vector.FitsLine c.line) ∧
      b.store e g embedded =
        ({ b with stage := .publishing { g with vector := some index } embedded },
          { e with database := written }) ∧
      index.collection = e.tableName b.number ∧ written.failures = e.database.failures ∧
      (written.rows? (e.tableName b.number)).isSome ∧
      ∀ other, other ≠ e.tableName b.number → written.rows? other = e.database.rows? other) ∨
    ∃ reason, (∃ c ∈ g.chunks, c.isEmbedded = true ∧ ¬ Vector.FitsLine c.line) ∧
      b.store e g embedded = ({ b with stage := .publishing g embedded }, e.markDown reason) := by
  -- the lines are all that can be wrong with the table
  by_cases hfits : ∀ c ∈ g.chunks, c.isEmbedded = true → Vector.FitsLine c.line
  · left
    obtain ⟨index, written, hbuild, hrest⟩ :=
      Vector.exists_build hwritable (e.tableName b.number) hstorable hfits
    refine ⟨index, written, hfits, ?_, hrest⟩
    unfold Build.store
    rw [hbuild]
  · right
    obtain ⟨u, hbuild⟩ := Vector.exists_unavailable (d := e.database) (e.tableName b.number)
      hstorable hfits
    refine ⟨u.message, ?_, ?_⟩
    · push Not at hfits
      exact hfits
    · unfold Build.store
      rw [hbuild]

theorem advance_tables (e : Engine σ) (i : Inquiry) :
    (i.advance e).2.database.failures = e.database.failures ∧
      (i.advance e).2.database.tables = e.database.tables := by
  show (i.step e).2.database.failures = _ ∧ (i.step e).2.database.tables = _
  -- the database is only asked, and is as it was after that
  have hsame := fun index vector =>
    Vector.same_of_query index e.database vector i.query.kind i.query.limit
  cases i.step_move e with
  | searched key index vector found hprogress hquery hnext =>
    rw [hnext]
    exact hsame index vector
  | lost key index vector u hprogress hquery hnext =>
    rw [hnext]
    exact hsame index vector
  | unreadable key index vector fault hprogress hquery hnext =>
    rw [hnext]
    exact hsame index vector
  | _ =>
    rename_i hnext
    rw [hnext]
    exact ⟨rfl, rfl⟩

namespace Session

theorem tableName_after (e : Engine σ) (past : List Action) (number : Int) :
    (after e past).engine.tableName number = e.tableName number := by
  have hsame := sameServices_after e past
  unfold tableName tablePrefix
  rw [hsame.settings, hsame.session]

/-- An action that is no step of a build. It leaves the tables as they are and the generations of the
holder, and the builds but for some that begin. -/
structure Quiet (e : Engine σ) (past : List Action) (a : Action) (begun : List (Build σ)) : Prop where
  swapped : Traffic.swapped (trace e (a :: past)) = Traffic.swapped (trace e past)
  tables : (after e (a :: past)).engine.database.failures =
      (after e past).engine.database.failures ∧
    (after e (a :: past)).engine.database.tables = (after e past).engine.database.tables
  current : (after e (a :: past)).engine.holder.current = (after e past).engine.holder.current
  previous : (after e (a :: past)).engine.holder.previous = (after e past).engine.holder.previous
  builds : (after e (a :: past)).builds = (after e past).builds ++ begun
  begun : ∀ b ∈ begun, b.stage = .walking

/-- Every action is a step of a build, or is none. -/
theorem build_or_quiet (e : Engine σ) (past : List Action) (a : Action) :
    (∃ call place b, a = .build call place ∧ (after e past).builds[call]? = some b) ∨
      ∃ begun, Quiet e past a begun := by
  cases step_move (after e past) a with
  | builds call place b ha hb hevent hnext => exact Or.inl ⟨call, place, b, ha, hb⟩
  | idle hevent hnext =>
    refine Or.inr ⟨[], by rw [trace, hevent]; rfl, ?_, ?_, ?_, ?_, by simp⟩
    · rw [after, hnext]; exact ⟨rfl, rfl⟩
    · rw [after, hnext]
    · rw [after, hnext]
    · rw [after, hnext, List.append_nil]
  | begins path b engine ha hbegin hevent hnext =>
    obtain ⟨-, -, rfl⟩ := begin_ok hbegin
    refine Or.inr ⟨[b], by rw [trace, hevent]; rfl, ?_, ?_, ?_, by rw [after, hnext], ?_⟩
    · rw [after, hnext]; exact ⟨rfl, rfl⟩
    · rw [after, hnext]; rfl
    · rw [after, hnext]; rfl
    · intro b' hb'
      rw [List.mem_singleton.mp hb']
      exact stage_begin hbegin
  | asks q ha hevent hnext =>
    refine Or.inr ⟨[], by rw [trace, hevent]; rfl, ?_, ?_, ?_, ?_, by simp⟩
    · rw [after, hnext]; exact ⟨rfl, rfl⟩
    · rw [after, hnext]
    · rw [after, hnext]
    · rw [after, hnext, List.append_nil]
  | looks asker q r hasker hr hevent hnext =>
    obtain ⟨event, hsome, hreader⟩ := hevent
    refine Or.inr ⟨[], ?_, ?_, ?_, ?_, ?_, by simp⟩
    · rw [trace, hsome]
      exact Traffic.swapped_of_reader hreader
    · rw [after, hnext]; exact ⟨rfl, rfl⟩
    · rw [after, hnext]
    · rw [after, hnext]
    · rw [after, hnext, List.append_nil]
  | answers asker i ha hasker hevent hnext =>
    obtain ⟨results, monitor, database, world, notices, hengine⟩ :=
      advance_eq_with (after e past).engine i
    have hholder : (i.step (after e past).engine).2.holder = (after e past).engine.holder := by
      rw [Inquiry.step]
      dsimp only
      rw [hengine]
    refine Or.inr ⟨[], by rw [trace, hevent]; rfl, ?_, ?_, ?_, ?_, by simp⟩
    · rw [after, hnext]
      exact advance_tables (after e past).engine i
    · rw [after, hnext]
      exact congrArg Holder.current hholder
    · rw [after, hnext]
      exact congrArg Holder.previous hholder
    · rw [after, hnext, List.append_nil]
  | edits disk ha hevent hnext =>
    refine Or.inr ⟨[], by rw [trace, hevent]; rfl, ?_, ?_, ?_, ?_, by simp⟩
    · rw [after, hnext]; exact ⟨rfl, rfl⟩
    · rw [after, hnext]
    · rw [after, hnext]
    · rw [after, hnext, List.append_nil]

/-! ## The tables after some actions -/

/-- Whether the build with a number has dropped all that it was to drop. -/
def Cleared (s : Session σ) (number : Int) : Prop :=
  ∃ b ∈ s.builds, b.number = number ∧ b.stage.isCleared = true

/-- Whether a generation is given up: two newer ones have been swapped in, and the build of the
second one has dropped what it was to drop. -/
def GivenUp (e : Engine σ) (past : List Action) (g : Generation) : Prop :=
  ∃ (k : Nat) (newer : Generation), (Traffic.swapped (trace e past))[k]? = some newer ∧
    (Traffic.swapped (trace e past))[k + 2]? = some g ∧ Cleared (after e past) newer.number

/-- What a build with a number may be about to drop: nothing, or its own generation if that was not
swapped in, or else the one that was swapped in two rounds before it. -/
def Drops (e : Engine σ) (swapped : List Generation) (number : Int) (old : List Generation) :
    Prop :=
  old = [] ∨ ∃ x, old = [x] ∧
    (∀ index, x.vector = some index → index.collection = e.tableName x.number) ∧
    ((x.number = number ∧ ∀ g ∈ swapped, g.number ≠ number) ∨
      ∃ k newer, swapped[k]? = some newer ∧ newer.number = number ∧ swapped[k + 2]? = some x)

/-- What a build is to drop stays that, whatever another build swaps in. -/
theorem Drops.cons {e : Engine σ} {swapped : List Generation} {number : Int} {old : List Generation}
    (h : Drops e swapped number old) {g : Generation} (hne : g.number ≠ number) :
    Drops e (g :: swapped) number old := by
  rcases h with hnone | ⟨x, hold, hcollection, hown | ⟨k, newer, hnewer, hnumber, hx⟩⟩
  · exact Or.inl hnone
  · refine Or.inr ⟨x, hold, hcollection, Or.inl ⟨hown.1, ?_⟩⟩
    exact List.forall_mem_cons.mpr ⟨hne, hown.2⟩
  · -- everything has moved one place
    exact Or.inr ⟨x, hold, hcollection, Or.inr ⟨k + 1, newer, hnewer, hnumber, hx⟩⟩

/-- What a build knows of tables is right. -/
def Tidy (e : Engine σ) (database : Vector.Database) (swapped : List Generation) (b : Build σ) :
    Prop :=
  match b.stage with
  | .publishing g _ => ∀ index, g.vector = some index →
    index.collection = e.tableName b.number ∧ database.rows? (e.tableName b.number) ≠ none
  | .retiring old _ => Drops e swapped b.number old
  | _ => True

theorem tidy_of_tableless {e : Engine σ} {database : Vector.Database} {swapped : List Generation}
    {b : Build σ} (h : b.stage.isTableless = true) : Tidy e database swapped b := by
  unfold Tidy
  cases hstage : b.stage with
  | publishing g embedded =>
    rw [hstage] at h
    intro index hindex
    simp [Stage.isTableless, hindex] at h
  | retiring old summary => simp [hstage, Stage.isTableless] at h
  | _ => exact trivial

/-- The tables that a session has: those of builds that are about to publish them, and those of
generations that are not given up. -/
structure Stocked (e : Engine σ) (past : List Action) : Prop where
  healthy : (after e past).engine.database.failures = []
  builds : ∀ b ∈ (after e past).builds,
    Tidy e (after e past).engine.database (Traffic.swapped (trace e past)) b
  collection : ∀ g ∈ Traffic.swapped (trace e past), ∀ index, g.vector = some index →
    index.collection = e.tableName g.number
  missing_iff : ∀ g ∈ Traffic.swapped (trace e past), g.vector ≠ none →
    ((after e past).engine.database.rows? (e.tableName g.number) = none ↔ GivenUp e past g)

variable {e : Engine σ} {past : List Action}

/-- A number that a build under way has is that of no generation that was swapped in. -/
theorem number_ne_of_open (hacc : Accounted e past) {b : Build σ} (hb : b ∈ (after e past).builds)
    (hopen : b.stage.isOpen = true) {g : Generation} (hg : g ∈ Traffic.swapped (trace e past)) :
    g.number ≠ b.number := by
  intro hnumber
  have hunfinished := (hacc.unfinished_iff b.number).mpr ⟨b, hb, rfl, hopen⟩
  exact ((Traffic.consistent hacc.proper).ended g hg).2 (hnumber ▸ hunfinished)

theorem eq_of_swapped_number (hacc : Accounted e past) {g g' : Generation}
    (hg : g ∈ Traffic.swapped (trace e past)) (hg' : g' ∈ Traffic.swapped (trace e past))
    (hnumber : g.number = g'.number) : g = g' := by
  obtain ⟨i, hi⟩ := List.mem_iff_getElem?.mp hg
  obtain ⟨j, hj⟩ := List.mem_iff_getElem?.mp hg'
  rw [Traffic.swapped_place_unique hacc.proper hi hj hnumber, hj] at hi
  exact (Option.some.inj hi).symm

/-- A build that takes a step has cleared what it has cleared now, and the others what they had. -/
theorem cleared_build_iff (hacc : Accounted e past) {call place : Nat} {b : Build σ}
    (hb : (after e past).builds[call]? = some b) (number : Int) :
    Cleared (after e (.build call place :: past)) number ↔
      number = b.number ∧ (b.stepAt (after e past).engine place).1.stage.isCleared = true ∨
        number ≠ b.number ∧ Cleared (after e past) number := by
  have hnumber := stepAt_number (after e past).engine b place
  unfold Cleared
  rw [after_build hb]
  constructor
  · rintro ⟨b', hmem, rfl, hcleared⟩
    rcases (hacc.mem_set_iff hb _).mp hmem with rfl | ⟨hmem, hne⟩
    · exact Or.inl ⟨hnumber, hcleared⟩
    · exact Or.inr ⟨hne, b', hmem, rfl, hcleared⟩
  · rintro (⟨rfl, hcleared⟩ | ⟨hne, b', hmem, rfl, hcleared⟩)
    · exact ⟨_, (hacc.mem_set_iff hb _).mpr (Or.inl rfl), hnumber, hcleared⟩
    · exact ⟨b', (hacc.mem_set_iff hb _).mpr (Or.inr ⟨hmem, hne⟩), rfl, hcleared⟩

/-- Nothing is given up by an action that clears nothing for a generation that was swapped in. -/
theorem givenUp_congr {a : Action}
    (hswapped : Traffic.swapped (trace e (a :: past)) = Traffic.swapped (trace e past))
    (hcleared : ∀ g ∈ Traffic.swapped (trace e past),
      (Cleared (after e (a :: past)) g.number ↔ Cleared (after e past) g.number))
    (g : Generation) : GivenUp e (a :: past) g ↔ GivenUp e past g := by
  unfold GivenUp
  rw [hswapped]
  refine exists_congr fun k => exists_congr fun newer => ?_
  refine and_congr_right fun hnewer => and_congr_right fun _ => ?_
  exact hcleared newer (List.mem_of_getElem? hnewer)

section Swap

variable {call : Nat} {b : Build σ} {g : Generation} {embedded : Nat}

theorem swapped_swap (hfresh : e.holder = {}) (hb : (after e past).builds[call]? = some b)
    (hstage : b.stage = .publishing g embedded)
    (hlatest : g.number = (after e past).engine.holder.latest) (place : Nat) :
    Traffic.swapped (trace e (.build call place :: past)) =
      g :: Traffic.swapped (trace e past) := by
  have hholder := holder_after hfresh past
  rw [trace_build hb, Build.event?, hstage]
  show Traffic.swapped (.publish g :: trace e past) = _
  rw [Traffic.swapped, ← hholder, if_pos (Traffic.publish_fst.mpr hlatest)]

/-- It is given the generation to drop that was swapped in two rounds before. -/
theorem stage_swap (hfresh : e.holder = {}) (hacc : Accounted e past)
    (hstage : b.stage = .publishing g embedded)
    (hlatest : g.number = (after e past).engine.holder.latest) (place : Nat) :
    (b.stepAt (after e past).engine place).1.stage =
      .retiring (Traffic.swapped (trace e past))[1]?.toList (summaryOf g embedded true) := by
  have hholder := holder_after hfresh past
  have hprevious : (after e past).engine.holder.previous =
      (Traffic.swapped (trace e past))[1]? := by
    rw [hholder]
    exact (Traffic.consistent hacc.proper).previous_eq
  rw [Build.stepAt, hstage]
  show (b.publish (after e past).engine g embedded).1.stage = _
  rw [publish_stage, Holder.publish, if_pos hlatest, hprevious]

/-- Nothing is given up by swapping in alone. -/
theorem givenUp_swap_iff (hfresh : e.holder = {}) (hacc : Accounted e past)
    (hb : (after e past).builds[call]? = some b) (hstage : b.stage = .publishing g embedded)
    (hlatest : g.number = (after e past).engine.holder.latest) (place : Nat) {g' : Generation} :
    GivenUp e (.build call place :: past) g' ↔ GivenUp e past g' := by
  have hmem : b ∈ (after e past).builds := List.mem_of_getElem? hb
  have hopen : b.stage.isOpen = true := by rw [hstage]; rfl
  have hswapped := swapped_swap hfresh hb hstage hlatest place
  constructor
  · rintro ⟨k, newer, hnewer, hg, hcleared⟩
    rw [hswapped] at hnewer hg
    rw [cleared_build_iff hacc hb, stage_swap hfresh hacc hstage hlatest] at hcleared
    cases k with
    | zero =>
      -- the build has only just been given what it is to drop
      rw [List.getElem?_cons_succ] at hg
      rw [hg] at hcleared
      rcases hcleared with ⟨-, hnow⟩ | ⟨hne, -⟩
      · exact absurd hnow Bool.false_ne_true
      · obtain rfl := Option.some.inj hnewer
        exact absurd (hacc.made_number b hmem g (by rw [hstage]; rfl)) hne
    | succ k =>
      rw [List.getElem?_cons_succ] at hnewer hg
      rcases hcleared with ⟨hown, -⟩ | ⟨-, hbefore⟩
      · exact absurd hown (number_ne_of_open hacc hmem hopen (List.mem_of_getElem? hnewer))
      · exact ⟨k, newer, hnewer, hg, hbefore⟩
  · rintro ⟨k, newer, hnewer, hg, hcleared⟩
    refine ⟨k + 1, newer, by rw [hswapped]; exact hnewer, by rw [hswapped]; exact hg, ?_⟩
    rw [cleared_build_iff hacc hb]
    exact Or.inr ⟨number_ne_of_open hacc hmem hopen (List.mem_of_getElem? hnewer), hcleared⟩

end Swap

namespace Stocked

theorem empty (hhealthy : e.database.failures = []) : Stocked e [] where
  healthy := hhealthy
  builds b hb := by simp [after] at hb
  collection g hg := by simp [trace, Traffic.swapped] at hg
  missing_iff g hg := by simp [trace, Traffic.swapped] at hg

/-- An action that leaves the tables and the builds alone, but for builds that begin. -/
theorem of_same (h : Stocked e past) {a : Action} (begun : List (Build σ))
    (hswapped : Traffic.swapped (trace e (a :: past)) = Traffic.swapped (trace e past))
    (htables : (after e (a :: past)).engine.database.failures =
        (after e past).engine.database.failures ∧
      (after e (a :: past)).engine.database.tables = (after e past).engine.database.tables)
    (hbuilds : (after e (a :: past)).builds = (after e past).builds ++ begun)
    (hbegun : ∀ b ∈ begun, b.stage = .walking) : Stocked e (a :: past) := by
  have hrows : ∀ name, (after e (a :: past)).engine.database.rows? name =
      (after e past).engine.database.rows? name := by
    intro name
    unfold Vector.Database.rows?
    rw [htables.2]
  have hcleared : ∀ number,
      Cleared (after e (a :: past)) number ↔ Cleared (after e past) number := by
    intro number
    unfold Cleared
    rw [hbuilds]
    constructor
    · rintro ⟨b, hb, hnumber, hdone⟩
      rcases List.mem_append.mp hb with hold | hnew
      · exact ⟨b, hold, hnumber, hdone⟩
      · -- a build that begins has nothing to drop yet
        rw [hbegun b hnew] at hdone
        exact absurd hdone Bool.false_ne_true
    · rintro ⟨b, hb, hdone⟩
      exact ⟨b, List.mem_append_left _ hb, hdone⟩
  refine ⟨htables.1.trans h.healthy, ?_, hswapped ▸ h.collection, ?_⟩
  · intro b hb
    rw [hbuilds] at hb
    rcases List.mem_append.mp hb with hold | hnew
    · have htidy := h.builds b hold
      unfold Tidy at htidy ⊢
      rw [hswapped]
      simp only [hrows]
      exact htidy
    · exact tidy_of_tableless (by rw [hbegun b hnew]; rfl)
  · intro g hg hvector
    rw [hswapped] at hg
    rw [hrows, h.missing_iff g hg hvector, givenUp_congr hswapped fun g' _ => hcleared g'.number]

variable {call place : Nat} {b : Build σ}

/-- A step of a build that swaps nothing in. What it does to tables must not concern other
builds. -/
theorem of_build (h : Stocked e past) (hacc : Accounted e past)
    (hb : (after e past).builds[call]? = some b)
    (hswapped : Traffic.swapped (trace e (.build call place :: past)) =
      Traffic.swapped (trace e past))
    (hhealthy : (b.stepAt (after e past).engine place).2.database.failures = [])
    (htables : ∀ b' ∈ (after e past).builds, b'.stage.isOpen = true → b'.number ≠ b.number →
      (b.stepAt (after e past).engine place).2.database.rows? (e.tableName b'.number) =
        (after e past).engine.database.rows? (e.tableName b'.number))
    (hnext : Tidy e (b.stepAt (after e past).engine place).2.database
      (Traffic.swapped (trace e past)) (b.stepAt (after e past).engine place).1)
    (hmissing : ∀ g ∈ Traffic.swapped (trace e past), g.vector ≠ none →
      ((b.stepAt (after e past).engine place).2.database.rows? (e.tableName g.number) = none ↔
        GivenUp e (.build call place :: past) g)) :
    Stocked e (.build call place :: past) := by
  have hafter := after_build hb place
  refine ⟨by rw [hafter]; exact hhealthy, ?_, hswapped ▸ h.collection, ?_⟩
  · intro b' hb'
    rw [hswapped, hafter]
    rw [hafter] at hb'
    rcases (hacc.mem_set_iff hb _).mp hb' with rfl | ⟨hmem, hne⟩
    · exact hnext
    · -- another build keeps its table, which this one does not touch
      have htidy := h.builds b' hmem
      unfold Tidy at htidy ⊢
      cases hstage : b'.stage with
      | publishing g embedded =>
        rw [hstage] at htidy
        dsimp only
        rw [htables b' hmem (by rw [hstage]; rfl) hne]
        exact htidy
      | retiring old summary =>
        rw [hstage] at htidy
        exact htidy
      | _ => exact trivial
  · intro g hg hvector
    rw [hswapped] at hg
    have hiff := hmissing g hg hvector
    rw [← hiff, hafter]

/-- A step of a build that is under way, swaps nothing in, and keeps the tables of others. -/
theorem of_open (h : Stocked e past) (hacc : Accounted e past)
    (hb : (after e past).builds[call]? = some b) (hopen : b.stage.isOpen = true)
    (hswapped : Traffic.swapped (trace e (.build call place :: past)) =
      Traffic.swapped (trace e past))
    (hhealthy : (b.stepAt (after e past).engine place).2.database.failures = [])
    (htables : ∀ number, number ≠ b.number →
      (b.stepAt (after e past).engine place).2.database.rows? (e.tableName number) =
        (after e past).engine.database.rows? (e.tableName number))
    (hnext : Tidy e (b.stepAt (after e past).engine place).2.database
      (Traffic.swapped (trace e past)) (b.stepAt (after e past).engine place).1) :
    Stocked e (.build call place :: past) := by
  have hmem : b ∈ (after e past).builds := List.mem_of_getElem? hb
  refine h.of_build hacc hb hswapped hhealthy (fun b' _ _ hne => htables _ hne) hnext ?_
  -- a generation that was swapped in has another number than a build under way
  intro g hg hvector
  rw [htables _ (number_ne_of_open hacc hmem hopen hg), h.missing_iff g hg hvector]
  refine (givenUp_congr hswapped ?_ g).symm
  intro g' hg'
  have hne := number_ne_of_open hacc hmem hopen hg'
  rw [cleared_build_iff hacc hb]
  simp [hne]

theorem step_plain (h : Stocked e past) (hacc : Accounted e past)
    (hb : (after e past).builds[call]? = some b) (hplain : b.stage.isPlain = true) (place : Nat) :
    Stocked e (.build call place :: past) := by
  obtain ⟨hdatabase, -, hnext⟩ := stepAt_plain (after e past).engine hplain place
  have hopen : b.stage.isOpen = true := by
    cases hstage : b.stage <;> simp [hstage, Stage.isPlain, Stage.isOpen] at hplain ⊢
  have hswapped : Traffic.swapped (trace e (.build call place :: past)) =
      Traffic.swapped (trace e past) := by
    rw [trace_build hb, Build.event?]
    cases hstage : b.stage with
    | publishing g embedded => simp [hstage, Stage.isPlain] at hplain
    | _ => rfl
  refine h.of_open hacc hb hopen hswapped ?_ ?_ (tidy_of_tableless hnext)
  · rw [hdatabase]
    exact h.healthy
  · intro number hne
    rw [hdatabase]

theorem step_store (h : Stocked e past) (hacc : Accounted e past)
    (hb : (after e past).builds[call]? = some b) {g : Generation} {embedded : Nat}
    (hstage : b.stage = .storing g embedded) (hbare : g.vector = none) {n : Nat}
    (hstorable : Vector.Storable n g.chunks) (place : Nat) :
    Stocked e (.build call place :: past) := by
  have hstep : b.stepAt (after e past).engine place = b.store (after e past).engine g embedded := by
    rw [Build.stepAt, hstage]
  have hswapped : Traffic.swapped (trace e (.build call place :: past)) =
      Traffic.swapped (trace e past) := by
    rw [trace_build hb, Build.event?, hstage]
    rfl
  have hname := tableName_after e past
  -- the new table is that of the build, so the others stay
  have hwritable := Vector.Database.writable_of_healthy h.healthy
  rcases store_cases hwritable (b := b) hstorable embedded with
    ⟨index, written, -, hstore, hcollection, hsame, hthere, hothers⟩ | ⟨reason, -, hstore⟩
  · rw [hname] at hcollection hthere hothers
    refine h.of_open hacc hb (by rw [hstage]; rfl) hswapped ?_ ?_ ?_
    · rw [hstep, hstore]
      exact hsame.trans h.healthy
    · intro number hne
      rw [hstep, hstore]
      exact hothers _ (mt (tableName_inj e).mp hne)
    · rw [hstep, hstore]
      intro index' hindex
      obtain rfl := Option.some.inj hindex
      exact ⟨hcollection, Option.isSome_iff_ne_none.mp hthere⟩
  · refine h.of_open hacc hb (by rw [hstage]; rfl) hswapped ?_ ?_ ?_
    · rw [hstep, hstore]
      exact h.healthy
    · intro number hne
      rw [hstep, hstore]
      rfl
    · rw [hstep, hstore]
      refine tidy_of_tableless ?_
      rw [Stage.isTableless, hbare]
      rfl

/-- A step that swaps a generation in. The others move one place, and nothing is dropped yet. -/
theorem step_swap (h : Stocked e past) (hfresh : e.holder = {}) (hacc : Accounted e past)
    (hb : (after e past).builds[call]? = some b) {g : Generation} {embedded : Nat}
    (hstage : b.stage = .publishing g embedded)
    (hlatest : g.number = (after e past).engine.holder.latest) (place : Nat) :
    Stocked e (.build call place :: past) := by
  have hmem : b ∈ (after e past).builds := List.mem_of_getElem? hb
  have hnumber : g.number = b.number := hacc.made_number b hmem g (by rw [hstage]; rfl)
  have hswapped := swapped_swap hfresh hb hstage hlatest place
  have hnext := stage_swap hfresh hacc hstage hlatest place
  have hafter := after_build hb place
  have hdatabase : (b.stepAt (after e past).engine place).2.database =
      (after e past).engine.database := by
    rw [Build.stepAt, hstage]
    rfl
  have htidy := h.builds b hmem
  rw [Tidy, hstage] at htidy
  refine ⟨?_, ?_, ?_, ?_⟩
  · rw [hafter, hdatabase]
    exact h.healthy
  · intro b' hb'
    rw [hswapped, hafter, hdatabase]
    rw [hafter] at hb'
    rcases (hacc.mem_set_iff hb _).mp hb' with rfl | ⟨hmem', hne⟩
    · -- the build itself now has the generation to retire that was the one before the current one
      rw [Tidy, hnext, stepAt_number]
      cases hsecond : (Traffic.swapped (trace e past))[1]? with
      | none => exact Or.inl rfl
      | some x =>
        refine Or.inr ⟨x, rfl, h.collection x (List.mem_of_getElem? hsecond), Or.inr ?_⟩
        exact ⟨0, g, rfl, hnumber, hsecond⟩
    · -- what other builds have to retire is only one place further down
      have hother := h.builds b' hmem'
      unfold Tidy at hother ⊢
      cases hstage' : b'.stage with
      | publishing g' embedded' =>
        rw [hstage'] at hother
        exact hother
      | retiring old summary =>
        rw [hstage'] at hother
        exact hother.cons (by rw [hnumber]; exact hne.symm)
      | _ => exact trivial
  · rw [hswapped]
    refine List.forall_mem_cons.mpr ⟨?_, h.collection⟩
    intro index hindex
    rw [hnumber]
    exact (htidy index hindex).1
  · rw [hswapped, hafter, hdatabase]
    refine List.forall_mem_cons.mpr ⟨?_, ?_⟩
    · intro hvector
      obtain ⟨index, hindex⟩ := Option.ne_none_iff_exists'.mp hvector
      rw [hnumber]
      constructor
      · intro hmissing
        exact absurd hmissing (htidy index hindex).2
      · -- the newest generation is not two places below any
        rintro ⟨k, newer, -, hg, -⟩
        have hfirst : (Traffic.swapped (trace e (.build call place :: past)))[0]? = some g := by
          rw [hswapped]
          rfl
        have hproper := (accounted hfresh (.build call place :: past)).proper
        have hplace := Traffic.swapped_place_unique hproper hg hfirst rfl
        omega
    · intro g' hg' hvector
      rw [h.missing_iff g' hg' hvector]
      exact (givenUp_swap_iff hfresh hacc hb hstage hlatest place).symm

/-- A step that publishes a generation: too late, or on top of the others. -/
theorem step_publish (h : Stocked e past) (hfresh : e.holder = {}) (hacc : Accounted e past)
    (hb : (after e past).builds[call]? = some b) {g : Generation} {embedded : Nat}
    (hstage : b.stage = .publishing g embedded) (place : Nat) :
    Stocked e (.build call place :: past) := by
  have hmem : b ∈ (after e past).builds := List.mem_of_getElem? hb
  have hopen : b.stage.isOpen = true := by rw [hstage]; rfl
  have hnumber : g.number = b.number := hacc.made_number b hmem g (by rw [hstage]; rfl)
  have hholder := holder_after hfresh past
  have hstep : b.stepAt (after e past).engine place =
      b.publish (after e past).engine g embedded := by
    rw [Build.stepAt, hstage]
  have htrace : trace e (.build call place :: past) = .publish g :: trace e past := by
    rw [trace_build hb, Build.event?, hstage]
    rfl
  have htidy := h.builds b hmem
  rw [Tidy, hstage] at htidy
  by_cases hlatest : g.number = (after e past).engine.holder.latest
  · exact h.step_swap hfresh hacc hb hstage hlatest place
  · -- a generation that comes too late is left to its own build to drop
    have hswapped : Traffic.swapped (trace e (.build call place :: past)) =
        Traffic.swapped (trace e past) := by
      rw [htrace, Traffic.swapped, ← hholder, if_neg (mt Traffic.publish_fst.mp hlatest)]
    refine h.of_open hacc hb hopen hswapped ?_ ?_ ?_
    · rw [hstep]
      exact h.healthy
    · intro number hne
      rw [hstep]
      rfl
    · rw [hstep, Tidy, publish_stage, Holder.publish, if_neg hlatest]
      refine Or.inr ⟨g, rfl, ?_, Or.inl ⟨hnumber, ?_⟩⟩
      · intro index hindex
        rw [hnumber]
        exact (htidy index hindex).1
      · intro g' hg'
        exact number_ne_of_open hacc hmem hopen hg'

theorem step_retire (h : Stocked e past) (hacc : Accounted e past)
    (hb : (after e past).builds[call]? = some b) {x : Generation} {old : List Generation}
    {summary : Summary} (hstage : b.stage = .retiring (x :: old) summary) (place : Nat) :
    Stocked e (.build call place :: past) := by
  have hmem : b ∈ (after e past).builds := List.mem_of_getElem? hb
  have hstep : b.stepAt (after e past).engine place =
      ({ b with stage := .retiring old summary }, (after e past).engine.retire x) := by
    rw [Build.stepAt, hstage]
  have hswapped : Traffic.swapped (trace e (.build call place :: past)) =
      Traffic.swapped (trace e past) := by
    rw [trace_build hb, Build.event?, hstage]
    rfl
  have hdrops := h.builds b hmem
  rw [Tidy, hstage] at hdrops
  obtain ⟨hsame, -, htables⟩ := retire_tables (Vector.Database.writable_of_healthy h.healthy) x
  rcases hdrops with hnone | ⟨x', hold, hcollection, hwhich⟩
  · exact absurd hnone (by simp)
  obtain ⟨rfl, rfl⟩ := List.cons.inj hold
  -- one table at most is dropped, that of the generation
  have hkept : ∀ number, number ≠ x.number →
      ((after e past).engine.retire x).database.rows? (e.tableName number) =
        (after e past).engine.database.rows? (e.tableName number) := by
    intro number hne
    rw [htables, if_neg]
    intro hdropped
    obtain ⟨index, hindex, hname⟩ := Option.map_eq_some_iff.mp hdropped
    rw [hcollection index hindex, tableName_inj] at hname
    exact hne hname.symm
  have hcleared : ∀ number, Cleared (after e (.build call place :: past)) number ↔
      number = b.number ∨ number ≠ b.number ∧ Cleared (after e past) number := by
    intro number
    rw [cleared_build_iff hacc hb, hstep]
    simp [Stage.isCleared]
  refine h.of_build hacc hb hswapped ?_ ?_ ?_ ?_
  · rw [hstep]
    exact hsame.trans h.healthy
  · intro b' hb' hopen hne
    rw [hstep]
    refine hkept _ ?_
    rcases hwhich with ⟨hown, -⟩ | ⟨k, newer, -, -, hx⟩
    · rw [hown]
      exact hne
    · exact (number_ne_of_open hacc hb' hopen (List.mem_of_getElem? hx)).symm
  · rw [hstep]
    exact Or.inl rfl
  · intro g hg hvector
    rw [hstep]
    -- the generation of a build that came too late was never swapped in
    rcases hwhich with ⟨hown, hnot⟩ | ⟨k, newer, hnewer, hnumber, hx⟩
    · have hne : g.number ≠ x.number := by
        rw [hown]
        exact hnot g hg
      rw [hkept _ hne, h.missing_iff g hg hvector]
      refine (givenUp_congr hswapped ?_ g).symm
      intro g' hg'
      rw [hcleared]
      simp [hnot g' hg']
    · by_cases hsame : g.number = x.number
      · -- the generation is the one that is dropped
        obtain rfl := eq_of_swapped_number hacc hg (List.mem_of_getElem? hx) hsame
        obtain ⟨index, hindex⟩ := Option.ne_none_iff_exists'.mp hvector
        have hgone :
            ((after e past).engine.retire g).database.rows? (e.tableName g.number) = none := by
          rw [htables, hindex, if_pos]
          exact congrArg some (hcollection index hindex)
        refine ⟨fun _ => ?_, fun _ => hgone⟩
        refine ⟨k, newer, ?_, ?_, (hcleared _).mpr (Or.inl hnumber)⟩
        · rw [hswapped]; exact hnewer
        · rw [hswapped]; exact hx
      · rw [hkept _ hsame, h.missing_iff g hg hvector]
        constructor
        · rintro ⟨k', newer', hnewer', hg', hbefore⟩
          refine ⟨k', newer', by rw [hswapped]; exact hnewer', by rw [hswapped]; exact hg', ?_⟩
          rw [hcleared]
          by_cases hown : newer'.number = b.number
          · exact Or.inl hown
          · exact Or.inr ⟨hown, hbefore⟩
        · rintro ⟨k', newer', hnewer', hg', hnow⟩
          rw [hswapped] at hnewer' hg'
          rcases (hcleared _).mp hnow with hown | ⟨-, hbefore⟩
          · -- the build has dropped no other generation than this one
            have hplace := Traffic.swapped_place_unique hacc.proper hnewer' hnewer
              (hown.trans hnumber.symm)
            rw [hplace, hx] at hg'
            exact absurd (congrArg Generation.number (Option.some.inj hg')).symm hsame
          · exact ⟨k', newer', hnewer', hg', hbefore⟩

/-- A step of a build that has dropped what it was to drop. -/
theorem step_cleared (h : Stocked e past) (hacc : Accounted e past)
    (hb : (after e past).builds[call]? = some b) (hcleared : b.stage.isCleared = true)
    (place : Nat) : Stocked e (.build call place :: past) := by
  have hmem : b ∈ (after e past).builds := List.mem_of_getElem? hb
  obtain ⟨⟨result, hnext⟩, hengine, hevent⟩ := stepAt_cleared (after e past).engine hcleared place
  have hswapped : Traffic.swapped (trace e (.build call place :: past)) =
      Traffic.swapped (trace e past) := by
    rw [trace_build hb, hevent]
    rfl
  refine h.of_build hacc hb hswapped ?_ ?_ (tidy_of_tableless (by rw [hnext]; rfl)) ?_
  · rw [hengine]
    exact h.healthy
  · intro b' _ _ _
    rw [hengine]
  · intro g hg hvector
    rw [hengine, h.missing_iff g hg hvector]
    refine (givenUp_congr hswapped ?_ g).symm
    intro g' _
    rw [cleared_build_iff hacc hb, hnext]
    by_cases hown : g'.number = b.number
    · have hbefore : Cleared (after e past) g'.number := ⟨b, hmem, hown.symm, hcleared⟩
      simp [hown, Stage.isCleared, hown ▸ hbefore]
    · simp [hown]

theorem step_build {n : Nat} (hsteady : Steady n e) (h : Stocked e past) (hacc : Accounted e past)
    (hb : (after e past).builds[call]? = some b) (place : Nat) :
    Stocked e (.build call place :: past) := by
  -- the part that the build is in decides what it does to the tables
  cases hstage : b.stage with
  | storing g embedded =>
    obtain ⟨-, hsized⟩ := (sized_after hsteady.measured past).2 b (List.mem_of_getElem? hb)
    rw [Build.Sized, hstage] at hsized
    exact h.step_store hacc hb hstage hsized.1 hsized.2 place
  | publishing g embedded => exact h.step_publish hsteady.fresh hacc hb hstage place
  | retiring old summary =>
    cases old with
    | nil => exact h.step_cleared hacc hb (by rw [hstage]; rfl) place
    | cons x old => exact h.step_retire hacc hb hstage place
  | ended result => exact h.step_cleared hacc hb (by rw [hstage]; rfl) place
  | _ => exact h.step_plain hacc hb (by rw [hstage]; rfl) place

end Stocked

/-- The tables of a session are in order after every action. -/
theorem stocked {n : Nat} (hsteady : Steady n e) (past : List Action) : Stocked e past := by
  induction past with
  | nil => exact Stocked.empty hsteady.healthy
  | cons a past ih =>
    -- only steps of builds touch tables or swap anything in
    rcases build_or_quiet e past a with ⟨call, place, b, rfl, hb⟩ | ⟨begun, hquiet⟩
    · exact ih.step_build hsteady (accounted hsteady.fresh past) hb place
    · exact ih.of_same begun hquiet.swapped hquiet.tables hquiet.builds hquiet.begun

end Session

end CodeSearch.Engine

import CodeSearch.Proofs.Engine.KeptTables
import CodeSearch.Proofs.Vector.StoredChunks

/-!
What is in the tables of a session.

A table is made by the build that its name tells the number of, with the rows of the embedded chunks
of the generation that this build has made. No other step writes a table: what else happens to one is
that it is dropped. So as long as a table is there, it holds the rows of its own generation,
whatever other builds and questions do (`Filed`).
-/
set_option autoImplicit false

namespace CodeSearch.Engine

open CodeSearch.Index (Generation Traffic)
open CodeSearch.Vector (VectorIndex Row chunkRows)

variable {σ : Type}

/-! ## Steps of builds -/

/-- Retiring a generation drops its table or leaves it, and leaves all others. -/
theorem rows?_retire (e : Engine σ) (g : Generation) (name : String) :
    (e.retire g).database.rows? name = e.database.rows? name ∨
      (e.retire g).database.rows? name = none ∧
        ∃ index, g.vector = some index ∧ index.collection = name := by
  unfold retire
  cases hvector : g.vector with
  | none => exact Or.inl rfl
  | some index =>
    dsimp only
    cases hdrop : Vector.dropCollection e.database index.collection with
    | error u => exact Or.inl rfl
    | ok left =>
      have htables := (Vector.dropCollection_inv hdrop).2 name
      by_cases hname : name = index.collection
      · rw [if_pos hname] at htables
        exact Or.inr ⟨htables, index, rfl, hname.symm⟩
      · rw [if_neg hname] at htables
        exact Or.inl htables

theorem rows?_of_retire {e : Engine σ} {g : Generation} {name : String} {rows : List Row}
    (h : (e.retire g).database.rows? name = some rows) : e.database.rows? name = some rows := by
  rcases rows?_retire e g name with hsame | ⟨hnone, -⟩
  · rwa [hsame] at h
  · rw [hnone] at h
    exact absurd h (by simp)

theorem rows?_retire_of_ne {e : Engine σ} {g : Generation} {name : String}
    (hne : ∀ index, g.vector = some index → index.collection ≠ name) :
    (e.retire g).database.rows? name = e.database.rows? name := by
  rcases rows?_retire e g name with hsame | ⟨-, index, hindex, hname⟩
  · exact hsame
  · exact absurd hname (hne index hindex)

/-- What a step of a build does to tables: it stores the vectors of the build, or at most drops
something, and a generation made by it has no table then. -/
inductive Build.Filing (e : Engine σ) (b : Build σ) (next : Build σ × Engine σ) : Prop where
  | leaves
      (hrows : ∀ name rows, next.2.database.rows? name = some rows →
        e.database.rows? name = some rows)
      (hmade : ∀ g, next.1.stage.made? = some g → b.stage.made? = some g ∨ g.vector = none)
  | stores (g : Generation) (embedded : Nat) (index : VectorIndex)
      (hstage : b.stage = .storing g embedded)
      (hnext : next.1.stage = .publishing { g with vector := some index } embedded)
      (hbuild : VectorIndex.build e.database (e.tableName b.number) g.chunks =
        .ok (index, next.2.database))

theorem stepAt_filing (e : Engine σ) (b : Build σ) (place : Nat) :
    b.Filing e (b.stepAt e place) := by
  cases stepAt_move e b place with
  | idle hquiet hnext =>
    rw [hnext]
    exact .leaves (fun _ _ hrows => hrows) fun g hg => Or.inl hg
  | read readings p r hstage hplace hread hnext =>
    obtain ⟨reported, notices, hengine⟩ := readFile_eq_with e b.root p
    rw [hnext, hengine]
    exact .leaves (fun _ _ hrows => hrows) (by simp [Stage.made?])
  | unread readings p fault hstage hplace hread hnext =>
    obtain ⟨reported, notices, hengine⟩ := readFile_eq_with e b.root p
    rw [hnext, hengine]
    exact .leaves (fun _ _ hrows => hrows) (by simp [Stage.made?])
  | made extract chunks embedded after hstage hafter hnext =>
    rw [hnext]
    refine .leaves (fun _ _ hrows => hrows) ?_
    intro g hg
    rcases hafter with ⟨rfl, -⟩ | rfl
    · obtain rfl := Option.some.inj hg
      exact Or.inr rfl
    · obtain rfl := Option.some.inj hg
      exact Or.inr rfl
  | store g embedded hstage hnext =>
    rw [hnext]
    unfold Build.store
    cases hbuild : VectorIndex.build e.database (e.tableName b.number) g.chunks with
    | ok built => exact .stores g embedded built.1 hstage rfl hbuild
    | error fault =>
      cases fault with
      | unavailable u =>
        refine .leaves (fun _ _ hrows => hrows) ?_
        intro g' hg'
        obtain rfl := Option.some.inj hg'
        exact Or.inl (by rw [hstage]; rfl)
      | data fault => exact .leaves (fun _ _ hrows => hrows) (by simp [Stage.made?])
  | publish g embedded hstage hnext =>
    rw [hnext]
    exact .leaves (fun _ _ hrows => hrows) (by simp [publish_stage, Stage.made?])
  | retire g old summary hstage hnext =>
    rw [hnext]
    exact .leaves (fun _ _ hrows => rows?_of_retire hrows) (by simp [Stage.made?])
  -- the other steps have nothing to do with the database
  | _ =>
    rename_i hnext
    rw [hnext]
    exact .leaves (fun _ _ hrows => hrows) (by simp [Stage.made?])

/-- A build that is about to store vectors has none stored yet. -/
def Build.Unstored (b : Build σ) : Prop :=
  ∀ g embedded, b.stage = .storing g embedded → g.vector = none

theorem unstored_stepAt (e : Engine σ) (b : Build σ) (place : Nat) (h : b.Unstored) :
    (b.stepAt e place).1.Unstored := by
  intro g embedded hstage
  cases stepAt_filing e b place with
  | stores g' embedded' index hbefore hnext hbuild =>
    rw [hnext] at hstage
    exact absurd hstage (by simp)
  | leaves hrows hmade =>
    rcases hmade g (by rw [hstage]; rfl) with hbefore | hnone
    · cases hof : b.stage with
      | storing g' embedded' =>
        rw [hof] at hbefore
        obtain rfl := Option.some.inj hbefore
        exact h _ _ hof
      | publishing g' embedded' =>
        -- after publishing nothing is stored
        have hnext : (b.stepAt e place).1.stage.isOpen = false := by
          rw [Build.stepAt, hof]
          rfl
        rw [hstage] at hnext
        exact absurd hnext (by simp [Stage.isOpen])
      | _ => simp [hof, Stage.made?] at hbefore
    · exact hnone

namespace Session

/-! ## The rows in the tables -/

/-- A generation that a session has come to: a build is about to store or to publish it, or it was
swapped in. -/
def Reached (e : Engine σ) (past : List Action) (g : Generation) : Prop :=
  (∃ b ∈ (after e past).builds, b.stage.made? = some g) ∨ g ∈ Traffic.swapped (trace e past)

/-- The tables of a session, as far as they are there, hold the rows of their generations, and each
was made by a build that has left storing behind. -/
structure Filed (e : Engine σ) (past : List Action) : Prop where
  rows : ∀ g, Reached e past g → ∀ index, g.vector = some index →
    index.collection = e.tableName g.number ∧
      ∀ rows, (after e past).engine.database.rows? index.collection = some rows →
        rows = chunkRows g.chunks
  stored : ∀ name rows, e.owns name = true →
    (after e past).engine.database.rows? name = some rows →
      ∃ b ∈ (after e past).builds, e.tableName b.number = name ∧ b.stage.isPastStoring = true

variable {e : Engine σ} {past : List Action} {call : Nat} {b : Build σ}

theorem unstored_after (e : Engine σ) (past : List Action) :
    ∀ b ∈ (after e past).builds, b.Unstored := by
  refine forall_builds ?_ unstored_stepAt e past
  intro e path b engine hbegin g embedded hstage
  rw [stage_begin hbegin] at hstage
  exact absurd hstage (by simp)

/-- A step of a build comes to no other generation than one that it makes. -/
theorem reached_build (hacc : Accounted e past) (hb : (after e past).builds[call]? = some b)
    (place : Nat) {g : Generation} (h : Reached e (.build call place :: past) g) :
    Reached e past g ∨ (b.stepAt (after e past).engine place).1.stage.made? = some g := by
  rcases h with ⟨b', hb', hmade⟩ | hswapped
  · rw [after_build hb] at hb'
    rcases (hacc.mem_set_iff hb _).mp hb' with rfl | ⟨hmem, -⟩
    · exact Or.inr hmade
    · exact Or.inl (Or.inl ⟨b', hmem, hmade⟩)
  · left
    rw [trace_build hb] at hswapped
    cases hevent : b.event? with
    | none =>
      rw [hevent] at hswapped
      exact Or.inr hswapped
    | some event =>
      rw [hevent] at hswapped
      rcases Traffic.swapped_cons event (trace e past) with hsame | ⟨new, rfl, hnew⟩
      · exact Or.inr (hsame ▸ hswapped)
      · rw [show (some (Index.Event.publish new)).toList ++ trace e past =
          Index.Event.publish new :: trace e past from rfl, hnew] at hswapped
        rcases List.mem_cons.mp hswapped with rfl | hbefore
        · refine Or.inl ⟨b, List.mem_of_getElem? hb, ?_⟩
          unfold Build.event? at hevent
          split at hevent
          · rename_i g' embedded hstage
            obtain rfl := Index.Event.publish.inj (Option.some.inj hevent)
            rw [hstage]
            rfl
          · simp at hevent
          · simp at hevent
        · exact Or.inr hbefore

/-- A build that is about to store its vectors has none, so a generation that has some is of another
build. -/
theorem number_ne_of_storing (hacc : Accounted e past) (hb : b ∈ (after e past).builds)
    {g : Generation} {embedded : Nat} (hstage : b.stage = .storing g embedded) {other : Generation}
    (hother : Reached e past other) {index : VectorIndex} (hindex : other.vector = some index) :
    other.number ≠ b.number := by
  intro hsame
  rcases hother with ⟨b', hb', hmade⟩ | hswapped
  · obtain rfl := hacc.eq_of_number hb' hb ((hacc.made_number b' hb' other hmade).symm.trans hsame)
    rw [hstage] at hmade
    obtain rfl := Option.some.inj hmade
    rw [unstored_after e past b' hb g embedded hstage] at hindex
    exact absurd hindex (by simp)
  · exact number_ne_of_open hacc hb (by rw [hstage]; rfl) hswapped hsame

namespace Filed

/-- A build that takes a step stays behind storing, if it is. -/
theorem exists_maker (h : Filed e past) (hacc : Accounted e past)
    (hb : (after e past).builds[call]? = some b) (place : Nat) {name : String} {rows : List Row}
    (howns : e.owns name = true)
    (hrows : (after e past).engine.database.rows? name = some rows) :
    ∃ b' ∈ (after e (.build call place :: past)).builds, e.tableName b'.number = name ∧
      b'.stage.isPastStoring = true := by
  obtain ⟨maker, hmaker, hname, hpast⟩ := h.stored name rows howns hrows
  rw [after_build hb]
  by_cases hnumber : maker.number = b.number
  · obtain rfl := hacc.eq_of_number hmaker (List.mem_of_getElem? hb) hnumber
    refine ⟨_, (hacc.mem_set_iff hb _).mpr (Or.inl rfl), ?_, isPastStoring_stepAt _ hpast place⟩
    rw [stepAt_number]
    exact hname
  · exact ⟨maker, (hacc.mem_set_iff hb _).mpr (Or.inr ⟨hmaker, hnumber⟩), hname, hpast⟩

/-- An action that leaves the tables alone, and the builds but for some that begin. -/
theorem of_same (h : Filed e past) {a : Action} (begun : List (Build σ))
    (hswapped : Traffic.swapped (trace e (a :: past)) = Traffic.swapped (trace e past))
    (htables : (after e (a :: past)).engine.database.tables =
      (after e past).engine.database.tables)
    (hbuilds : (after e (a :: past)).builds = (after e past).builds ++ begun)
    (hbegun : ∀ b ∈ begun, b.stage.made? = none) : Filed e (a :: past) := by
  have hrows : ∀ name, (after e (a :: past)).engine.database.rows? name =
      (after e past).engine.database.rows? name := by
    intro name
    unfold Vector.Database.rows?
    rw [htables]
  constructor
  · intro g hg index hindex
    have hbefore : Reached e past g := by
      rcases hg with ⟨b, hb, hmade⟩ | hg
      · rw [hbuilds, List.mem_append] at hb
        rcases hb with hold | hnew
        · exact Or.inl ⟨b, hold, hmade⟩
        · rw [hbegun b hnew] at hmade
          exact absurd hmade (by simp)
      · exact Or.inr (hswapped ▸ hg)
    rw [hrows]
    exact h.rows g hbefore index hindex
  · intro name rows howns hthere
    rw [hrows] at hthere
    obtain ⟨b, hb, hmade⟩ := h.stored name rows howns hthere
    rw [hbuilds]
    exact ⟨b, List.mem_append_left _ hb, hmade⟩

/-- A step that stores the vectors of a build. -/
theorem step_store (h : Filed e past) (hacc : Accounted e past)
    (hb : (after e past).builds[call]? = some b) {g : Generation} {embedded : Nat}
    {index : VectorIndex} (hstage : b.stage = .storing g embedded) (place : Nat)
    (hnext : (b.stepAt (after e past).engine place).1.stage =
      .publishing { g with vector := some index } embedded)
    (hbuild : VectorIndex.build (after e past).engine.database (e.tableName b.number) g.chunks =
      .ok (index, (b.stepAt (after e past).engine place).2.database)) :
    Filed e (.build call place :: past) := by
  have hmem : b ∈ (after e past).builds := List.mem_of_getElem? hb
  have hmade : b.stage.made? = some g := by rw [hstage]; rfl
  have hnumber : g.number = b.number := hacc.made_number b hmem g hmade
  have hengine : (after e (.build call place :: past)).engine =
      (b.stepAt (after e past).engine place).2 := by rw [after_build hb]
  obtain ⟨hcollection, -, hcases⟩ := Vector.build_cases hbuild
  -- nobody has written a table of this name before
  have hnone : (after e past).engine.database.rows? (e.tableName b.number) = none := by
    rw [Option.eq_none_iff_forall_ne_some]
    intro rows hrows
    obtain ⟨maker, hmaker, hname, hpast⟩ :=
      h.stored _ rows (owns_tableName e b.number) hrows
    obtain rfl := hacc.eq_of_number hmaker hmem ((tableName_inj e).mp hname)
    rw [hstage] at hpast
    exact absurd hpast Bool.false_ne_true
  constructor
  · intro g' hg' index' hindex'
    rw [hengine]
    rcases reached_build hacc hb place hg' with hbefore | hnew
    · obtain ⟨hname, hheld⟩ := h.rows g' hbefore index' hindex'
      have hother := number_ne_of_storing hacc hmem hstage hbefore hindex'
      refine ⟨hname, ?_⟩
      intro rows hrows
      rcases hcases with ⟨-, hsame⟩ | ⟨-, -, htables⟩
      · rw [hsame] at hrows
        exact hheld rows hrows
      · rw [htables, hname, if_neg (mt (tableName_inj e).mp hother), ← hname] at hrows
        exact hheld rows hrows
    · -- its own table holds what was just written, or nothing if there was nothing to write
      rw [hnext] at hnew
      obtain rfl := Option.some.inj hnew
      obtain rfl := Option.some.inj hindex'
      refine ⟨hcollection.trans (by rw [hnumber]), ?_⟩
      intro rows hrows
      rw [hcollection] at hrows
      rcases hcases with ⟨-, hsame⟩ | ⟨-, -, htables⟩
      · rw [hsame, hnone] at hrows
        exact absurd hrows (by simp)
      · rw [htables, if_pos rfl] at hrows
        exact (Option.some.inj hrows).symm
  · intro name rows howns hrows
    rw [hengine] at hrows
    rcases hcases with ⟨-, hsame⟩ | ⟨-, -, htables⟩
    · rw [hsame] at hrows
      exact h.exists_maker hacc hb place howns hrows
    · -- a table of its name was made by this build, any other one by an earlier step
      rw [htables] at hrows
      by_cases hname : name = e.tableName b.number
      · rw [after_build hb]
        refine ⟨_, (hacc.mem_set_iff hb _).mpr (Or.inl rfl), ?_, by rw [hnext]; rfl⟩
        rw [stepAt_number, hname]
      · rw [if_neg hname] at hrows
        exact h.exists_maker hacc hb place howns hrows

theorem step_build (h : Filed e past) (hacc : Accounted e past)
    (hb : (after e past).builds[call]? = some b) (place : Nat) :
    Filed e (.build call place :: past) := by
  have hengine : (after e (.build call place :: past)).engine =
      (b.stepAt (after e past).engine place).2 := by rw [after_build hb]
  have hfiling := stepAt_filing (after e past).engine b place
  cases hfiling with
  | stores g embedded index hstage hnext hbuild =>
    rw [tableName_after] at hbuild
    exact h.step_store hacc hb hstage place hnext hbuild
  | leaves hrows hmade =>
    constructor
    · intro g hg index hindex
      have hbefore : Reached e past g := by
        rcases reached_build hacc hb place hg with hbefore | hnew
        · exact hbefore
        · rcases hmade g hnew with hsame | hnone
          · exact Or.inl ⟨b, List.mem_of_getElem? hb, hsame⟩
          · rw [hnone] at hindex
            exact absurd hindex (by simp)
      obtain ⟨hname, hheld⟩ := h.rows g hbefore index hindex
      refine ⟨hname, ?_⟩
      intro rows hthere
      rw [hengine] at hthere
      exact hheld rows (hrows _ _ hthere)
    · intro name rows howns hthere
      rw [hengine] at hthere
      exact h.exists_maker hacc hb place howns (hrows _ _ hthere)

end Filed

/-- The tables of a session hold the rows of their generations, if none was there before. -/
theorem filed (hfresh : e.holder = {})
    (hunowned : ∀ name, e.owns name = true → e.database.rows? name = none)
    (past : List Action) : Filed e past := by
  induction past with
  | nil =>
    constructor
    · rintro g (⟨b, hb, -⟩ | hg)
      · exact absurd hb List.not_mem_nil
      · exact absurd hg List.not_mem_nil
    · intro name rows howns hrows
      rw [after, hunowned name howns] at hrows
      exact absurd hrows (by simp)
  | cons a past ih =>
    -- only steps of builds do anything to tables
    rcases build_or_quiet e past a with ⟨call, place, b, rfl, hb⟩ | ⟨begun, hquiet⟩
    · exact ih.step_build (accounted hfresh past) hb place
    · apply ih.of_same begun hquiet.swapped hquiet.tables.2 hquiet.builds
      intro b hb
      rw [hquiet.begun b hb]
      rfl

/-- The table of a generation that is current holds its rows for as long as it is there, whatever is
done later. -/
theorem rows_of_current (hfresh : e.holder = {})
    (hunowned : ∀ name, e.owns name = true → e.database.rows? name = none) {g : Generation}
    (hg : (after e past).engine.holder.current = some g) (more : List Action)
    {index : VectorIndex} (hindex : g.vector = some index) {rows : List Row}
    (hrows : (after e (more ++ past)).engine.database.rows? index.collection = some rows) :
    rows = chunkRows g.chunks := by
  rw [holder_after hfresh past] at hg
  have hswapped : g ∈ Traffic.swapped (trace e past) :=
    Traffic.mem_swapped_of_current (accounted hfresh past).proper hg
  obtain ⟨new, hgrown⟩ := exists_trace_append e more past
  have hlater : g ∈ Traffic.swapped (trace e (more ++ past)) := by
    rw [hgrown]
    exact (Traffic.swapped_suffix new _).subset hswapped
  exact ((filed hfresh hunowned (more ++ past)).rows g (Or.inr hlater) index hindex).2 rows hrows

end Session

end CodeSearch.Engine

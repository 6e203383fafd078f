import CodeSearch.Proofs.Engine.Counts
import CodeSearch.Proofs.Engine.TableRows

/-!
The table of a generation at the time it is published.

Between the step that makes a table and the one that publishes its generation others take theirs, and
whatever else they do to the database, they drop no table but those of generations that were swapped
in or came too late. So whatever fails, a generation that is published with vectors has a table, with
one row for each of its embedded chunks (`Intact`).
-/
set_option autoImplicit false

namespace CodeSearch.Engine

open CodeSearch.Index (Generation Holder Traffic)
open CodeSearch.Vector (VectorIndex chunkRows)

variable {σ : Type}

/-- The vectors of a generation are in the table with its number. -/
def NamesTable (e : Engine σ) (g : Generation) : Prop :=
  ∀ index, g.vector = some index → index.collection = e.tableName g.number

theorem length_chunkRows (g : Generation) : (chunkRows g.chunks).length = g.embedded := by
  rw [chunkRows, List.length_map, Generation.embedded, List.countP_eq_length_filter]

namespace Session

/-- The table that a build is about to publish holds the rows of its generation, and what it is to drop
is its own generation or one that was swapped in. -/
def Whole (e : Engine σ) (database : Vector.Database) (swapped : List Generation) (b : Build σ) :
    Prop :=
  match b.stage with
  | .publishing g _ => ∀ index, g.vector = some index →
    index.collection = e.tableName b.number ∧
      database.rows? (e.tableName b.number) = some (chunkRows g.chunks)
  | .retiring old _ => ∀ x ∈ old, NamesTable e x ∧ (x.number = b.number ∨ x ∈ swapped)
  | _ => True

theorem whole_of_tableless {e : Engine σ} {database : Vector.Database} {swapped : List Generation}
    {b : Build σ} (h : b.stage.isTableless = true) : Whole e database swapped b := by
  unfold Whole
  cases hstage : b.stage with
  | publishing g embedded =>
    rw [hstage] at h
    intro index hindex
    simp [Stage.isTableless, hindex] at h
  | retiring old summary => simp [hstage, Stage.isTableless] at h
  | _ => exact trivial

/-- That stays so while the tables of builds under way stay, and more is swapped in. -/
theorem Whole.mono {e : Engine σ} {database database' : Vector.Database}
    {swapped swapped' : List Generation} {b : Build σ} (h : Whole e database swapped b)
    (hrows : b.stage.isOpen = true →
      database'.rows? (e.tableName b.number) = database.rows? (e.tableName b.number))
    (hswapped : swapped ⊆ swapped') : Whole e database' swapped' b := by
  unfold Whole at h ⊢
  cases hstage : b.stage with
  | publishing g embedded =>
    rw [hstage] at h hrows
    dsimp only
    rw [hrows rfl]
    exact h
  | retiring old summary =>
    rw [hstage] at h
    intro x hx
    exact ⟨(h x hx).1, (h x hx).2.imp_right fun hmem => hswapped hmem⟩
  | _ => exact trivial

/-- What builds of a session know of their tables is right, whatever fails in the database. -/
structure Intact (e : Engine σ) (past : List Action) : Prop where
  builds : ∀ b ∈ (after e past).builds,
    Whole e (after e past).engine.database (Traffic.swapped (trace e past)) b
  names : ∀ g ∈ Traffic.swapped (trace e past), NamesTable e g

variable {e : Engine σ} {past : List Action} {call : Nat} {b : Build σ}

namespace Intact

/-- An action that leaves the tables alone, and the builds but for some that begin. -/
theorem of_same (h : Intact e past) {a : Action} (begun : List (Build σ))
    (hswapped : Traffic.swapped (trace e (a :: past)) = Traffic.swapped (trace e past))
    (htables : (after e (a :: past)).engine.database.tables =
      (after e past).engine.database.tables)
    (hbuilds : (after e (a :: past)).builds = (after e past).builds ++ begun)
    (hbegun : ∀ b ∈ begun, b.stage.isTableless = true) : Intact e (a :: past) := by
  constructor
  · intro b hb
    rw [hbuilds, List.mem_append] at hb
    rw [hswapped]
    rcases hb with hold | hnew
    · apply (h.builds b hold).mono _ (List.Subset.refl _)
      intro _
      unfold Vector.Database.rows?
      rw [htables]
    · exact whole_of_tableless (hbegun b hnew)
  · rw [hswapped]
    exact h.names

/-- A step of a build that leaves the tables of other builds under way. -/
theorem of_build (h : Intact e past) (hacc : Accounted e past)
    (hb : (after e past).builds[call]? = some b) (place : Nat)
    (hnames : ∀ g ∈ Traffic.swapped (trace e (.build call place :: past)), NamesTable e g)
    (hrows : ∀ b' ∈ (after e past).builds, b'.stage.isOpen = true → b'.number ≠ b.number →
      (b.stepAt (after e past).engine place).2.database.rows? (e.tableName b'.number) =
        (after e past).engine.database.rows? (e.tableName b'.number))
    (hnext : Whole e (b.stepAt (after e past).engine place).2.database
      (Traffic.swapped (trace e (.build call place :: past)))
      (b.stepAt (after e past).engine place).1) : Intact e (.build call place :: past) := by
  refine ⟨?_, hnames⟩
  intro b' hb'
  rw [after_build hb] at hb' ⊢
  rcases (hacc.mem_set_iff hb _).mp hb' with rfl | ⟨hmem, hne⟩
  · exact hnext
  · apply (h.builds b' hmem).mono
    · intro hopen
      exact hrows b' hmem hopen hne
    · rw [trace_build hb]
      exact (Traffic.swapped_suffix _ _).subset

/-- A step that swaps nothing in. -/
theorem of_quiet (h : Intact e past) (hacc : Accounted e past)
    (hb : (after e past).builds[call]? = some b) (place : Nat) (hquiet : b.event? = none)
    (hrows : ∀ b' ∈ (after e past).builds, b'.stage.isOpen = true → b'.number ≠ b.number →
      (b.stepAt (after e past).engine place).2.database.rows? (e.tableName b'.number) =
        (after e past).engine.database.rows? (e.tableName b'.number))
    (hnext : Whole e (b.stepAt (after e past).engine place).2.database
      (Traffic.swapped (trace e past)) (b.stepAt (after e past).engine place).1) :
    Intact e (.build call place :: past) := by
  have htrace : trace e (.build call place :: past) = trace e past := by
    rw [trace_build hb, hquiet]
    rfl
  exact h.of_build hacc hb place (htrace ▸ h.names) hrows (htrace ▸ hnext)

theorem step_store (h : Intact e past) (hacc : Accounted e past)
    (hb : (after e past).builds[call]? = some b) {g : Generation} {embedded : Nat}
    (hstage : b.stage = .storing g embedded) (hcounted : b.stage.Counted) (place : Nat) :
    Intact e (.build call place :: past) := by
  have hstep : b.stepAt (after e past).engine place = b.store (after e past).engine g embedded := by
    rw [Build.stepAt, hstage]
  rw [hstage] at hcounted
  obtain ⟨hplain, hcount, hsome⟩ := hcounted
  have hquiet : b.event? = none := by rw [Build.event?, hstage]
  cases hbuild : VectorIndex.build (after e past).engine.database
      ((after e past).engine.tableName b.number) g.chunks with
  | ok built =>
    obtain ⟨index, written⟩ := built
    rw [Build.store, hbuild] at hstep
    rw [tableName_after] at hbuild
    obtain ⟨hcollection, -, ⟨hnone, -⟩ | ⟨-, -, htables⟩⟩ := Vector.build_cases hbuild
    · -- there are embedded chunks, so there are rows
      have hlength := length_chunkRows g
      rw [hnone, List.length_nil] at hlength
      omega
    · apply h.of_quiet hacc hb place hquiet
      · intro b' _ _ hne
        rw [hstep]
        dsimp only
        rw [htables, if_neg (mt (tableName_inj e).mp hne)]
      · rw [hstep]
        intro index' hindex
        obtain rfl := Option.some.inj hindex
        dsimp only
        rw [htables, if_pos rfl]
        exact ⟨hcollection, rfl⟩
  | error fault =>
    -- nothing is written, and there are no vectors
    rw [Build.store, hbuild] at hstep
    apply h.of_quiet hacc hb place hquiet
    · intro b' _ _ _
      rw [hstep]
      cases fault with
      | unavailable u => rfl
      | data fault => rfl
    · rw [hstep]
      apply whole_of_tableless
      cases fault with
      | unavailable u => exact Option.isNone_iff_eq_none.mpr hplain
      | data fault => rfl

theorem step_publish (h : Intact e past) (hfresh : e.holder = {}) (hacc : Accounted e past)
    (hb : (after e past).builds[call]? = some b) {g : Generation} {embedded : Nat}
    (hstage : b.stage = .publishing g embedded) (place : Nat) :
    Intact e (.build call place :: past) := by
  have hmem : b ∈ (after e past).builds := List.mem_of_getElem? hb
  have hnumber : g.number = b.number := hacc.made_number b hmem g (by rw [hstage]; rfl)
  have hholder := holder_after hfresh past
  have htrace : trace e (.build call place :: past) = .publish g :: trace e past := by
    rw [trace_build hb, Build.event?, hstage]
    rfl
  have hstep : b.stepAt (after e past).engine place =
      b.publish (after e past).engine g embedded := by
    rw [Build.stepAt, hstage]
  have hwhole := h.builds b hmem
  rw [Whole, hstage] at hwhole
  have hown : NamesTable e g := by
    intro index hindex
    rw [hnumber]
    exact (hwhole index hindex).1
  have hrows : ∀ name, (b.stepAt (after e past).engine place).2.database.rows? name =
      (after e past).engine.database.rows? name := by
    intro name
    rw [hstep]
    rfl
  by_cases hlatest : g.number = (after e past).engine.holder.latest
  · have hswapped := swapped_swap hfresh hb hstage hlatest place
    apply h.of_build hacc hb place _ (fun _ _ _ _ => hrows _)
    · -- it is to drop the generation that was the previous one
      rw [Whole, stage_swap hfresh hacc hstage hlatest place]
      intro x hx
      have hx' : x ∈ Traffic.swapped (trace e past) := List.mem_of_getElem? (Option.mem_toList.mp hx)
      rw [hswapped]
      exact ⟨h.names x hx', Or.inr (List.mem_cons_of_mem _ hx')⟩
    · rw [hswapped]
      exact List.forall_mem_cons.mpr ⟨hown, h.names⟩
  · have hswapped : Traffic.swapped (trace e (.build call place :: past)) =
        Traffic.swapped (trace e past) := by
      rw [htrace, Traffic.swapped, ← hholder, if_neg (mt Traffic.publish_fst.mp hlatest)]
    apply h.of_build hacc hb place (hswapped ▸ h.names) (fun _ _ _ _ => hrows _)
    -- it is to drop its own
    rw [hstep, Whole, publish_stage, Holder.publish, if_neg hlatest]
    intro x hx
    obtain rfl := List.mem_singleton.mp hx
    exact ⟨hown, Or.inl hnumber⟩

theorem step_retire (h : Intact e past) (hacc : Accounted e past)
    (hb : (after e past).builds[call]? = some b) {x : Generation} {old : List Generation}
    {summary : Summary} (hstage : b.stage = .retiring (x :: old) summary) (place : Nat) :
    Intact e (.build call place :: past) := by
  have hstep : b.stepAt (after e past).engine place =
      ({ b with stage := .retiring old summary }, (after e past).engine.retire x) := by
    rw [Build.stepAt, hstage]
  have hwhole := h.builds b (List.mem_of_getElem? hb)
  rw [Whole, hstage] at hwhole
  obtain ⟨hname, hwhich⟩ := hwhole x List.mem_cons_self
  apply h.of_quiet hacc hb place (by rw [Build.event?, hstage])
  · intro b' hb' hopen hne
    rw [hstep]
    apply rows?_retire_of_ne
    intro index hindex heq
    rw [hname index hindex, tableName_inj] at heq
    -- a build under way has no number of a generation that is dropped
    rcases hwhich with hown | hswapped
    · exact hne (heq.symm.trans hown)
    · exact number_ne_of_open hacc hb' hopen hswapped heq
  · rw [hstep]
    intro y hy
    exact hwhole y (List.mem_cons_of_mem _ hy)

theorem step_build (h : Intact e past) (hfresh : e.holder = {}) (hacc : Accounted e past)
    (hb : (after e past).builds[call]? = some b) (hcounted : b.stage.Counted) (place : Nat) :
    Intact e (.build call place :: past) := by
  have hcleared : b.stage.isCleared = true → Intact e (.build call place :: past) := by
    intro hcleared
    obtain ⟨⟨result, hnext⟩, hengine, hquiet⟩ := stepAt_cleared (after e past).engine hcleared place
    apply h.of_quiet hacc hb place hquiet
    · intro b' _ _ _
      rw [hengine]
    · exact whole_of_tableless (by rw [hnext]; rfl)
  -- the part that the build is in decides what it does to the tables
  cases hstage : b.stage with
  | storing g embedded => exact h.step_store hacc hb hstage hcounted place
  | publishing g embedded => exact h.step_publish hfresh hacc hb hstage place
  | retiring old summary =>
    cases old with
    | nil => exact hcleared (by rw [hstage]; rfl)
    | cons x old => exact h.step_retire hacc hb hstage place
  | ended result => exact hcleared (by rw [hstage]; rfl)
  | _ =>
    obtain ⟨hdatabase, -, hnext⟩ :=
      stepAt_plain (after e past).engine (b := b) (by rw [hstage]; rfl) place
    have hswapped : Traffic.swapped (trace e (.build call place :: past)) =
        Traffic.swapped (trace e past) := by
      rw [trace_build hb, Build.event?, hstage]
      rfl
    apply h.of_build hacc hb place (hswapped ▸ h.names)
    · intro b' _ _ _
      rw [hdatabase]
    · exact whole_of_tableless hnext

end Intact

/-- The tables of builds are intact after every action. -/
theorem intact (h : Giving e) (past : List Action) : Intact e past := by
  induction past with
  | nil =>
    refine ⟨?_, ?_⟩
    · intro b hb
      simp [after] at hb
    · intro g hg
      simp [trace, Traffic.swapped] at hg
  | cons a past ih =>
    rcases build_or_quiet e past a with ⟨call, place, b, rfl, hb⟩ | ⟨begun, hquiet⟩
    · exact ih.step_build h.fresh (accounted h.fresh past) hb
        (counted_after h past b (List.mem_of_getElem? hb)).stage place
    · apply ih.of_same begun hquiet.swapped hquiet.tables.2 hquiet.builds
      intro b hb
      rw [hquiet.begun b hb]
      rfl

end Session

end CodeSearch.Engine

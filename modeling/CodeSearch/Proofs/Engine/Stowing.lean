import CodeSearch.Proofs.Engine.Calls
import CodeSearch.Proofs.Engine.PublishedTables

/-!
Where a build that alone takes steps puts the tables.

The tables of an engine are those of some generations (`Holding`). A build adds that of its own, and
when its generation has become the current one, drops that of the one that was the previous one.
Where nothing can be dropped at that time, that table stays behind, as others did before
(`Build.Stowing`).
-/
set_option autoImplicit false

namespace CodeSearch.Engine

open CodeSearch.Index (Generation Holder)
open CodeSearch.Search (Query)
open CodeSearch.Vector (VectorIndex chunkRows)
open Session (SameServices)

variable {σ : Type}

/-! ## Tables of generations -/

/-- The table of a generation. There is none without vectors, and none for vectors of nothing. -/
def tableOf (g : Generation) : Option String :=
  g.vector.bind fun index => if index.size = 0 then none else some index.collection

/-- The tables of an engine that are in a database are those of some generations. -/
def Holding (home : Engine σ) (database : Vector.Database) (generations : List Generation) :
    Prop :=
  ∀ name, home.owns name = true →
    (database.rows? name ≠ none ↔ ∃ g ∈ generations, tableOf g = some name)

variable {home e : Engine σ} {g : Generation}

theorem eq_tableName_of_tableOf (hname : NamesTable home g) {name : String}
    (h : tableOf g = some name) : name = home.tableName g.number := by
  obtain ⟨index, hindex, htable⟩ := Option.bind_eq_some_iff.mp h
  split at htable
  · cases htable
  · rw [← Option.some.inj htable, hname index hindex]

theorem Holding.perm {database : Vector.Database} {generations generations' : List Generation}
    (h : Holding home database generations) (hperm : generations.Perm generations') :
    Holding home database generations' := by
  intro name howns
  rw [h name howns]
  exact exists_congr fun g => and_congr_left fun _ => hperm.mem_iff

theorem database_retire_of_cannot (hcannot : e.database.canDrop = false) (g : Generation) :
    (e.retire g).database = e.database := by
  unfold retire
  cases g.vector with
  | none => rfl
  | some index =>
    dsimp only
    cases hdrop : Vector.dropCollection e.database index.collection with
    | ok left => exact Vector.eq_of_dropCollection hcannot hdrop
    | error u => rfl

/-- To retire a generation takes its table from a database in which tables can be dropped. -/
theorem holding_retire {rest : List Generation} (h : Holding home e.database (g :: rest))
    (hcan : e.database.canDrop = true) (hname : NamesTable home g)
    (hrest : ∀ g' ∈ rest, NamesTable home g' ∧ g'.number ≠ g.number) :
    Holding home (e.retire g).database rest := by
  obtain ⟨hlist, hdrop⟩ := Vector.Database.canDrop_iff.mp hcan
  intro name howns
  have hbefore := h name howns
  simp only [List.exists_mem_cons_iff] at hbefore
  unfold retire
  cases hvector : g.vector with
  | none =>
    -- nothing is dropped, and nothing was there
    have hnone : tableOf g = none := by rw [tableOf, hvector]; rfl
    simpa [hnone] using hbefore
  | some index =>
    obtain ⟨left, hleft⟩ := Vector.exists_dropCollection hlist hdrop index.collection
    have hrows := (Vector.dropCollection_inv hleft).2 name
    dsimp only
    rw [hleft]
    dsimp only
    rw [hrows]
    by_cases hsame : name = index.collection
    · -- no other generation has this table
      rw [if_pos hsame]
      refine iff_of_false (fun hne => hne rfl) ?_
      rintro ⟨g', hg', htable⟩
      obtain ⟨hname', hne⟩ := hrest g' hg'
      have hother := eq_tableName_of_tableOf hname' htable
      rw [hsame, hname index hvector, tableName_inj] at hother
      exact hne hother.symm
    · rw [if_neg hsame, hbefore]
      apply or_iff_right
      intro htable
      rw [tableOf, hvector, Option.bind_some] at htable
      split at htable
      · cases htable
      · exact hsame (Option.some.inj htable).symm

/-! ## A build that alone takes steps -/

/-- A generation has become the current one, and the tables are its own, that of the generation
which was the current one before, and some others. -/
def Succeeded (home begun e : Engine σ) (others : List Generation) : Prop :=
  ∃ g, g.number = begun.holder.latest ∧ NamesTable home g ∧
    e.holder = (begun.holder.publish g).2.2 ∧
      Holding home e.database (g :: (begun.holder.current.toList ++ others))

/-- How far a build has come that alone has taken steps since it began, and what it has made of the
holder and of the tables. -/
def Build.Stows (home begun e : Engine σ) (lost : List Generation) : Stage → Prop
  | .storing g _ =>
    e.holder = begun.holder ∧ Holding home e.database (kept begun.holder ++ lost) ∧
      g.vector = none ∧ g.number = begun.holder.latest
  | .publishing g _ =>
    e.holder = begun.holder ∧ Holding home e.database (g :: (kept begun.holder ++ lost)) ∧
      NamesTable home g ∧ g.number = begun.holder.latest
  | .retiring (x :: old) _ =>
    old = [] ∧ begun.holder.previous = some x ∧ Succeeded home begun e (x :: lost)
  | .retiring [] _ | .ended (.ok _) =>
    Succeeded home begun e
      ((if begun.database.canDrop then [] else begun.holder.previous.toList) ++ lost)
  | .ended (.error _) =>
    e.holder = begun.holder.abort ∧ Holding home e.database (kept begun.holder ++ lost)
  | .aborting (.ok _) => False
  | _ => e.holder = begun.holder ∧ Holding home e.database (kept begun.holder ++ lost)

/-- A build that alone has taken steps since it began. -/
structure Build.Stowing (home begun : Engine σ) (lost : List Generation) (e : Engine σ)
    (b : Build σ) : Prop where
  services : SameServices home e
  failures : e.database.failures = begun.database.failures
  number : b.number = begun.holder.latest
  stows : Build.Stows home begun e lost b.stage

/-- No step of a build changes what fails in the database. -/
theorem failures_stepAt (e : Engine σ) (b : Build σ) (place : Nat) :
    (b.stepAt e place).2.database.failures = e.database.failures := by
  cases stepAt_move e b place with
  | read readings p r hstage hplace hread hnext =>
    obtain ⟨reported, notices, hengine⟩ := readFile_eq_with e b.root p
    rw [hnext, hengine]
  | unread readings p fault hstage hplace hread hnext =>
    obtain ⟨reported, notices, hengine⟩ := readFile_eq_with e b.root p
    rw [hnext, hengine]
  | store g embedded hstage hnext =>
    rw [hnext, Build.store]
    cases hbuild : VectorIndex.build e.database (e.tableName b.number) g.chunks with
    | ok built =>
      rcases Vector.build_cases hbuild with ⟨-, -, ⟨-, hsame⟩ | ⟨-, hfailures, -⟩⟩
      · exact congrArg Vector.Database.failures hsame
      · exact hfailures
    | error fault => cases fault <;> rfl
  | retire g old summary hstage hnext =>
    rw [hnext]
    dsimp only
    unfold retire
    cases g.vector with
    | none => rfl
    | some index =>
      dsimp only
      cases hdrop : Vector.dropCollection e.database index.collection with
      | ok left => exact (Vector.dropCollection_inv hdrop).1
      | error u => rfl
  | _ =>
    rename_i hnext
    exact congrArg (fun next => next.2.database.failures) hnext

namespace Build.Stowing

variable {begun : Engine σ} {b : Build σ} {lost : List Generation}

/-- Storing adds the table of the build, or adds nothing to the tables. -/
theorem stows_store (h : b.Stowing home begun lost e) {embedded : Nat}
    (hstage : b.stage = .storing g embedded) :
    Build.Stows home begun (b.store e g embedded).2 lost (b.store e g embedded).1.stage := by
  have hstows := h.stows
  rw [hstage] at hstows
  obtain ⟨hholder, hholding, hplain, hnumber⟩ := hstows
  have hname : e.tableName b.number = home.tableName g.number := by
    unfold tableName tablePrefix
    rw [h.services.settings, h.services.session, h.number, hnumber]
  have hwithout : ∀ {g' : Generation}, tableOf g' = none →
      Holding home e.database (g' :: (kept begun.holder ++ lost)) := by
    intro g' hnone name howns
    rw [hholding name howns]
    simp [hnone]
  unfold Build.store
  cases hbuild : VectorIndex.build e.database (e.tableName b.number) g.chunks with
  | ok built =>
    obtain ⟨index, written⟩ := built
    obtain ⟨hcollection, hsize, hcases⟩ := Vector.build_cases hbuild
    have hnames : NamesTable home { g with vector := some index } := by
      intro index' hindex
      obtain rfl := Option.some.inj hindex
      exact hcollection.trans hname
    refine ⟨hholder, ?_, hnames, hnumber⟩
    rcases hcases with ⟨hnone, hsame⟩ | ⟨hsome, -, htables⟩
    · -- an index with nothing in it is not written
      rw [hnone, List.length_nil] at hsize
      dsimp only
      rw [hsame]
      apply hwithout
      simp [tableOf, hsize]
    · have htable : tableOf { g with vector := some index } = some (e.tableName b.number) := by
        have hne : index.size ≠ 0 := by
          rw [hsize]
          exact fun hzero => hsome (List.length_eq_zero_iff.mp hzero)
        simp [tableOf, hne, hcollection]
      intro name howns
      dsimp only
      rw [htables name, List.exists_mem_cons_iff, htable, Option.some.injEq]
      by_cases hown : name = e.tableName b.number
      · rw [if_pos hown]
        exact iff_of_true (by simp) (Or.inl hown.symm)
      · rw [if_neg hown, hholding name howns]
        exact (or_iff_right (Ne.symm hown)).symm
  | error fault =>
    have hnone : tableOf g = none := by rw [tableOf, hplain]; rfl
    cases fault with
    | unavailable u =>
      refine ⟨hholder, hwithout hnone, ?_, hnumber⟩
      intro index hindex
      rw [hplain] at hindex
      cases hindex
    | data fault => exact ⟨hholder, hholding⟩

/-- The generation becomes the current one, since no other build has begun. -/
theorem stows_publish (h : b.Stowing home begun lost e) {embedded : Nat}
    (hstage : b.stage = .publishing g embedded) :
    Build.Stows home begun (b.publish e g embedded).2 lost (b.publish e g embedded).1.stage := by
  have hstows := h.stows
  rw [hstage] at hstows
  obtain ⟨hholder, hholding, hname, hnumber⟩ := hstows
  have hold : (e.holder.publish g).2.1 = begun.holder.previous.toList := by
    rw [hholder, Holder.publish, if_pos hnumber]
  have hafter : (b.publish e g embedded).2.holder = (begun.holder.publish g).2.2 := by
    rw [← hholder]
    rfl
  unfold kept at hholding
  rw [List.append_assoc] at hholding
  rw [publish_stage, hold]
  cases hprevious : begun.holder.previous with
  | none =>
    rw [hprevious] at hholding
    refine ⟨g, hnumber, hname, hafter, ?_⟩
    rw [hprevious, Option.toList_none, ite_self]
    exact hholding
  | some x =>
    rw [hprevious] at hholding
    exact ⟨rfl, hprevious, g, hnumber, hname, hafter, hholding⟩

/-- The table of the generation that was the previous one is dropped, or is left for good. -/
theorem stows_retire (h : b.Stowing home begun lost e) {x : Generation} {old : List Generation}
    {summary : Summary} (hstage : b.stage = .retiring (x :: old) summary)
    (hnames : ∀ g ∈ kept begun.holder ++ lost,
      NamesTable home g ∧ g.number < begun.holder.latest)
    (hdistinct : ((kept begun.holder ++ lost).map (·.number)).Nodup) :
    Build.Stows home begun (e.retire x) lost (.retiring old summary) := by
  have hstows := h.stows
  rw [hstage] at hstows
  obtain ⟨rfl, hprevious, g, hnumber, hname, hholder, hholding⟩ := hstows
  obtain ⟨database, notices, hengine⟩ := retire_eq_with e x
  refine ⟨g, hnumber, hname, by rw [hengine]; exact hholder, ?_⟩
  have hcan : e.database.canDrop = begun.database.canDrop :=
    Vector.Database.canDrop_congr h.failures
  cases hdrops : begun.database.canDrop with
  | false =>
    rw [database_retire_of_cannot (hcan.trans hdrops), hprevious]
    exact hholding
  | true =>
    have hall : kept begun.holder ++ lost = begun.holder.current.toList ++ x :: lost := by
      rw [kept, hprevious, List.append_assoc]
      rfl
    rw [hall] at hnames hdistinct
    obtain ⟨hxname, hxnumber⟩ := hnames x (by simp)
    have hothers : ∀ g' ∈ begun.holder.current.toList ++ lost, g'.number ≠ x.number := by
      have hperm : (begun.holder.current.toList ++ x :: lost).Perm
          (x :: (begun.holder.current.toList ++ lost)) := List.perm_middle
      rw [(hperm.map _).nodup_iff, List.map_cons, List.nodup_cons] at hdistinct
      intro g' hg' heq
      exact hdistinct.1 (List.mem_map.mpr ⟨g', hg', heq⟩)
    have hperm : (g :: (begun.holder.current.toList ++ x :: lost)).Perm
        (x :: g :: (begun.holder.current.toList ++ lost)) :=
      (List.perm_middle.cons g).trans (.swap x g _)
    apply holding_retire (hholding.perm hperm) (hcan.trans hdrops) hxname
    intro g' hg'
    rcases List.mem_cons.mp hg' with rfl | hmem
    · exact ⟨hname, by omega⟩
    · refine ⟨(hnames g' ?_).1, hothers g' hmem⟩
      rw [List.mem_append] at hmem ⊢
      exact hmem.imp_right (List.mem_cons_of_mem x)

/-- A step leads on from how far the build has come. -/
theorem stepAt (h : b.Stowing home begun lost e)
    (hnames : ∀ g ∈ kept begun.holder ++ lost,
      NamesTable home g ∧ g.number < begun.holder.latest)
    (hdistinct : ((kept begun.holder ++ lost).map (·.number)).Nodup) (place : Nat) :
    (b.stepAt e place).1.Stowing home begun lost (b.stepAt e place).2 := by
  refine ⟨h.services.trans (Session.sameServices_stepAt e b place),
    (failures_stepAt e b place).trans h.failures, (stepAt_number e b place).trans h.number, ?_⟩
  have hstows := h.stows
  cases stepAt_move e b place with
  | idle hquiet hnext => rw [hnext]; exact hstows
  | read readings p r hstage hplace hread hnext =>
    obtain ⟨reported, notices, hengine⟩ := readFile_eq_with e b.root p
    rw [hstage] at hstows
    rw [hnext, hengine]
    exact hstows
  | unread readings p fault hstage hplace hread hnext =>
    obtain ⟨reported, notices, hengine⟩ := readFile_eq_with e b.root p
    rw [hstage] at hstows
    rw [hnext, hengine]
    exact hstows
  | overtaken extract embedded hstage hstale hnext =>
    -- nobody overtakes a build that alone takes steps
    have hholder : e.holder = begun.holder := by
      rcases hstage with ⟨⟨readings, hstage⟩, -⟩ | ⟨chunks, hstage⟩
      · rw [hstage] at hstows; exact hstows.1
      · rw [hstage] at hstows; exact hstows.1
    rw [hholder, h.number, Holder.isStale, bne_self_eq_false] at hstale
    cases hstale
  | made extract chunks embedded after hstage hafter hnext =>
    rw [hstage] at hstows
    obtain ⟨hholder, hholding⟩ := hstows
    rw [hnext]
    rcases hafter with ⟨rfl, -⟩ | rfl
    · exact ⟨hholder, hholding, rfl, h.number⟩
    · refine ⟨hholder, ?_, ?_, h.number⟩
      · intro name howns
        rw [hholding name howns]
        simp [tableOf, Build.generation]
      · intro index hindex
        cases hindex
  | store g embedded hstage hnext => rw [hnext]; exact h.stows_store hstage
  | publish g embedded hstage hnext => rw [hnext]; exact h.stows_publish hstage
  | abort result hstage hnext =>
    rw [hstage] at hstows
    rw [hnext]
    cases result with
    | ok summary => exact hstows.elim
    | error fault =>
      obtain ⟨hholder, hholding⟩ := hstows
      exact ⟨by rw [← hholder], hholding⟩
  | retire g old summary hstage hnext =>
    rw [hnext]
    exact h.stows_retire hstage hnames hdistinct
  -- the others leave the holder and the tables as they are
  | _ =>
    rename b.stage = _ => hstage
    rename b.stepAt e place = _ => hnext
    rw [hstage] at hstows
    rw [hnext]
    exact hstows

end Build.Stowing

end CodeSearch.Engine

import CodeSearch.Proofs.Engine.Tables

/-!
What is left in the database when no build is under way.

A table is made by one step of a build, published by another and dropped by a third, and between
them other builds take theirs. At every moment each table of a session is in the hands of somebody:
of the holder, which keeps two generations, of the build that is about to publish it, or of the one
that is about to drop it. `held` lists all these generations, and the tables of the session are
those of the list (`Shelved`). To publish is only to change the order of the list, so nothing is
lost by it, whoever comes first. When all builds have ended, only the holder has tables.
-/
set_option autoImplicit false

namespace CodeSearch.Engine

open CodeSearch.Index (Generation Holder Event Traffic)

variable {σ : Type}

/-! ## Generations in somebody's hands -/

/-- The tables of some generations. -/
def collections (generations : List Generation) : List String :=
  generations.filterMap fun g => g.vector.map (·.collection)

/-- The generations that a build is about to publish or to drop. -/
def Stage.holds : Stage → List Generation
  | .publishing g _ => [g]
  | .retiring old _ => old
  | _ => []

/-- Whether a build has left behind the step that makes its table. -/
def Stage.isPastStoring : Stage → Bool
  | .publishing .. | .retiring .. | .ended _ => true
  | _ => false

/-- The generations that the holder keeps. -/
def kept (h : Holder) : List Generation :=
  h.current.toList ++ h.previous.toList

theorem mem_collections_iff {name : String} {generations : List Generation} :
    name ∈ collections generations ↔
      ∃ g ∈ generations, ∃ index, g.vector = some index ∧ index.collection = name := by
  simp only [collections, List.mem_filterMap, Option.map_eq_some_iff]

theorem collections_cons (g : Generation) (rest : List Generation) :
    collections (g :: rest) = (g.vector.map (·.collection)).toList ++ collections rest := by
  unfold collections
  rw [List.filterMap_cons]
  cases g.vector <;> rfl

theorem collections_append (l l' : List Generation) :
    collections (l ++ l') = collections l ++ collections l' :=
  List.filterMap_append

/-- A publication moves generations between its build and the holder. -/
theorem publish_perm (h : Holder) (g : Generation) :
    (kept (h.publish g).2.2 ++ (h.publish g).2.1).Perm (kept h ++ [g]) := by
  unfold kept
  by_cases hlatest : g.number = h.latest
  · -- what was current is now the previous one, and what was previous is handed back
    rw [Holder.publish, if_pos hlatest]
    show ([g] ++ h.current.toList ++ h.previous.toList).Perm _
    rw [List.append_assoc]
    exact List.perm_append_comm
  · rw [Holder.publish, if_neg hlatest]

/-- A step of a build that publishes nothing leaves what the holder keeps. -/
theorem kept_stepAt (e : Engine σ) {b : Build σ}
    (hnot : ∀ g embedded, b.stage ≠ .publishing g embedded) (place : Nat) :
    kept (b.stepAt e place).2.holder = kept e.holder := by
  cases stepAt_turn e b place with
  | working hopen hevent hnext hholder hmade hsummary => rw [hholder]
  | publishing g embedded hstage hnext => exact absurd hstage (hnot g embedded)
  | aborting result hstage hnext => rw [hnext]; rfl
  | closed hclosed hevent hnext hholder hsummary => rw [hholder]

/-- A build without a table holds none. -/
theorem collections_holds_of_tableless {stage : Stage} (h : stage.isTableless = true) :
    collections stage.holds = [] := by
  cases stage with
  | publishing g embedded =>
    have hbare : g.vector = none := Option.isNone_iff_eq_none.mp h
    simp [Stage.holds, collections, hbare]
  | retiring old summary => simp [Stage.isTableless] at h
  | _ => rfl

/-- A build that has left storing behind never comes back to it. -/
theorem isPastStoring_stepAt (e : Engine σ) {b : Build σ} (h : b.stage.isPastStoring = true)
    (place : Nat) : (b.stepAt e place).1.stage.isPastStoring = true := by
  unfold Build.stepAt
  cases hstage : b.stage with
  | publishing g embedded => rfl
  | retiring old summary =>
    cases old with
    | nil => rfl
    | cons g old => rfl
  | ended result =>
    rw [hstage] at h
    simpa only [hstage] using h
  | _ => simp [hstage, Stage.isPastStoring] at h

theorem owns_tableName (e : Engine σ) (number : Int) : e.owns (e.tableName number) = true := by
  unfold owns tableName
  rw [List.isPrefixOf_iff_prefix, String.toList_append]
  exact List.prefix_append _ _

namespace Session

/-! ## The tables in somebody's hands -/

/-- All generations that the holder or a build of a session has in its hands. -/
def held (s : Session σ) : List Generation :=
  kept s.engine.holder ++ s.builds.flatMap (·.stage.holds)

/-- The tables that an engine owns are some, each of them once, and every one was made by a build
that has left storing behind. -/
structure Shelved (e : Engine σ) (database : Vector.Database) (builds : List (Build σ))
    (names : List String) : Prop where
  writable : database.Writable
  nodup : names.Nodup
  stored : ∀ name ∈ names,
    ∃ b ∈ builds, e.tableName b.number = name ∧ b.stage.isPastStoring = true
  rows_iff : ∀ name, e.owns name = true → (database.rows? name ≠ none ↔ name ∈ names)

namespace Shelved

variable {e : Engine σ} {database : Vector.Database} {builds : List (Build σ)} {names : List String}

theorem perm (h : Shelved e database builds names) {names' : List String}
    (hperm : names.Perm names') : Shelved e database builds names' where
  writable := h.writable
  nodup := hperm.nodup_iff.mp h.nodup
  stored name hname := h.stored name (hperm.mem_iff.mpr hname)
  rows_iff name howns := (h.rows_iff name howns).trans hperm.mem_iff

/-- A database with the same tables, in which the same things fail. -/
theorem of_tables (h : Shelved e database builds names) {database' : Vector.Database}
    (hfailures : database'.failures = database.failures)
    (htables : ∀ name, database'.rows? name = database.rows? name) :
    Shelved e database' builds names where
  writable := h.writable.of_failures hfailures
  nodup := h.nodup
  stored := h.stored
  rows_iff name howns := by
    rw [htables]
    exact h.rows_iff name howns

theorem append_builds (h : Shelved e database builds names) (begun : List (Build σ)) :
    Shelved e database (builds ++ begun) names where
  writable := h.writable
  nodup := h.nodup
  stored name hname := by
    obtain ⟨b, hb, hmade⟩ := h.stored name hname
    exact ⟨b, List.mem_append_left _ hb, hmade⟩
  rows_iff := h.rows_iff

/-- A build that takes a step is still the one that made its table. -/
theorem set_build (h : Shelved e database builds names) {call : Nat} {b : Build σ}
    (hb : builds[call]? = some b) (engine : Engine σ) (place : Nat) :
    Shelved e database (builds.set call (b.stepAt engine place).1) names where
  writable := h.writable
  nodup := h.nodup
  stored name hname := by
    obtain ⟨maker, hmaker, hmade, hpast⟩ := h.stored name hname
    obtain ⟨i, hi⟩ := List.mem_iff_getElem?.mp hmaker
    by_cases hcall : call = i
    · subst hcall
      obtain rfl : b = maker := Option.some.inj (hb.symm.trans hi)
      have hlt : call < builds.length := (List.getElem?_eq_some_iff.mp hb).1
      refine ⟨_, List.mem_set hlt _, ?_, isPastStoring_stepAt engine hpast place⟩
      rw [stepAt_number]
      exact hmade
    · refine ⟨maker, List.mem_of_getElem? (i := i) ?_, hmade, hpast⟩
      rw [List.getElem?_set, if_neg hcall]
      exact hi
  rows_iff := h.rows_iff

/-- A table is made by a build that has not left storing behind. -/
theorem make (h : Shelved e database builds names) {database' : Vector.Database} {name : String}
    (hnew : name ∉ names) (hmaker : ∃ b ∈ builds, e.tableName b.number = name ∧
      b.stage.isPastStoring = true) (hfailures : database'.failures = database.failures)
    (hthere : (database'.rows? name).isSome)
    (hothers : ∀ other, other ≠ name → database'.rows? other = database.rows? other) :
    Shelved e database' builds (name :: names) where
  writable := h.writable.of_failures hfailures
  nodup := List.nodup_cons.mpr ⟨hnew, h.nodup⟩
  stored := List.forall_mem_cons.mpr ⟨hmaker, h.stored⟩
  rows_iff other howns := by
    rw [List.mem_cons]
    by_cases hother : other = name
    · rw [hother]
      exact ⟨fun _ => Or.inl rfl, fun _ => Option.isSome_iff_ne_none.mp hthere⟩
    · rw [hothers other hother, or_iff_right hother]
      exact h.rows_iff other howns

/-- A table that is dropped was there once. -/
theorem dropped {dropping : Option String}
    (h : Shelved e database builds (dropping.toList ++ names)) {database' : Vector.Database}
    (hfailures : database'.failures = database.failures)
    (htables : ∀ other, database'.rows? other =
      if dropping = some other then none else database.rows? other) :
    Shelved e database' builds names where
  writable := h.writable.of_failures hfailures
  nodup := (List.nodup_append.mp h.nodup).2.1
  stored name hname := h.stored name (List.mem_append_right _ hname)
  rows_iff name howns := by
    have hbefore := h.rows_iff name howns
    rw [List.mem_append, Option.mem_toList] at hbefore
    rw [htables]
    by_cases hname : dropping = some name
    · -- it is not among the others
      have hgone : name ∉ names := fun hmem =>
        (List.nodup_append.mp h.nodup).2.2 name (Option.mem_toList.mpr hname) name hmem rfl
      rw [if_pos hname]
      exact ⟨fun hne => absurd rfl hne, fun hmem => absurd hmem hgone⟩
    · rw [if_neg hname, hbefore]
      exact or_iff_right hname

end Shelved

/-- What a build holds is one part of all that builds hold, and the only one that its steps
change. -/
theorem exists_holds_set {builds : List (Build σ)} {call : Nat} {b : Build σ}
    (hb : builds[call]? = some b) :
    ∃ rest, (builds.flatMap (·.stage.holds)).Perm (b.stage.holds ++ rest) ∧
      ∀ next : Build σ,
        ((builds.set call next).flatMap (·.stage.holds)).Perm (next.stage.holds ++ rest) := by
  obtain ⟨hlt, rfl⟩ := List.getElem?_eq_some_iff.mp hb
  have hset : ∀ next : Build σ, ((builds.set call next).flatMap (·.stage.holds)).Perm
      (next.stage.holds ++
        (builds.take call ++ builds.drop (call + 1)).flatMap (·.stage.holds)) := by
    intro next
    rw [List.set_eq_take_append_cons_drop, if_pos hlt, List.flatMap_append, List.flatMap_cons,
      List.flatMap_append]
    exact List.perm_append_comm_assoc _ _ _
  refine ⟨_, ?_, hset⟩
  have hsame := hset builds[call]
  rwa [List.set_getElem_self] at hsame

/-! ## Steps of builds -/

section Step

variable {e : Engine σ} {past : List Action} {call : Nat} {b : Build σ}

/-- The tables of a session are those in somebody's hands. -/
def InOrder (e : Engine σ) (s : Session σ) : Prop :=
  Shelved e s.engine.database s.builds (collections s.held)

/-- A step of a build is seen at what the holder keeps and at what the build holds. All other
tables are somewhere in the rest. -/
theorem exists_rest (hb : (after e past).builds[call]? = some b) (place : Nat) :
    ∃ rest, (collections (after e past).held).Perm
        (collections (kept (after e past).engine.holder ++ b.stage.holds) ++ rest) ∧
      (collections (kept (b.stepAt (after e past).engine place).2.holder ++
          (b.stepAt (after e past).engine place).1.stage.holds) ++ rest).Perm
        (collections (after e (.build call place :: past)).held) := by
  obtain ⟨rest, hbefore, hafter⟩ := exists_holds_set hb
  refine ⟨collections rest, ?_, ?_⟩
  · rw [← collections_append, List.append_assoc]
    exact (hbefore.append_left _).filterMap _
  · rw [← collections_append, List.append_assoc, held, after_build hb]
    exact ((hafter _).symm.append_left _).filterMap _

/-- A step that leaves the tables alone and keeps them in the same hands, or passes them on. -/
theorem InOrder.of_perm (h : InOrder e (after e past)) (hb : (after e past).builds[call]? = some b)
    (place : Nat)
    (hfailures : (b.stepAt (after e past).engine place).2.database.failures =
      (after e past).engine.database.failures)
    (htables : ∀ name, (b.stepAt (after e past).engine place).2.database.rows? name =
      (after e past).engine.database.rows? name)
    (hperm : (collections (kept (after e past).engine.holder ++ b.stage.holds)).Perm
      (collections (kept (b.stepAt (after e past).engine place).2.holder ++
        (b.stepAt (after e past).engine place).1.stage.holds))) :
    InOrder e (after e (.build call place :: past)) := by
  obtain ⟨rest, hbefore, hafter⟩ := exists_rest hb place
  have hmoved := (hbefore.trans (hperm.append_right rest)).trans hafter
  have hset :=
    ((h.set_build hb (after e past).engine place).of_tables hfailures htables).perm hmoved
  unfold InOrder at hset ⊢
  rw [after_build hb]
  rw [after_build hb] at hset
  exact hset

theorem InOrder.step_plain (h : InOrder e (after e past))
    (hb : (after e past).builds[call]? = some b) (hplain : b.stage.isPlain = true) (place : Nat) :
    InOrder e (after e (.build call place :: past)) := by
  obtain ⟨hdatabase, -, hnext⟩ := stepAt_plain (after e past).engine hplain place
  have hbare : b.stage.isTableless = true := by
    cases hstage : b.stage <;> simp [hstage, Stage.isPlain, Stage.isTableless] at hplain ⊢
  have hnot : ∀ g embedded, b.stage ≠ .publishing g embedded := by
    intro g embedded hstage
    simp [hstage, Stage.isPlain] at hplain
  have hkept := kept_stepAt (after e past).engine hnot place
  refine h.of_perm hb place (by rw [hdatabase]) (fun name => by rw [hdatabase]) ?_
  rw [hkept, collections_append, collections_append, collections_holds_of_tableless hbare,
    collections_holds_of_tableless hnext]

/-- A build that stores its vectors has a table then, which nobody had before, or is left without
one. -/
theorem InOrder.step_store (h : InOrder e (after e past)) (hacc : Accounted e past)
    (hb : (after e past).builds[call]? = some b) {g : Generation} {embedded : Nat}
    (hstage : b.stage = .storing g embedded) (hbare : g.vector = none) {n : Nat}
    (hstorable : Vector.Storable n g.chunks) (place : Nat) :
    InOrder e (after e (.build call place :: past)) := by
  have hmem : b ∈ (after e past).builds := List.mem_of_getElem? hb
  have hstep : b.stepAt (after e past).engine place = b.store (after e past).engine g embedded := by
    rw [Build.stepAt, hstage]
  have hholds : collections b.stage.holds = [] := by rw [hstage]; rfl
  rcases store_cases h.writable (b := b) hstorable embedded with
    ⟨index, written, -, hstore, hcollection, hfailures, hthere, hothers⟩ | ⟨reason, -, hstore⟩
  · rw [tableName_after] at hcollection hthere hothers
    -- whoever had made a table of that name would have the number of this build
    have hnew : e.tableName b.number ∉ collections (after e past).held := by
      intro hold
      obtain ⟨maker, hmaker, hname, hpast⟩ := h.stored _ hold
      have hsame := hacc.eq_of_number hmaker hmem ((tableName_inj e).mp hname)
      rw [hsame, hstage] at hpast
      exact absurd hpast Bool.false_ne_true
    obtain ⟨rest, hbefore, hafter⟩ := exists_rest hb place
    have hset := h.set_build hb (after e past).engine place
    rw [hstep, hstore] at hset hafter
    have hlt : call < (after e past).builds.length := (List.getElem?_eq_some_iff.mp hb).1
    have hmade := hset.make hnew ⟨_, List.mem_set hlt _, rfl, rfl⟩ hfailures hthere hothers
    have hperm : (e.tableName b.number :: collections (after e past).held).Perm
        (collections (after e (.build call place :: past)).held) := by
      refine List.Perm.trans ?_ hafter
      rw [collections_append, hholds, List.append_nil] at hbefore
      rw [collections_append]
      show List.Perm _ (_ ++ [index.collection] ++ rest)
      rw [hcollection, List.append_assoc]
      exact (hbefore.cons _).trans List.perm_middle.symm
    have hdone := hmade.perm hperm
    unfold InOrder
    rw [after_build hb, hstep, hstore]
    rw [after_build hb, hstep, hstore] at hdone
    exact hdone
  · refine h.of_perm hb place ?_ ?_ ?_
    · rw [hstep, hstore]
      rfl
    · intro name
      rw [hstep, hstore]
      rfl
    · rw [collections_append, hholds, hstep, hstore, collections_append,
        collections_holds_of_tableless (by rw [Stage.isTableless, hbare]; rfl)]
      exact List.Perm.refl _

/-- A build that publishes passes tables on, to the holder or to itself. -/
theorem InOrder.step_publish (h : InOrder e (after e past))
    (hb : (after e past).builds[call]? = some b) {g : Generation} {embedded : Nat}
    (hstage : b.stage = .publishing g embedded) (place : Nat) :
    InOrder e (after e (.build call place :: past)) := by
  have hstep : b.stepAt (after e past).engine place =
      b.publish (after e past).engine g embedded := by
    rw [Build.stepAt, hstage]
  refine h.of_perm hb place ?_ ?_ ?_
  · rw [hstep]
    rfl
  · intro name
    rw [hstep]
    rfl
  · rw [hstep, publish_stage, hstage]
    exact ((publish_perm (after e past).engine.holder g).symm).filterMap _

/-- A build that retires a generation drops its table, if it has one. -/
theorem InOrder.step_retire (h : InOrder e (after e past))
    (hb : (after e past).builds[call]? = some b) {g : Generation} {old : List Generation}
    {summary : Summary} (hstage : b.stage = .retiring (g :: old) summary) (place : Nat) :
    InOrder e (after e (.build call place :: past)) := by
  have hstep : b.stepAt (after e past).engine place =
      ({ b with stage := .retiring old summary }, (after e past).engine.retire g) := by
    rw [Build.stepAt, hstage]
  have hnot : ∀ g' embedded, b.stage ≠ .publishing g' embedded := by
    intro g' embedded hstage'
    simp [hstage] at hstage'
  have hkept := kept_stepAt (after e past).engine hnot place
  obtain ⟨hfailures, -, htables⟩ := retire_tables h.writable g
  obtain ⟨rest, hbefore, hafter⟩ := exists_rest hb place
  have hset := h.set_build hb (after e past).engine place
  rw [hkept] at hafter
  rw [hstep] at hset hafter
  -- its table, if any, stands before those that are left
  have hperm : (collections (after e past).held).Perm
      ((g.vector.map (·.collection)).toList ++
        collections (after e (.build call place :: past)).held) := by
    refine hbefore.trans (List.Perm.trans ?_ (hafter.append_left _))
    rw [hstage, collections_append, collections_append]
    show (_ ++ collections (g :: old) ++ rest).Perm _
    rw [collections_cons, List.append_assoc, List.append_assoc, List.append_assoc]
    exact List.perm_append_comm_assoc _ _ _
  have hdone := (hset.perm hperm).dropped hfailures htables
  unfold InOrder
  rw [after_build hb, hstep]
  rw [after_build hb, hstep] at hdone
  exact hdone

/-- A build that has nothing left to drop. -/
theorem InOrder.step_cleared (h : InOrder e (after e past))
    (hb : (after e past).builds[call]? = some b) (hcleared : b.stage.isCleared = true)
    (place : Nat) : InOrder e (after e (.build call place :: past)) := by
  obtain ⟨⟨result, hnext⟩, hengine, -⟩ := stepAt_cleared (after e past).engine hcleared place
  have hnone : b.stage.holds = [] := by
    cases hstage : b.stage with
    | retiring old summary =>
      cases old with
      | nil => rfl
      | cons g old => simp [hstage, Stage.isCleared] at hcleared
    | ended result => rfl
    | _ => simp [hstage, Stage.isCleared] at hcleared
  refine h.of_perm hb place (by rw [hengine]) (fun name => by rw [hengine]) ?_
  rw [hengine, hnext, hnone]
  exact List.Perm.refl _

end Step

/-! ## Whole sessions -/

/-- An engine that nothing has been asked of yet. In its database tables can be listed, made and
dropped, and none of those there is its own; its embedder has vectors of one length that are not
empty. -/
structure Provided (n : Nat) (e : Engine σ) : Prop where
  fresh : e.holder = {}
  writable : e.database.Writable
  unowned : ∀ name, e.owns name = true → e.database.rows? name = none
  measured : Measured n e

variable {e : Engine σ}

theorem Steady.provided {n : Nat} (h : Steady n e)
    (hunowned : ∀ name, e.owns name = true → e.database.rows? name = none) : Provided n e :=
  ⟨h.fresh, Vector.Database.writable_of_healthy h.healthy, hunowned, h.measured⟩

theorem InOrder.begin {n : Nat} (h : Provided n e) : InOrder e (after e []) := by
  have hnone : collections (after e []).held = [] := by
    unfold held
    rw [after, h.fresh]
    rfl
  unfold InOrder
  rw [hnone]
  refine ⟨h.writable, List.nodup_nil, by simp, ?_⟩
  intro name howns
  exact ⟨fun hthere => absurd (h.unowned name howns) hthere, fun hmem => absurd hmem (by simp)⟩

/-- An action that leaves the tables and the builds alone, but for builds that begin. -/
theorem InOrder.of_same {past : List Action} (h : InOrder e (after e past)) {a : Action}
    (begun : List (Build σ))
    (htables : (after e (a :: past)).engine.database.failures =
        (after e past).engine.database.failures ∧
      (after e (a :: past)).engine.database.tables = (after e past).engine.database.tables)
    (hkept : kept (after e (a :: past)).engine.holder = kept (after e past).engine.holder)
    (hbuilds : (after e (a :: past)).builds = (after e past).builds ++ begun)
    (hbegun : ∀ b ∈ begun, b.stage.holds = []) : InOrder e (after e (a :: past)) := by
  have hheld : (after e (a :: past)).held = (after e past).held := by
    have hnone : begun.flatMap (·.stage.holds) = [] := by
      rw [List.flatMap_eq_nil_iff]
      exact hbegun
    unfold held
    rw [hkept, hbuilds, List.flatMap_append, hnone, List.append_nil]
  have hrows : ∀ name, (after e (a :: past)).engine.database.rows? name =
      (after e past).engine.database.rows? name := by
    intro name
    unfold Vector.Database.rows?
    rw [htables.2]
  unfold InOrder
  rw [hheld, hbuilds]
  exact (h.append_builds begun).of_tables htables.1 hrows

theorem InOrder.step_build {n : Nat} (hprovided : Provided n e) {past : List Action}
    (h : InOrder e (after e past)) {call : Nat} {b : Build σ}
    (hb : (after e past).builds[call]? = some b) (place : Nat) :
    InOrder e (after e (.build call place :: past)) := by
  have hacc := accounted hprovided.fresh past
  -- the part that the build is in decides whose hands its tables come into
  cases hstage : b.stage with
  | storing g embedded =>
    obtain ⟨-, hsized⟩ :=
      (sized_after hprovided.measured past).2 b (List.mem_of_getElem? hb)
    rw [Build.Sized, hstage] at hsized
    exact h.step_store hacc hb hstage hsized.1 hsized.2 place
  | publishing g embedded => exact h.step_publish hb hstage place
  | retiring old summary =>
    cases old with
    | nil => exact h.step_cleared hb (by rw [hstage]; rfl) place
    | cons g old => exact h.step_retire hb hstage place
  | ended result => exact h.step_cleared hb (by rw [hstage]; rfl) place
  | _ => exact h.step_plain hb (by rw [hstage]; rfl) place

/-- After every action the tables of a session are those in somebody's hands. -/
theorem inOrder_after {n : Nat} (hprovided : Provided n e) (past : List Action) :
    InOrder e (after e past) := by
  induction past with
  | nil => exact InOrder.begin hprovided
  | cons a past ih =>
    rcases build_or_quiet e past a with ⟨call, place, b, rfl, hb⟩ | ⟨begun, hquiet⟩
    · exact ih.step_build hprovided hb place
    · refine ih.of_same begun hquiet.tables ?_ hquiet.builds ?_
      · unfold kept
        rw [hquiet.current, hquiet.previous]
      · intro b hb
        rw [hquiet.begun b hb]
        rfl

/-- Whatever builds run side by side on an engine, and however they end: when all have ended, the
tables in its database that are its own are those of the current and the previous generation. -/
theorem tables_eq_kept {n : Nat} (hprovided : Provided n e) (past : List Action)
    (hended : ∀ b ∈ (after e past).builds, b.ending?.isSome) (name : String) :
    e.owns name = true ∧ name ∈ (after e past).engine.database.names ↔
      ∃ g, ((after e past).engine.holder.current = some g ∨
          (after e past).engine.holder.previous = some g) ∧
        ∃ index, g.vector = some index ∧ index.collection = name := by
  have hall := inOrder_after hprovided past
  -- a build that has ended has nothing in its hands
  have hheld : (after e past).held = kept (after e past).engine.holder := by
    have hnone : (after e past).builds.flatMap (·.stage.holds) = [] := by
      rw [List.flatMap_eq_nil_iff]
      intro b hb
      have hdone := hended b hb
      unfold Build.ending? at hdone
      cases hstage : b.stage with
      | ended result => rfl
      | _ => simp [hstage] at hdone
    rw [held, hnone, List.append_nil]
  have hnames : name ∈ (after e past).engine.database.names ↔
      (after e past).engine.database.rows? name ≠ none := by
    rw [← Vector.Database.contains_names_iff, List.contains_iff_mem]
  have hkept : name ∈ collections (after e past).held ↔
      ∃ g, ((after e past).engine.holder.current = some g ∨
          (after e past).engine.holder.previous = some g) ∧
        ∃ index, g.vector = some index ∧ index.collection = name := by
    rw [hheld, mem_collections_iff]
    simp only [kept, List.mem_append, Option.mem_toList]
  rw [hnames, ← hkept]
  constructor
  · rintro ⟨howns, hthere⟩
    exact (hall.rows_iff name howns).mp hthere
  · intro hmem
    obtain ⟨b, -, rfl, -⟩ := hall.stored name hmem
    exact ⟨owns_tableName e b.number, (hall.rows_iff _ (owns_tableName e b.number)).mpr hmem⟩

/-- Three builds. The second one has made its table when the third begins, and publishes after
it. -/
def lateSecond : List Action :=
  List.replicate 3 (.build 1 0) ++ indexing 2 9 ++ List.replicate 8 (.build 1 0) ++ [.index "/"] ++
    indexing 0 11

/-- The second build has dropped its table, and the others are there. -/
theorem tables_eq_kept_lateSecond :
    Provided 1 oneImport ∧ (∀ b ∈ (after oneImport lateSecond).builds, b.ending?.isSome) ∧
      "codebase_embeddings_session_1" ∈ (after oneImport lateSecond).engine.database.names ∧
      "codebase_embeddings_session_2" ∉ (after oneImport lateSecond).engine.database.names ∧
      "codebase_embeddings_session_3" ∈ (after oneImport lateSecond).engine.database.names := by
  have hprovided : Provided 1 oneImport := steady_oneImport.provided fun name _ => rfl
  have hended : ∀ b ∈ (after oneImport lateSecond).builds, b.ending?.isSome := by decide +kernel
  -- what the holder keeps is computed without the tables
  have hholder := holder_after hprovided.fresh lateSecond
  have hcurrent : (after oneImport lateSecond).engine.holder.current.bind (·.vector) =
      some ⟨"codebase_embeddings_session_3", 1⟩ := by
    rw [hholder]
    decide +kernel
  have hprevious : (after oneImport lateSecond).engine.holder.previous.bind (·.vector) =
      some ⟨"codebase_embeddings_session_1", 1⟩ := by
    rw [hholder]
    decide +kernel
  obtain ⟨c, hc, hthird⟩ := Option.bind_eq_some_iff.mp hcurrent
  obtain ⟨p, hp, hfirst⟩ := Option.bind_eq_some_iff.mp hprevious
  have hiff := tables_eq_kept hprovided lateSecond hended
  refine ⟨hprovided, hended, ((hiff _).mpr ⟨p, Or.inr hp, _, hfirst, rfl⟩).2, ?_,
    ((hiff _).mpr ⟨c, Or.inl hc, _, hthird, rfl⟩).2⟩
  -- it would be the table of one of the two
  intro hthere
  have howns : oneImport.owns "codebase_embeddings_session_2" = true := by decide +kernel
  obtain ⟨g, hg | hg, index, hindex, hname⟩ := (hiff _).mp ⟨howns, hthere⟩
  · obtain rfl := Option.some.inj (hc.symm.trans hg)
    obtain rfl := Option.some.inj (hthird.symm.trans hindex)
    exact absurd hname (by decide)
  · obtain rfl := Option.some.inj (hp.symm.trans hg)
    obtain rfl := Option.some.inj (hfirst.symm.trans hindex)
    exact absurd hname (by decide)

end Session

end CodeSearch.Engine

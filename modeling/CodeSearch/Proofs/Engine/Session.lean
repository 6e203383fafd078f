import CodeSearch.Proofs.Engine.Moves

/-!
Calls to one engine that run side by side.

Builds and questions are made of steps on the engine, and whoever runs next takes one. A session is
an engine with all builds that were begun on it and all questions that were put to it; an action is
one step of one of them, or the beginning of another, or a change to the files on the disk. Nothing
is said about the order, so the histories of a session are all interleavings there are.
-/
set_option autoImplicit false

namespace CodeSearch.Engine

open CodeSearch.Index (Generation Holder NotIndexed Event Traffic)
open CodeSearch.Search (Query)

variable {σ : Type}

/-! ## Sessions -/

/-- A question that was put: it waits for an index, gets none, or is being answered from one. -/
inductive Asker where
  | waiting (q : Query)
  | refused (n : NotIndexed)
  | served (i : Inquiry)

/-- What has become of a question, by what its reader got. -/
def Asker.ofReader (q : Query) : Holder.Reader → Asker
  | .waiting => .waiting q
  | .done (.ok g) => .served ⟨g, q, .opened⟩
  | .done (.error n) => .refused n

/-- A question as a reader of the holder. -/
def Asker.reader : Asker → Holder.Reader
  | .waiting _ => .waiting
  | .refused n => .done (.error n)
  | .served i => .done (.ok i.generation)

@[simp] theorem Asker.reader_ofReader (q : Query) (r : Holder.Reader) :
    (Asker.ofReader q r).reader = r := by
  cases r with
  | waiting => rfl
  | done outcome => cases outcome <;> rfl

theorem Asker.reader_of_served {q : Query} {r : Holder.Reader} {i : Inquiry}
    (h : .served i = Asker.ofReader q r) : r = .done (.ok i.generation) := by
  have hreader := congrArg Asker.reader h
  rw [Asker.reader_ofReader] at hreader
  exact hreader.symm

/-- An engine with all builds begun on it and all questions put to it, in their order. -/
structure Session (σ : Type) where
  engine : Engine σ
  builds : List (Build σ) := []
  askers : List Asker := []

/-- What can happen next. -/
inductive Action where
  /-- A directory is to be indexed. -/
  | index (path : String)
  /-- A build takes a step, on the file or chunk at a place if it is for one. -/
  | build (call place : Nat)
  /-- A question is put. -/
  | ask (q : Query)
  /-- A question takes a step; one that waits looks again. -/
  | turn (asker : Nat)
  /-- The time to wait for an index is up for a question. -/
  | expire (asker : Nat)
  /-- Files are changed. -/
  | edit (disk : Files.Disk)

namespace Session

/-- What an action changes. An action for a build or question that is not there does nothing, nor
does a question that makes no sense. -/
def step (s : Session σ) : Action → Session σ
  | .index path =>
    match s.engine.begin path with
    | .ok (b, engine) => { s with engine := engine, builds := s.builds ++ [b] }
    | .error _ => s
  | .build call place =>
    match s.builds[call]? with
    | some b =>
      let next := b.stepAt s.engine place
      { s with engine := next.2, builds := s.builds.set call next.1 }
    | none => s
  | .ask q =>
    match q.objection? with
    | some _ => s
    | none => { s with askers := s.askers ++ [Asker.ofReader q s.engine.holder.arrive] }
  | .turn asker =>
    match s.askers[asker]? with
    | some (.waiting q) =>
      { s with askers := s.askers.set asker (Asker.ofReader q (s.engine.holder.wake .waiting)) }
    | some (.served i) =>
      let next := i.step s.engine
      { s with engine := next.2, askers := s.askers.set asker (.served next.1) }
    | _ => s
  | .expire asker =>
    match s.askers[asker]? with
    | some (.waiting q) =>
      let found := s.engine.holder.expire s.engine.settings.readyTimeout .waiting
      { s with askers := s.askers.set asker (Asker.ofReader q found) }
    | _ => s
  | .edit disk => { s with engine := { s.engine with disk := disk } }

/-- A session after some actions, the latest one first. -/
def after (e : Engine σ) : List Action → Session σ
  | [] => { engine := e }
  | a :: past => (after e past).step a

/-- The holder of a session with its readers. -/
def traffic (s : Session σ) : Traffic :=
  ⟨s.engine.holder, s.askers.map Asker.reader⟩

/-- What an action is at the holder, if anything. -/
def event? (s : Session σ) : Action → Option Event
  | .index path =>
    match s.engine.begin path with
    | .ok _ => some .begin
    | .error _ => none
  | .build call _ =>
    match s.builds[call]? with
    | some b => b.event?
    | none => none
  | .ask q =>
    match q.objection? with
    | some _ => none
    | none => some .arrive
  | .turn asker =>
    match s.askers[asker]? with
    | some (.waiting _) => some (.wake asker)
    | _ => none
  | .expire asker =>
    match s.askers[asker]? with
    | some (.waiting _) => some (.expire asker s.engine.settings.readyTimeout)
    | _ => none
  | .edit _ => none

/-- What the actions of a session are at the holder. -/
def trace (e : Engine σ) : List Action → Traffic.History
  | [] => []
  | a :: past => ((after e past).event? a).toList ++ trace e past

/-- What an action comes to: one constructor for each thing that can happen. -/
inductive Move (s : Session σ) (a : Action) : Prop where
  /-- It is for nothing that is there, or nothing comes of it. -/
  | idle (hevent : s.event? a = none) (hnext : s.step a = s)
  | begins (path : String) (b : Build σ) (engine : Engine σ) (ha : a = .index path)
      (hbegin : s.engine.begin path = .ok (b, engine)) (hevent : s.event? a = some .begin)
      (hnext : s.step a = { s with engine := engine, builds := s.builds ++ [b] })
  | builds (call place : Nat) (b : Build σ) (ha : a = .build call place)
      (hb : s.builds[call]? = some b) (hevent : s.event? a = b.event?)
      (hnext : s.step a = { s with engine := (b.stepAt s.engine place).2,
                                   builds := s.builds.set call (b.stepAt s.engine place).1 })
  | asks (q : Query) (ha : a = .ask q) (hevent : s.event? a = some .arrive)
      (hnext : s.step a =
        { s with askers := s.askers ++ [Asker.ofReader q s.engine.holder.arrive] })
  /-- A question that waits looks whether there is an index, or gives up. -/
  | looks (asker : Nat) (q : Query) (r : Holder.Reader)
      (hasker : s.askers[asker]? = some (.waiting q))
      (hr : r = s.engine.holder.wake .waiting ∨
        r = s.engine.holder.expire s.engine.settings.readyTimeout .waiting)
      (hevent : ∃ event, s.event? a = some event ∧ event.isReader = true)
      (hnext : s.step a = { s with askers := s.askers.set asker (Asker.ofReader q r) })
  | answers (asker : Nat) (i : Inquiry) (ha : a = .turn asker)
      (hasker : s.askers[asker]? = some (.served i)) (hevent : s.event? a = none)
      (hnext : s.step a = { s with engine := (i.step s.engine).2,
                                   askers := s.askers.set asker (.served (i.step s.engine).1) })
  | edits (disk : Files.Disk) (ha : a = .edit disk) (hevent : s.event? a = none)
      (hnext : s.step a = { s with engine := { s.engine with disk := disk } })

theorem step_move (s : Session σ) (a : Action) : s.Move a := by
  cases a with
  | index path =>
    cases hbegin : s.engine.begin path with
    | error fault => exact .idle (by rw [event?, hbegin]) (by rw [step, hbegin])
    | ok started =>
      exact .begins path _ _ rfl hbegin (by rw [event?, hbegin]) (by rw [step, hbegin])
  | build call place =>
    cases hb : s.builds[call]? with
    | none => exact .idle (by rw [event?, hb]) (by rw [step, hb])
    | some b => exact .builds call place b rfl hb (by rw [event?, hb]) (by rw [step, hb])
  | ask q =>
    cases hq : q.objection? with
    | some objection => exact .idle (by rw [event?, hq]) (by rw [step, hq])
    | none => exact .asks q rfl (by rw [event?, hq]) (by rw [step, hq])
  | turn asker =>
    cases hasker : s.askers[asker]? with
    | none => exact .idle (by rw [event?, hasker]) (by rw [step, hasker])
    | some found =>
      cases found with
      | refused n => exact .idle (by rw [event?, hasker]) (by rw [step, hasker])
      | waiting q =>
        exact .looks asker q _ hasker (Or.inl rfl) ⟨_, by rw [event?, hasker], rfl⟩
          (by rw [step, hasker])
      | served i =>
        exact .answers asker i rfl hasker (by rw [event?, hasker]) (by rw [step, hasker])
  | expire asker =>
    cases hasker : s.askers[asker]? with
    | none => exact .idle (by rw [event?, hasker]) (by rw [step, hasker])
    | some found =>
      cases found with
      | refused n => exact .idle (by rw [event?, hasker]) (by rw [step, hasker])
      | served i => exact .idle (by rw [event?, hasker]) (by rw [step, hasker])
      | waiting q =>
        exact .looks asker q _ hasker (Or.inr rfl) ⟨_, by rw [event?, hasker], rfl⟩
          (by rw [step, hasker])
  | edit disk => exact .edits disk rfl rfl rfl

/-- A question that waits looks at what the holder serves. -/
theorem serves_of_looked {s : Session σ} {g : Generation}
    (h : .done (.ok g) = s.engine.holder.wake .waiting ∨
      .done (.ok g) = s.engine.holder.expire s.engine.settings.readyTimeout .waiting) :
    s.engine.holder.Serves g := by
  rcases h with hwake | hexpire
  · rcases Holder.wake_eq_ok.mp hwake.symm with hbefore | hserves
    · exact absurd hbefore (by simp)
    · exact hserves.2
  · rcases Holder.expire_eq_ok.mp hexpire.symm with hbefore | hserves
    · exact absurd hbefore (by simp)
    · exact hserves.2

theorem exists_trace_append (e : Engine σ) (later past : List Action) :
    ∃ new, trace e (later ++ past) = new ++ trace e past := by
  induction later with
  | nil => exact ⟨[], rfl⟩
  | cons a later ih =>
    obtain ⟨new, hnew⟩ := ih
    refine ⟨((after e (later ++ past)).event? a).toList ++ new, ?_⟩
    rw [List.cons_append, trace, hnew, List.append_assoc]

section Call

variable {e : Engine σ} {past : List Action} {call : Nat} {b : Build σ}

/-- What a build changes when it takes a step. -/
theorem after_build (hb : (after e past).builds[call]? = some b) (place : Nat) :
    after e (.build call place :: past) =
      { after e past with engine := (b.stepAt (after e past).engine place).2,
                          builds := (after e past).builds.set call
                            (b.stepAt (after e past).engine place).1 } := by
  rw [after, step, hb]

theorem trace_build (hb : (after e past).builds[call]? = some b) (place : Nat) :
    trace e (.build call place :: past) = b.event?.toList ++ trace e past := by
  rw [trace, event?, hb]

end Call

/-- A build that begins has the next number and is about to walk. -/
theorem begin_ok {e engine : Engine σ} {path : String} {b : Build σ}
    (hbegin : e.begin path = .ok (b, engine)) :
    e.rootOf path = .ok b.root ∧ b = ⟨e.holder.start.1, b.root, e.pipeline, .walking⟩ ∧
      engine = { e with holder := e.holder.start.2 } := by
  unfold Engine.begin at hbegin
  cases hroot : e.rootOf path with
  | error fault => simp [hroot, bind, Except.bind] at hbegin
  | ok root =>
    simp only [hroot, bind, Except.bind, pure, Except.pure, Except.ok.injEq,
      Prod.mk.injEq] at hbegin
    obtain ⟨rfl, rfl⟩ := hbegin
    exact ⟨rfl, rfl, rfl⟩

theorem stage_begin {e engine : Engine σ} {path : String} {b : Build σ}
    (hbegin : e.begin path = .ok (b, engine)) : b.stage = .walking :=
  congrArg Build.stage (begin_ok hbegin).2.1

theorem number_begin {e engine : Engine σ} {path : String} {b : Build σ}
    (hbegin : e.begin path = .ok (b, engine)) : b.number = e.holder.start.1 :=
  congrArg Build.number (begin_ok hbegin).2.1

/-- What holds of every build when it begins, and is kept by every step of a build, holds of all
builds of a session. -/
theorem forall_builds {P : Build σ → Prop}
    (hbegin : ∀ (e : Engine σ) path b engine, e.begin path = .ok (b, engine) → P b)
    (hstep : ∀ (e : Engine σ) b place, P b → P (b.stepAt e place).1) (e : Engine σ)
    (past : List Action) : ∀ b ∈ (after e past).builds, P b := by
  induction past with
  | nil =>
    intro b hb
    exact absurd hb List.not_mem_nil
  | cons a past ih =>
    intro b hb
    rw [after] at hb
    cases step_move (after e past) a with
    | idle hevent hnext =>
      rw [hnext] at hb
      exact ih b hb
    | begins path first engine ha hbegun hevent hnext =>
      rw [hnext, List.mem_append, List.mem_singleton] at hb
      rcases hb with hold | rfl
      · exact ih b hold
      · exact hbegin _ path b engine hbegun
    | builds call place before ha hbefore hevent hnext =>
      rw [hnext] at hb
      rcases List.mem_or_eq_of_mem_set hb with hold | rfl
      · exact ih b hold
      · exact hstep _ before place (ih before (List.mem_of_getElem? hbefore))
    | asks q ha hevent hnext =>
      rw [hnext] at hb
      exact ih b hb
    | looks asker q r hasker hr hevent hnext =>
      rw [hnext] at hb
      exact ih b hb
    | answers asker i ha hasker hevent hnext =>
      rw [hnext] at hb
      exact ih b hb
    | edits disk ha hevent hnext =>
      rw [hnext] at hb
      exact ih b hb

/-! ## Builds before and after an action -/

section Step

variable {e : Engine σ} {past : List Action} {call : Nat} {b : Build σ}

/-- Only beginnings and steps of builds change the builds. -/
theorem builds_step_of_other (s : Session σ) {a : Action} (hindex : ∀ path, a ≠ .index path)
    (hbuild : ∀ call place, a ≠ .build call place) : (s.step a).builds = s.builds := by
  cases step_move s a with
  | begins path new engine ha hbegin hevent hnext => exact absurd ha (hindex path)
  | builds call place before ha hbefore hevent hnext => exact absurd ha (hbuild call place)
  | idle hevent hnext => rw [hnext]
  | asks q ha hevent hnext => rw [hnext]
  | looks asker q r hasker hr hevent hnext => rw [hnext]
  | answers asker i ha hasker hevent hnext => rw [hnext]
  | edits disk ha hevent hnext => rw [hnext]

/-- A build that is there after an action has just begun, has just taken a step, or was there
before. -/
theorem build_cases {a : Action} (hb : (after e (a :: past)).builds[call]? = some b) :
    ((after e past).builds.length = call ∧ ∃ path engine, a = .index path ∧
        (after e past).engine.begin path = .ok (b, engine)) ∨
      (∃ place before, a = .build call place ∧ (after e past).builds[call]? = some before ∧
        b = (before.stepAt (after e past).engine place).1) ∨
      (∀ place, a ≠ .build call place) ∧ (after e past).builds[call]? = some b := by
  cases a with
  | index path =>
    cases hbegin : (after e past).engine.begin path with
    | error fault =>
      rw [after, step, hbegin] at hb
      exact Or.inr (Or.inr ⟨by simp, hb⟩)
    | ok started =>
      rw [after, step, hbegin] at hb
      dsimp only at hb
      rw [List.getElem?_append] at hb
      split at hb
      · exact Or.inr (Or.inr ⟨by simp, hb⟩)
      · rename_i hnew
        obtain ⟨hlt, hstarted⟩ := List.getElem?_eq_some_iff.mp hb
        have hcall : (after e past).builds.length = call := by
          rw [List.length_singleton] at hlt
          omega
        rw [List.getElem_singleton] at hstarted
        exact Or.inl ⟨hcall, path, started.2, rfl, by rw [← hstarted, hbegin]⟩
  | build call' place =>
    by_cases hcall : call' = call
    · subst hcall
      cases hbefore : (after e past).builds[call']? with
      | none =>
        rw [after, step, hbefore] at hb
        simp [hbefore] at hb
      | some before =>
        rw [after_build hbefore, List.getElem?_set_self (List.getElem?_eq_some_iff.mp hbefore).1] at hb
        exact Or.inr (Or.inl ⟨place, before, rfl, rfl, (Option.some.inj hb).symm⟩)
    · refine Or.inr (Or.inr ⟨by simp [hcall], ?_⟩)
      cases hbefore : (after e past).builds[call']? with
      | none => rwa [after, step, hbefore] at hb
      | some before => rwa [after_build hbefore, List.getElem?_set_ne hcall] at hb
  | _ =>
    rw [after, builds_step_of_other _ (by simp) (by simp)] at hb
    exact Or.inr (Or.inr ⟨by simp, hb⟩)

theorem length_builds_le (e : Engine σ) (past : List Action) (a : Action) :
    (after e past).builds.length ≤ (after e (a :: past)).builds.length := by
  rw [after]
  cases step_move (after e past) a with
  | begins path new engine ha hbegin hevent hnext => rw [hnext]; simp
  | builds call place before ha hbefore hevent hnext => rw [hnext]; simp
  | idle hevent hnext => rw [hnext]
  | asks q ha hevent hnext => rw [hnext]
  | looks asker q r hasker hr hevent hnext => rw [hnext]
  | answers asker i ha hasker hevent hnext => rw [hnext]
  | edits disk ha hevent hnext => rw [hnext]

/-- A build that is there takes its step, or stays as it is. -/
theorem build_next (hb : (after e past).builds[call]? = some b) (a : Action) :
    (∃ place, a = .build call place ∧ (after e (a :: past)).builds[call]? =
        some (b.stepAt (after e past).engine place).1) ∨
      (∀ place, a ≠ .build call place) ∧ (after e (a :: past)).builds[call]? = some b := by
  have hlt : call < (after e past).builds.length := (List.getElem?_eq_some_iff.mp hb).1
  have hlater := List.getElem?_eq_getElem (Nat.lt_of_lt_of_le hlt (length_builds_le e past a))
  rcases build_cases hlater with ⟨hcall, -⟩ | ⟨place, before, ha, hbefore, hstep⟩ | ⟨hother, hsame⟩
  · omega
  · rw [hb] at hbefore
    obtain rfl := Option.some.inj hbefore
    exact Or.inl ⟨place, ha, by rw [hlater, hstep]⟩
  · exact Or.inr ⟨hother, by rw [hlater, ← hsame, hb]⟩

end Step

/-! ## What no action changes -/

/-- An engine with the same settings and services as another. -/
structure SameServices (e e' : Engine σ) : Prop where
  settings : e'.settings = e.settings
  session : e'.session = e.session
  embedder : e'.embedder = e.embedder
  hasStore : e'.hasStore = e.hasStore

theorem SameServices.trans {e e' e'' : Engine σ} (h : SameServices e e')
    (h' : SameServices e' e'') : SameServices e e'' :=
  ⟨h'.settings.trans h.settings, h'.session.trans h.session, h'.embedder.trans h.embedder,
    h'.hasStore.trans h.hasStore⟩

theorem sameServices_stepAt (e : Engine σ) (b : Build σ) (place : Nat) :
    SameServices e (b.stepAt e place).2 := by
  obtain ⟨holder, vectors, reported, database, monitor, world, notices, hengine⟩ :=
    stepAt_eq_with e b place
  rw [hengine]
  exact ⟨rfl, rfl, rfl, rfl⟩

/-- Settings and services stay as they are. -/
theorem sameServices_after (e : Engine σ) (past : List Action) :
    SameServices e (after e past).engine := by
  induction past with
  | nil => exact ⟨rfl, rfl, rfl, rfl⟩
  | cons a past ih =>
    refine ih.trans ?_
    rw [after]
    cases step_move (after e past) a with
    | idle hevent hnext => rw [hnext]; exact ⟨rfl, rfl, rfl, rfl⟩
    | begins path b engine ha hbegin hevent hnext =>
      obtain ⟨-, -, rfl⟩ := begin_ok hbegin
      rw [hnext]
      exact ⟨rfl, rfl, rfl, rfl⟩
    | builds call place b ha hb hevent hnext =>
      rw [hnext]
      exact sameServices_stepAt (after e past).engine b place
    | asks q ha hevent hnext => rw [hnext]; exact ⟨rfl, rfl, rfl, rfl⟩
    | looks asker q r hasker hr hevent hnext => rw [hnext]; exact ⟨rfl, rfl, rfl, rfl⟩
    | answers asker i ha hasker hevent hnext =>
      obtain ⟨results, monitor, database, world, notices, hengine⟩ :=
        advance_eq_with (after e past).engine i
      rw [hnext, Inquiry.step]
      dsimp only
      rw [hengine]
      exact ⟨rfl, rfl, rfl, rfl⟩
    | edits disk ha hevent hnext => rw [hnext]; exact ⟨rfl, rfl, rfl, rfl⟩

/-- What all builds have when they begin, and keep with every step while the vectors that are kept are
of a kind, all builds of a session have. -/
theorem forall_builds_of_vectors {P : Build σ → Prop} {Q : Embedding.Vectors → Prop} {e : Engine σ}
    (hvectors : Q e.vectors)
    (hbegin : ∀ b : Build σ, b.stage = .walking → P b)
    (hstep : ∀ (e' : Engine σ) (b : Build σ) (place : Nat), b.pipeline.embedder = e.embedder →
      Q e'.vectors → P b → P (b.stepAt e' place).1 ∧ Q (b.stepAt e' place).2.vectors)
    (past : List Action) : Q (after e past).engine.vectors ∧
      ∀ b ∈ (after e past).builds, b.pipeline.embedder = e.embedder ∧ P b := by
  -- the pipeline of a build is the one it began with, so its embedder is that of the engine
  induction past with
  | nil =>
    refine ⟨hvectors, ?_⟩
    intro b hb
    simp [after] at hb
  | cons a past ih =>
    obtain ⟨hkept, hbuilds⟩ := ih
    rw [after]
    cases step_move (after e past) a with
    | idle hevent hnext => rw [hnext]; exact ⟨hkept, hbuilds⟩
    | begins path b engine ha hbegun hevent hnext =>
      obtain ⟨-, hb, rfl⟩ := begin_ok hbegun
      rw [hnext]
      refine ⟨hkept, ?_⟩
      intro b' hb'
      rcases List.mem_append.mp hb' with hold | hnew
      · exact hbuilds b' hold
      · rw [List.mem_singleton.mp hnew]
        refine ⟨?_, hbegin b (congrArg Build.stage hb)⟩
        exact (congrArg (fun b => b.pipeline.embedder) hb).trans (sameServices_after e past).embedder
    | builds call place b ha hb hevent hnext =>
      obtain ⟨hembedder, hbefore⟩ := hbuilds b (List.mem_of_getElem? hb)
      obtain ⟨hafter, hkept'⟩ := hstep (after e past).engine b place hembedder hkept hbefore
      rw [hnext]
      refine ⟨hkept', ?_⟩
      intro b' hb'
      rcases List.mem_or_eq_of_mem_set hb' with hold | rfl
      · exact hbuilds b' hold
      · rw [stepAt_pipeline]
        exact ⟨hembedder, hafter⟩
    | asks q ha hevent hnext => rw [hnext]; exact ⟨hkept, hbuilds⟩
    | looks asker q r hasker hr hevent hnext => rw [hnext]; exact ⟨hkept, hbuilds⟩
    | answers asker i ha hasker hevent hnext =>
      obtain ⟨results, monitor, database, world, notices, hengine⟩ :=
        advance_eq_with (after e past).engine i
      rw [hnext, Inquiry.step]
      dsimp only
      rw [hengine]
      exact ⟨hkept, hbuilds⟩
    | edits disk ha hevent hnext => rw [hnext]; exact ⟨hkept, hbuilds⟩

/-- An engine with the same parsers and homes, and the same explainer, as another. -/
structure SameOutside (e e' : Engine σ) : Prop where
  parsers : e'.parsers = e.parsers
  homeOf : e'.homeOf = e.homeOf
  explainer : e'.explainer = e.explainer

theorem SameOutside.trans {e e' e'' : Engine σ} (h : SameOutside e e')
    (h' : SameOutside e' e'') : SameOutside e e'' :=
  ⟨h'.parsers.trans h.parsers, h'.homeOf.trans h.homeOf, h'.explainer.trans h.explainer⟩

theorem sameOutside_step (e : Engine σ) (i : Inquiry) : SameOutside e (i.step e).2 := by
  obtain ⟨results, monitor, database, world, notices, hengine⟩ := advance_eq_with e i
  rw [Inquiry.step]
  dsimp only
  rw [hengine]
  exact ⟨rfl, rfl, rfl⟩

/-- The parsers, the homes and the explainer stay as they are. -/
theorem sameOutside_after (e : Engine σ) (past : List Action) :
    SameOutside e (after e past).engine := by
  induction past with
  | nil => exact ⟨rfl, rfl, rfl⟩
  | cons a past ih =>
    refine ih.trans ?_
    rw [after]
    cases step_move (after e past) a with
    | idle hevent hnext => rw [hnext]; exact ⟨rfl, rfl, rfl⟩
    | begins path b engine ha hbegin hevent hnext =>
      obtain ⟨-, -, rfl⟩ := begin_ok hbegin
      rw [hnext]
      exact ⟨rfl, rfl, rfl⟩
    | builds call place b ha hb hevent hnext =>
      obtain ⟨holder, vectors, reported, database, monitor, world, notices, hengine⟩ :=
        stepAt_eq_with (after e past).engine b place
      rw [hnext]
      dsimp only
      rw [hengine]
      exact ⟨rfl, rfl, rfl⟩
    | asks q ha hevent hnext => rw [hnext]; exact ⟨rfl, rfl, rfl⟩
    | looks asker q r hasker hr hevent hnext => rw [hnext]; exact ⟨rfl, rfl, rfl⟩
    | answers asker i ha hasker hevent hnext =>
      rw [hnext]
      exact sameOutside_step (after e past).engine i
    | edits disk ha hevent hnext => rw [hnext]; exact ⟨rfl, rfl, rfl⟩

/-! ## A small engine -/

/-- An import on the octets from `start` up to `stop`, the module in quotes behind the keyword. -/
def importNode (start stop : Nat) : Tree.Node :=
  ⟨"import_statement", start, stop, true, false, false, "",
    [⟨"string", start + 7, stop - 1, true, false, false, "source", []⟩]⟩

/-- An embedder that gives one vector for all texts. -/
def constant : Embedding.Embedder Unit :=
  ⟨"constant", 1, fun _ world => (.vector [1.0], world)⟩

/-- An engine for a directory with one file of imports. It has a store of vectors if it has an
embedder. -/
def importing (text : String) (imports : List Tree.Node)
    (embedder : Option (Embedding.Embedder Unit)) : Engine Unit :=
  let tree : Tree.Node := ⟨"program", 0, text.utf8ByteSize, true, false, false, "", imports⟩
  Engine.new { vectorUri := "" } ⟨fun _ => none, fun _ _ => tree⟩ embedder none embedder.isSome
    "session" (fun _ => none) {}
    ⟨⟨1, []⟩, .directory [("a.js", .file (Text.encode text.toList))]⟩ ()

/-- An engine for a directory with one import, with a store and an embedder. -/
def oneImport : Engine Unit :=
  importing "import 'x';" [importNode 0 11] (some constant)

/-- A build with so many steps after its walk. -/
def indexing (call steps : Nat) : List Action :=
  List.replicate (steps + 1) (.build call 0) ++ [.index "/"]

end Session

end CodeSearch.Engine

import CodeSearch.Engine.Explanation
import CodeSearch.Proofs.Engine.Answers
import CodeSearch.Proofs.Engine.WholeCalls
import CodeSearch.Proofs.Search.Ranking

/-!
Where results come from.

Answers that are remembered outlive the generation that they were made from and the store that was
asked for them. What keeps them apart is their key: a generation is told by its number, which no
other generation has, and answers found without the store are remembered apart from the others. So
whatever calls are made, in whatever order their steps are taken and whatever happens to the store in
between, a question is given chunks of its own generation (`Sound`), and one that is put after the
store was given up is given none that were found by vectors.
-/
set_option autoImplicit false

namespace CodeSearch.Engine

open CodeSearch.Index (Generation Holder)
open CodeSearch.Search (Query Result Match Monitor)

variable {σ : Type}

/-! ## Courses -/

/-- What can happen next to an engine, its builds and its questions. -/
inductive Happening (σ : Type) where
  | act (a : Action)
  /-- What is remembered is forgotten. -/
  | forget
  /-- The explainer is asked about what was found. -/
  | explain (found prompt failing failed : String)
  /-- The database or the world outside changes. -/
  | outside (database : Vector.Database) (world : σ)

namespace Session

/-- What a happening changes. -/
def happen (s : Session σ) : Happening σ → Session σ
  | .act a => s.step a
  | .forget => { s with engine := s.engine.clearResults }
  | .explain found prompt failing failed =>
    { s with engine := (s.engine.explained found prompt failing failed).2 }
  | .outside database world =>
    { s with engine := { s.engine with database := database, world := world } }

/-- A session after some happenings, the latest one first. -/
def course (e : Engine σ) : List (Happening σ) → Session σ
  | [] => { engine := e }
  | h :: past => (course e past).happen h

end Session

/-! ## Results of a generation -/

theorem explained_eq_with (e : Engine σ) (found prompt failing failed : String) :
    ∃ world notices, (e.explained found prompt failing failed).2 =
      { e with world := world, notices := notices } := by
  unfold explained
  split
  · exact ⟨e.world, e.notices, rfl⟩
  · dsimp only
    split
    · exact ⟨_, e.notices, rfl⟩
    · exact ⟨_, _, rfl⟩
    · exact ⟨_, e.notices, rfl⟩

theorem mem_of_chunkNamed {g : Generation} {id : Value} {c : Chunk}
    (h : g.chunkNamed id = .ok (some c)) : c ∈ g.chunks := by
  unfold Generation.chunkNamed at h
  split at h
  · exact List.mem_reverse.mp (List.mem_of_find?_eq_some (Except.ok.inj h))
  · simp at h
  · simp at h
  · simp at h

/-- A result is made of a chunk of the generation, and says how it was found. -/
theorem mem_resultsOf {g : Generation} {q : Query} {backend : Backend} {found : List Match}
    {results : List Result} (h : resultsOf g q backend found = .ok results) :
    ∀ r ∈ results, r.chunk ∈ g.chunks ∧ r.backend = backend := by
  intro r hr
  unfold resultsOf at h
  cases hmade : found.mapM (resultOf g q backend) with
  | error fault => simp [hmade, bind, Except.bind] at h
  | ok made =>
    simp only [hmade, bind, Except.bind, pure, Except.pure, Except.ok.injEq] at h
    subst h
    -- the limit and the order leave results as they are
    have hordered := List.mem_of_mem_take hr
    rw [(Search.bestFirst_perm _ _).mem_iff, List.mem_filterMap] at hordered
    obtain ⟨some, hsome, rfl⟩ := hordered
    obtain ⟨m, -, hm⟩ := Vector.exists_of_mem_mapM hmade hsome
    unfold resultOf at hm
    cases hnamed : g.chunkNamed m.id with
    | error fault => simp [hnamed, bind, Except.bind] at hm
    | ok named =>
      cases named with
      | none => simp [hnamed, bind, Except.bind, pure, Except.pure] at hm
      | some c =>
        simp only [hnamed, bind, Except.bind, pure, Except.pure, Except.ok.injEq] at hm
        split at hm
        · obtain rfl := Option.some.inj hm
          exact ⟨mem_of_chunkNamed hnamed, rfl⟩
        · simp at hm

/-! ## Questions and what is remembered -/

/-- Results of a generation, and found by words if they are remembered so. -/
def Belongs (g : Generation) (vectors : Bool) (results : List Result) : Prop :=
  ∀ r ∈ results, r.chunk ∈ g.chunks ∧ (vectors = false → r.backend = .lexical)

/-- A key under which a question may remember its results: that of its generation, and of answers by
words only if the store is given up. -/
structure KeyFits (g : Generation) (m : Monitor) (key : ResultKey) : Prop where
  generation : key.generation = g.number
  down : key.vectors = false → m.available = false

/-- How far a question has come with a key that fits. The store is not asked under a key of answers by
words. -/
def Inquiry.Fits (m : Monitor) (i : Inquiry) : Prop :=
  match i.progress with
  | .opened => True
  | .choosing key | .byWords key => KeyFits i.generation m key
  | .embedding key _ | .searching key _ _ => KeyFits i.generation m key ∧ key.vectors = true
  | .found key _ backend => KeyFits i.generation m key ∧ (key.vectors = false → backend = .lexical)
  | .ended (.ok results) => ∀ r ∈ results, r.chunk ∈ i.generation.chunks
  | .ended (.error _) => True

/-- An entry of what is remembered was made by a question to a generation. -/
def Remembers (g : Generation) (entry : ResultKey × List Result) : Prop :=
  entry.1.generation = g.number ∧ Belongs g entry.1.vectors entry.2

/-- A step of a question goes on with a key that fits, and what it adds to what is remembered are
results of its own generation. -/
theorem Inquiry.Fits.step {e : Engine σ} {i : Inquiry} (h : i.Fits e.monitor)
    (hkept : ∀ entry ∈ e.results.entries, entry.1.generation = i.generation.number →
      Belongs i.generation entry.1.vectors entry.2) :
    (i.step e).1.Fits (i.step e).2.monitor ∧
      ∀ entry ∈ (i.step e).2.results.entries,
        Remembers i.generation entry ∨ entry ∈ e.results.entries := by
  have hsame : ∀ entry ∈ e.results.entries,
      Remembers i.generation entry ∨ entry ∈ e.results.entries := fun _ hentry => Or.inr hentry
  unfold Inquiry.Fits at h
  cases i.step_move e with
  | remembered results hprogress hget hnext =>
    rw [hnext]
    refine ⟨?_, fun entry hentry => Or.inr (Lru.mem_of_touch hentry)⟩
    exact fun r hr => (hkept _ (Lru.mem_of_get? hget) rfl r hr).1
  | forgotten hprogress hget hnext =>
    rw [hnext]
    exact ⟨⟨rfl, fun hdown => hdown⟩, hsame⟩
  | toStore key index hprogress hvector hserves hnext =>
    rw [hprogress] at h
    rw [hnext]
    refine ⟨⟨h, ?_⟩, hsame⟩
    by_contra hwords
    rw [h.down (Bool.eq_false_iff.mpr hwords)] at hserves
    exact absurd hserves Bool.false_ne_true
  | toWords key hprogress hnone hnext =>
    rw [hprogress] at h
    rw [hnext]
    exact ⟨h, hsame⟩
  | embedded key index vector hprogress hsaid hnext =>
    rw [hprogress] at h
    rw [hnext]
    exact ⟨h, hsame⟩
  | refused key index reason hprogress hsaid hnext =>
    rw [hprogress] at h
    rw [hnext]
    exact ⟨h.1, hsame⟩
  | searched key index vector found hprogress hquery hnext =>
    rw [hprogress] at h
    rw [hnext]
    refine ⟨⟨h.1, ?_⟩, hsame⟩
    intro hwords
    rw [h.2] at hwords
    exact absurd hwords (by decide)
  | lost key index vector u hprogress hquery hnext =>
    rw [hprogress] at h
    rw [hnext]
    exact ⟨⟨h.1.generation, fun _ => available_markDown _ _⟩, hsame⟩
  | matched key hprogress hnext =>
    rw [hprogress] at h
    rw [hnext]
    exact ⟨⟨h, fun _ => rfl⟩, hsame⟩
  | finished key found backend results hprogress hresults hnext =>
    rw [hprogress] at h
    rw [hnext]
    have hmade := mem_resultsOf hresults
    refine ⟨fun r hr => (hmade r hr).1, ?_⟩
    intro entry hentry
    rcases Lru.mem_of_put hentry with rfl | hold
    · refine Or.inl ⟨h.1.generation, fun r hr => ⟨(hmade r hr).1, fun hwords => ?_⟩⟩
      exact (hmade r hr).2.trans (h.2 hwords)
    · exact Or.inr hold
  | ended result hprogress hnext =>
    rw [hnext]
    exact ⟨h, hsame⟩
  -- the others end the question with a fault
  | _ =>
    rename i.step e = _ => hnext
    rw [hnext]
    exact ⟨trivial, hsame⟩

theorem Inquiry.Fits.mono {m m' : Monitor} {i : Inquiry} (h : i.Fits m)
    (hdown : m.available = false → m'.available = false) : i.Fits m' := by
  have hkey : ∀ {key}, KeyFits i.generation m key → KeyFits i.generation m' key :=
    fun hfits => ⟨hfits.generation, fun hwords => hdown (hfits.down hwords)⟩
  unfold Inquiry.Fits at h ⊢
  split at h
  · exact h
  · exact hkey h
  · exact hkey h
  · exact ⟨hkey h.1, h.2⟩
  · exact ⟨hkey h.1, h.2⟩
  · exact ⟨hkey h.1, h.2⟩
  · exact h
  · exact h

theorem room_step (e : Engine σ) (i : Inquiry) :
    (i.step e).2.results.room = e.results.room := by
  cases i.step_move e with
  | remembered results hprogress hget hnext => rw [hnext]; exact Lru.room_touch _ _
  | finished key found backend results hprogress hresults hnext =>
    rw [hnext]
    exact Lru.room_put _ _ _
  | _ =>
    rename i.step e = _ => hnext
    exact congrArg (fun next => next.2.results.room) hnext

/-- A question that comes to its results by words alone. -/
def Inquiry.Plain (i : Inquiry) : Prop :=
  match i.progress with
  | .embedding .. | .searching .. => False
  | .found _ _ backend => backend = .lexical
  | .ended (.ok results) => ∀ r ∈ results, r.backend = .lexical
  | _ => True

/-- With the store given up, what was remembered of answers by words is all that is looked at. -/
theorem Inquiry.Plain.step {e : Engine σ} {i : Inquiry} (h : i.Plain)
    (hdown : e.monitor.available = false)
    (hkept : ∀ entry ∈ e.results.entries, entry.1.vectors = false →
      ∀ r ∈ entry.2, r.backend = .lexical) : (i.step e).1.Plain := by
  unfold Inquiry.Plain at h
  cases i.step_move e with
  | remembered results hprogress hget hnext =>
    rw [hnext]
    exact hkept _ (Lru.mem_of_get? hget) hdown
  | toStore key index hprogress hvector hserves hnext =>
    rw [hdown] at hserves
    exact absurd hserves Bool.false_ne_true
  | embedded key index vector hprogress hsaid hnext => rw [hprogress] at h; exact h.elim
  | searched key index vector found hprogress hquery hnext => rw [hprogress] at h; exact h.elim
  | matched key hprogress hnext => rw [hnext]; exact rfl
  | finished key found backend results hprogress hresults hnext =>
    rw [hprogress] at h
    obtain rfl : backend = .lexical := h
    rw [hnext]
    exact fun r hr => (mem_resultsOf hresults r hr).2
  | ended result hprogress hnext => rw [hnext]; exact h
  | _ =>
    rename i.step e = _ => hnext
    rw [hnext]
    exact trivial

/-! ## Which generation has which number -/

theorem latest_stepAt (e : Engine σ) (b : Build σ) (place : Nat) :
    (b.stepAt e place).2.holder.latest = e.holder.latest := by
  cases stepAt_turn e b place with
  | working hopen hevent hnext hholder hmade hsummary => rw [hholder]
  | publishing g embedded hstage hnext => rw [hnext]; exact Index.Traffic.publish_latest _ _
  | aborting result hstage hnext => rw [hnext]; rfl
  | closed hclosed hevent hnext hholder hsummary => rw [hholder]

theorem made_stepAt {e : Engine σ} {b : Build σ} {place : Nat} {g : Generation}
    (h : (b.stepAt e place).1.stage.made? = some g) :
    g.number = b.number ∨ ∃ g', b.stage.made? = some g' ∧ g.number = g'.number := by
  cases stepAt_turn e b place with
  | working hopen hevent hnext hholder hmade hsummary => exact hmade g h
  | publishing g embedded hstage hnext =>
    rw [hnext, publish_stage] at h
    simp [Stage.made?] at h
  | aborting result hstage hnext =>
    rw [hnext] at h
    simp [Stage.made?] at h
  | closed hclosed hevent hnext hholder hsummary =>
    cases hstage : (b.stepAt e place).1.stage with
    | storing g embedded => rw [hstage] at hnext; exact absurd hnext (by simp [Stage.isOpen])
    | publishing g embedded => rw [hstage] at hnext; exact absurd hnext (by simp [Stage.isOpen])
    | _ => rw [hstage] at h; simp [Stage.made?] at h

/-- A step of a build leaves the current generation, or puts the one that it has made in its place. -/
theorem current_stepAt (e : Engine σ) (b : Build σ) (place : Nat) :
    (b.stepAt e place).2.holder.current = e.holder.current ∨
      ∃ g, b.stage.made? = some g ∧ b.stage.isOpen = true ∧
        (b.stepAt e place).1.stage.isOpen = false ∧
          (b.stepAt e place).2.holder.current = some g := by
  cases stepAt_turn e b place with
  | working hopen hevent hnext hholder hmade hsummary => rw [hholder]; exact Or.inl rfl
  | publishing g embedded hstage hnext =>
    rw [hnext, hstage]
    by_cases hlatest : g.number = e.holder.latest
    · refine Or.inr ⟨g, rfl, rfl, rfl, ?_⟩
      show (e.holder.publish g).2.2.current = some g
      rw [Index.Traffic.publish_swap hlatest]
    · refine Or.inl ?_
      show (e.holder.publish g).2.2.current = e.holder.current
      rw [Index.Traffic.publish_stale hlatest]
  | aborting result hstage hnext => rw [hnext]; exact Or.inl rfl
  | closed hclosed hevent hnext hholder hsummary => rw [hholder]; exact Or.inl rfl

namespace Session

variable {s : Session σ}

/-- Builds are numbered from one in the order in which they began, and what they make has their
number. -/
structure Numbered (s : Session σ) : Prop where
  latest_eq : s.engine.holder.latest = s.builds.length
  number_eq : ∀ (call : Nat) b, s.builds[call]? = some b → b.number = call + 1
  made_number : ∀ b ∈ s.builds, ∀ g, b.stage.made? = some g → g.number = b.number

theorem Numbered.eq_of_number (h : Numbered s) {b b' : Build σ} (hb : b ∈ s.builds)
    (hb' : b' ∈ s.builds) (hnumber : b.number = b'.number) : b = b' := by
  obtain ⟨i, hi⟩ := List.mem_iff_getElem?.mp hb
  obtain ⟨j, hj⟩ := List.mem_iff_getElem?.mp hb'
  have hij : i = j := by
    have hnumber₁ := h.number_eq i b hi
    have hnumber₂ := h.number_eq j b' hj
    omega
  rw [hij, hj] at hi
  exact (Option.some.inj hi).symm

theorem Numbered.begin (h : Numbered s) {path : String} {b : Build σ} {engine : Engine σ}
    (hbegin : s.engine.begin path = .ok (b, engine)) :
    Numbered { s with engine := engine, builds := s.builds ++ [b] } := by
  obtain ⟨-, -, rfl⟩ := begin_ok hbegin
  have hnew : b.number = s.builds.length + 1 := by
    rw [number_begin hbegin, Holder.start, h.latest_eq]
  refine ⟨?_, ?_, ?_⟩
  · show s.engine.holder.latest + 1 = ((s.builds ++ [b]).length : Int)
    rw [h.latest_eq, List.length_append, List.length_singleton]
    omega
  · intro call b' hb'
    rw [List.getElem?_append] at hb'
    split at hb'
    · exact h.number_eq call b' hb'
    · obtain ⟨hlt, rfl⟩ := List.getElem?_eq_some_iff.mp hb'
      rw [List.length_singleton] at hlt
      rw [List.getElem_singleton, hnew]
      omega
  · intro b' hb' g hg
    rcases List.mem_append.mp hb' with hold | hlast
    · exact h.made_number b' hold g hg
    · rw [List.mem_singleton.mp hlast, stage_begin hbegin] at hg
      simp [Stage.made?] at hg

theorem Numbered.build (h : Numbered s) {call place : Nat} {b : Build σ}
    (hb : s.builds[call]? = some b) :
    Numbered { s with engine := (b.stepAt s.engine place).2,
                      builds := s.builds.set call (b.stepAt s.engine place).1 } := by
  have hnumber := stepAt_number s.engine b place
  refine ⟨?_, ?_, ?_⟩
  · rw [latest_stepAt, List.length_set, h.latest_eq]
  · intro call' b' hb'
    rw [List.getElem?_set] at hb'
    split at hb'
    · rename_i hcall
      subst hcall
      rw [if_pos (List.getElem?_eq_some_iff.mp hb).1] at hb'
      rw [← Option.some.inj hb', hnumber]
      exact h.number_eq call b hb
    · exact h.number_eq call' b' hb'
  · intro b' hb' g hg
    rcases List.mem_or_eq_of_mem_set hb' with hold | rfl
    · exact h.made_number b' hold g hg
    · rw [hnumber]
      rcases made_stepAt hg with hnew | ⟨g', hg', hsame⟩
      · exact hnew
      · exact hsame.trans (h.made_number b (List.mem_of_getElem? hb) g' hg')

/-- A question that has just been served has not been looked up yet. -/
theorem opened_of_served {q : Query} {r : Holder.Reader} {i : Inquiry}
    (h : .served i = Asker.ofReader q r) : i.progress = .opened := by
  rw [Asker.reader_of_served h, Asker.ofReader] at h
  rw [Asker.served.inj h]

/-! ## What sessions keep -/

/-- A generation that is given to questions at the moment, or was given to one. -/
def Known (s : Session σ) (g : Generation) : Prop :=
  s.engine.holder.current = some g ∨ ∃ i, .served i ∈ s.askers ∧ i.generation = g

/-- A session in which every question has come so far with a key that fits, and what is remembered was
found by questions. Generations are known by their numbers. -/
structure Sound (s : Session σ) : Prop where
  numbered : Numbered s
  closed : ∀ g, s.Known g → ∃ b ∈ s.builds, b.number = g.number ∧ b.stage.isOpen = false
  unique : ∀ g g', s.Known g → s.Known g' → g.number = g'.number → g = g'
  fits : ∀ i, .served i ∈ s.askers → i.Fits s.engine.monitor
  remembered : ∀ entry ∈ s.engine.results.entries,
    ∃ i, .served i ∈ s.askers ∧ Remembers i.generation entry
  room : s.engine.results.room = resultRoom

namespace Sound

theorem begin {e : Engine σ} (hholder : e.holder = {}) (hresults : e.results = Lru.empty resultRoom) :
    Sound { engine := e } where
  numbered := ⟨by rw [hholder]; rfl, by simp, by simp⟩
  closed := by
    rintro g (hg | ⟨i, hi, -⟩)
    · simp [hholder] at hg
    · exact absurd hi List.not_mem_nil
  unique := by
    rintro g g' (hg | ⟨i, hi, -⟩)
    · simp [hholder] at hg
    · exact absurd hi List.not_mem_nil
  fits i hi := absurd hi List.not_mem_nil
  remembered entry hentry := by simp [hresults, Lru.empty] at hentry
  room := by rw [hresults]; rfl

/-- What is remembered under the number of a generation are results of it. -/
theorem kept (h : Sound s) {i : Inquiry} (hi : .served i ∈ s.askers) :
    ∀ entry ∈ s.engine.results.entries, entry.1.generation = i.generation.number →
      Belongs i.generation entry.1.vectors entry.2 := by
  intro entry hentry hnumber
  obtain ⟨i', hi', hgeneration, hbelongs⟩ := h.remembered entry hentry
  have hsame : i'.generation = i.generation :=
    h.unique _ _ (Or.inr ⟨i', hi', rfl⟩) (Or.inr ⟨i, hi, rfl⟩) (hgeneration.symm.trans hnumber)
  rw [← hsame]
  exact hbelongs

/-- A change of the engine that leaves the holder alone, forgets at most, and does not call back the
store. -/
theorem of_engine (h : Sound s) {engine : Engine σ} (hholder : engine.holder = s.engine.holder)
    (hresults : ∀ entry ∈ engine.results.entries, entry ∈ s.engine.results.entries)
    (hroom : engine.results.room = s.engine.results.room)
    (hdown : s.engine.monitor.available = false → engine.monitor.available = false) :
    Sound { s with engine := engine } where
  numbered := ⟨by rw [hholder]; exact h.numbered.latest_eq, h.numbered.number_eq,
    h.numbered.made_number⟩
  closed g hg := h.closed g (by unfold Known at hg ⊢; rwa [hholder] at hg)
  unique g g' hg hg' :=
    h.unique g g' (by unfold Known at hg ⊢; rwa [hholder] at hg)
      (by unfold Known at hg' ⊢; rwa [hholder] at hg')
  fits i hi := (h.fits i hi).mono hdown
  remembered entry hentry := h.remembered entry (hresults entry hentry)
  room := hroom.trans h.room

theorem index (h : Sound s) {path : String} {b : Build σ} {engine : Engine σ}
    (hbegin : s.engine.begin path = .ok (b, engine)) :
    Sound { s with engine := engine, builds := s.builds ++ [b] } := by
  have hnumbered := h.numbered.begin hbegin
  obtain ⟨-, -, -, notices, rfl⟩ := begin_ok hbegin
  refine ⟨hnumbered, ?_, h.unique, h.fits, h.remembered, h.room⟩
  intro g hg
  obtain ⟨b', hb', hknown⟩ := h.closed g hg
  exact ⟨b', List.mem_append_left _ hb', hknown⟩

/-- A question that is put, or looks again, knows only the current generation. -/
theorem asked (h : Sound s) {askers : List Asker} {q : Query} {r : Holder.Reader}
    (hr : ∀ g, r = .done (.ok g) → s.engine.holder.current = some g)
    (hnew : ∀ asker ∈ askers, asker ∈ s.askers ∨ asker = Asker.ofReader q r)
    (hold : ∀ i, .served i ∈ s.askers → .served i ∈ askers) :
    Sound { s with askers := askers } := by
  have hknown : ∀ {g}, Known { s with askers := askers } g → s.Known g := by
    rintro g (hcurrent | ⟨i, hi, rfl⟩)
    · exact Or.inl hcurrent
    · rcases hnew _ hi with hbefore | hasked
      · exact Or.inr ⟨i, hbefore, rfl⟩
      · exact Or.inl (hr _ (Asker.reader_of_served hasked))
  refine ⟨⟨h.numbered.latest_eq, h.numbered.number_eq, h.numbered.made_number⟩,
    fun g hg => h.closed g (hknown hg), fun g g' hg hg' => h.unique g g' (hknown hg) (hknown hg'),
    ?_, ?_, h.room⟩
  · intro i hi
    rcases hnew _ hi with hbefore | hasked
    · exact h.fits i hbefore
    · rw [Inquiry.Fits, opened_of_served hasked]
      trivial
  · intro entry hentry
    obtain ⟨i, hi, hmade⟩ := h.remembered entry hentry
    exact ⟨i, hold i hi, hmade⟩

/-- What a build publishes has a number that no known generation has. -/
theorem build (h : Sound s) {call place : Nat} {b : Build σ} (hb : s.builds[call]? = some b) :
    Sound { s with engine := (b.stepAt s.engine place).2,
                   builds := s.builds.set call (b.stepAt s.engine place).1 } := by
  have hmem : b ∈ s.builds := List.mem_of_getElem? hb
  have hlt : call < s.builds.length := (List.getElem?_eq_some_iff.mp hb).1
  have hnumber := stepAt_number s.engine b place
  obtain ⟨holder, vectors, reported, database, monitor, world, notices, hengine⟩ :=
    stepAt_eq_with s.engine b place
  have hresults : (b.stepAt s.engine place).2.results = s.engine.results := by rw [hengine]
  -- the builds of known generations stay closed
  have hclosed : ∀ g, s.Known g → ∃ b' ∈ s.builds.set call (b.stepAt s.engine place).1,
      b'.number = g.number ∧ b'.stage.isOpen = false := by
    intro g hg
    obtain ⟨b', hb', hsame, hended⟩ := h.closed g hg
    by_cases hthis : b'.number = b.number
    · obtain rfl := h.numbered.eq_of_number hb' hmem hthis
      exact ⟨_, List.mem_set hlt _, hnumber.trans hsame, isOpen_stepAt hended s.engine place⟩
    · obtain ⟨j, hj⟩ := List.mem_iff_getElem?.mp hb'
      have hne : call ≠ j := by
        rintro rfl
        rw [hb] at hj
        exact hthis (congrArg Build.number (Option.some.inj hj)).symm
      exact ⟨b', List.mem_of_getElem? (by rw [List.getElem?_set_ne hne, hj]), hsame, hended⟩
  have hcases : ∀ g, Known { s with engine := (b.stepAt s.engine place).2,
                                    builds := s.builds.set call (b.stepAt s.engine place).1 } g →
      s.Known g ∨ b.stage.made? = some g ∧ b.stage.isOpen = true ∧
        (b.stepAt s.engine place).1.stage.isOpen = false := by
    rintro g (hcurrent | hserved)
    · rcases current_stepAt s.engine b place with hsame | ⟨made, hmade, hopen, hended, hnew⟩
      · exact Or.inl (Or.inl (hsame ▸ hcurrent))
      · obtain rfl : made = g := Option.some.inj (hnew.symm.trans hcurrent)
        exact Or.inr ⟨hmade, hopen, hended⟩
    · exact Or.inl (Or.inr hserved)
  -- a build that is under way has made nothing that is known
  have hfresh : ∀ g g', s.Known g → b.stage.made? = some g' → b.stage.isOpen = true →
      g.number ≠ g'.number := by
    intro g g' hg hmade hopen hsame
    obtain ⟨b', hb', hnumber', hended⟩ := h.closed g hg
    have hthis : b'.number = b.number :=
      hnumber'.trans (hsame.trans (h.numbered.made_number b hmem g' hmade))
    rw [h.numbered.eq_of_number hb' hmem hthis, hopen] at hended
    exact absurd hended (by decide)
  refine ⟨h.numbered.build hb, ?_, ?_, ?_, ?_, ?_⟩
  · intro g hg
    rcases hcases g hg with hbefore | ⟨hmade, -, hended⟩
    · exact hclosed g hbefore
    · exact ⟨_, List.mem_set hlt _,
        hnumber.trans (h.numbered.made_number b hmem g hmade).symm, hended⟩
  · intro g g' hg hg' hsame
    rcases hcases g hg with hbefore | ⟨hmade, hopen, -⟩
    · rcases hcases g' hg' with hbefore' | ⟨hmade', hopen', -⟩
      · exact h.unique g g' hbefore hbefore' hsame
      · exact absurd hsame (hfresh g g' hbefore hmade' hopen')
    · rcases hcases g' hg' with hbefore' | ⟨hmade', -, -⟩
      · exact absurd hsame.symm (hfresh g' g hbefore' hmade hopen)
      · exact Option.some.inj (hmade.symm.trans hmade')
  · intro i hi
    refine (h.fits i hi).mono fun hdown => ?_
    rw [monitor_stepAt_of_down hdown]
    exact hdown
  · rw [hresults]
    exact h.remembered
  · rw [hresults]
    exact h.room

/-- A question that takes a step is given results of its own generation. -/
theorem answer (h : Sound s) {asker : Nat} {i : Inquiry} (hi : s.askers[asker]? = some (.served i)) :
    Sound { s with engine := (i.step s.engine).2,
                   askers := s.askers.set asker (.served (i.step s.engine).1) } := by
  have hmem : .served i ∈ s.askers := List.mem_of_getElem? hi
  have hlt : asker < s.askers.length := (List.getElem?_eq_some_iff.mp hi).1
  obtain ⟨hfits, hentries⟩ := (h.fits i hmem).step (h.kept hmem)
  obtain ⟨results, monitor, database, world, notices, hengine⟩ := advance_eq_with s.engine i
  have hholder : (i.step s.engine).2.holder = s.engine.holder := by
    rw [Inquiry.step]; dsimp only; rw [hengine]
  have hdown : s.engine.monitor.available = false →
      (i.step s.engine).2.monitor.available = false := by
    intro hdown
    rw [Inquiry.step]
    dsimp only
    rw [monitor_advance_of_down hdown]
    exact hdown
  have hknown : ∀ {g}, Known { s with engine := (i.step s.engine).2,
                                      askers := s.askers.set asker (.served (i.step s.engine).1) } g →
      s.Known g := by
    rintro g (hcurrent | ⟨i', hi', rfl⟩)
    · exact Or.inl (hholder ▸ hcurrent)
    · rcases List.mem_or_eq_of_mem_set hi' with hold | hnew
      · exact Or.inr ⟨i', hold, rfl⟩
      · rw [Asker.served.inj hnew]
        exact Or.inr ⟨i, hmem, rfl⟩
  refine ⟨⟨?_, h.numbered.number_eq, h.numbered.made_number⟩, fun g hg => h.closed g (hknown hg),
    fun g g' hg hg' => h.unique g g' (hknown hg) (hknown hg'), ?_, ?_, ?_⟩
  · rw [hholder]
    exact h.numbered.latest_eq
  · intro i' hi'
    rcases List.mem_or_eq_of_mem_set hi' with hold | hnew
    · exact (h.fits i' hold).mono hdown
    · rw [Asker.served.inj hnew]
      exact hfits
  · intro entry hentry
    rcases hentries entry hentry with hmade | hold
    · exact ⟨(i.step s.engine).1, List.mem_set hlt _, hmade⟩
    · -- the question that has found the entry is still there, and may be this one
      obtain ⟨i', hi', hmade⟩ := h.remembered entry hold
      obtain ⟨j, hj⟩ := List.mem_iff_getElem?.mp hi'
      by_cases hthis : asker = j
      · subst hthis
        rw [hi] at hj
        obtain rfl := Asker.served.inj (Option.some.inj hj)
        exact ⟨(i.step s.engine).1, List.mem_set hlt _, hmade⟩
      · exact ⟨i', List.mem_of_getElem? (by rw [List.getElem?_set_ne hthis, hj]), hmade⟩
  · exact (room_step s.engine i).trans h.room

/-- Whatever happens, a session stays sound. -/
theorem happen (h : Sound s) (next : Happening σ) : Sound (s.happen next) := by
  cases next with
  | forget =>
    exact h.of_engine rfl (fun entry hentry => absurd hentry List.not_mem_nil) rfl fun hdown => hdown
  | explain found prompt failing failed =>
    obtain ⟨world, notices, hengine⟩ := explained_eq_with s.engine found prompt failing failed
    show Sound { s with engine := (s.engine.explained found prompt failing failed).2 }
    rw [hengine]
    exact h.of_engine rfl (fun entry hentry => hentry) rfl fun hdown => hdown
  | outside database world =>
    exact h.of_engine rfl (fun entry hentry => hentry) rfl fun hdown => hdown
  | act a =>
    show Sound (s.step a)
    cases step_move s a with
    | idle hevent hnext => rw [hnext]; exact h
    | begins path b engine ha hbegin hevent hnext =>
      rw [hnext]
      exact h.index hbegin
    | builds call place b ha hb hevent hnext => rw [hnext]; exact h.build hb
    | asks q ha hevent hnext =>
      rw [hnext]
      refine h.asked (q := q) (r := s.engine.holder.arrive) ?_ ?_ ?_
      · intro g hg
        exact (Holder.arrive_eq_ok.mp hg).2
      · intro asker hasker
        simpa using hasker
      · intro i hi
        exact List.mem_append_left _ hi
    | looks asker q r hasker hr hevent hnext =>
      rw [hnext]
      refine h.asked (q := q) (r := r) ?_ ?_ ?_
      · rintro g rfl
        exact (serves_of_looked hr).2
      · intro asker' hasker'
        exact List.mem_or_eq_of_mem_set hasker'
      · intro i hi
        obtain ⟨j, hj⟩ := List.mem_iff_getElem?.mp hi
        have hne : asker ≠ j := by
          rintro rfl
          rw [hasker] at hj
          exact absurd (Option.some.inj hj) (by simp)
        exact List.mem_of_getElem? (by rw [List.getElem?_set_ne hne, hj])
    | answers asker i ha hasker hevent hnext => rw [hnext]; exact h.answer hasker
    | edits disk ha hevent hnext =>
      rw [hnext]
      exact h.of_engine rfl (fun entry hentry => hentry) rfl fun hdown => hdown

end Sound

theorem sound_course {e : Engine σ} (hholder : e.holder = {})
    (hresults : e.results = Lru.empty resultRoom) (past : List (Happening σ)) :
    Sound (course e past) := by
  induction past with
  | nil => exact Sound.begin hholder hresults
  | cons next past ih => exact ih.happen next

/-! ## Questions after the store was given up -/

/-- The store is given up, and all questions from a place on come to their results by words. -/
structure PlainFrom (n : Nat) (s : Session σ) : Prop where
  down : s.engine.monitor.available = false
  plain : ∀ (asker : Nat) i, n ≤ asker → s.askers[asker]? = some (.served i) → i.Plain

namespace PlainFrom

variable {n : Nat}

theorem of_engine (h : PlainFrom n s) {engine : Engine σ}
    (hmonitor : engine.monitor = s.engine.monitor) (builds : List (Build σ)) :
    PlainFrom n { s with engine := engine, builds := builds } where
  down := by rw [hmonitor]; exact h.down
  plain := h.plain

theorem happen (h : PlainFrom n s) (hsound : Sound s) (next : Happening σ) :
    PlainFrom n (s.happen next) := by
  cases next with
  | forget => exact h.of_engine (by rfl) s.builds
  | explain found prompt failing failed =>
    obtain ⟨world, notices, hengine⟩ := explained_eq_with s.engine found prompt failing failed
    exact h.of_engine (by rw [hengine]) s.builds
  | outside database world => exact h.of_engine (by rfl) s.builds
  | act a =>
    show PlainFrom n (s.step a)
    cases step_move s a with
    | idle hevent hnext => rw [hnext]; exact h
    | begins path b engine ha hbegin hevent hnext =>
      obtain ⟨-, -, -, notices, rfl⟩ := begin_ok hbegin
      rw [hnext]
      exact h.of_engine (by rfl) _
    | builds call place b ha hb hevent hnext =>
      rw [hnext]
      exact h.of_engine (monitor_stepAt_of_down h.down b place) _
    | asks q ha hevent hnext =>
      rw [hnext]
      refine ⟨h.down, ?_⟩
      intro asker i hplace hi
      rw [List.getElem?_append] at hi
      split at hi
      · exact h.plain asker i hplace hi
      · have hnew := List.mem_singleton.mp (List.mem_of_getElem? hi)
        rw [Inquiry.Plain, opened_of_served hnew]
        trivial
    | looks asker q r hasker hr hevent hnext =>
      rw [hnext]
      refine ⟨h.down, ?_⟩
      intro asker' i hplace hi
      rw [List.getElem?_set] at hi
      split at hi
      · split at hi
        · rw [Inquiry.Plain, opened_of_served (Option.some.inj hi).symm]
          trivial
        · simp at hi
      · exact h.plain asker' i hplace hi
    | answers asker i ha hasker hevent hnext =>
      have hkept : ∀ entry ∈ s.engine.results.entries, entry.1.vectors = false →
          ∀ r ∈ entry.2, r.backend = .lexical := by
        intro entry hentry hwords r hr
        obtain ⟨i', -, -, hbelongs⟩ := hsound.remembered entry hentry
        exact (hbelongs r hr).2 hwords
      rw [hnext]
      refine ⟨?_, ?_⟩
      · rw [Inquiry.step]
        dsimp only
        rw [monitor_advance_of_down h.down]
        exact h.down
      · intro asker' i' hplace hi'
        rw [List.getElem?_set] at hi'
        split at hi'
        · rename_i hsame
          subst hsame
          split at hi'
          · rw [← Asker.served.inj (Option.some.inj hi')]
            exact (h.plain asker i hplace hasker).step h.down hkept
          · simp at hi'
        · exact h.plain asker' i' hplace hi'
    | edits disk ha hevent hnext =>
      rw [hnext]
      exact h.of_engine (by rfl) s.builds

end PlainFrom

theorem plainFrom_course {e : Engine σ} (hholder : e.holder = {})
    (hresults : e.results = Lru.empty resultRoom) {past : List (Happening σ)}
    (hdown : (course e past).engine.monitor.available = false) (later : List (Happening σ)) :
    PlainFrom (course e past).askers.length (course e (later ++ past)) := by
  induction later with
  | nil =>
    refine ⟨hdown, ?_⟩
    intro asker i hplace hi
    rw [List.nil_append, List.getElem?_eq_none hplace] at hi
    exact absurd hi (by simp)
  | cons next later ih => exact ih.happen (sound_course hholder hresults (later ++ past)) next

end Session

/-! ## What questions are given -/

/-- Builds, questions and explanations in any order, with what is remembered forgotten and the store
failing at any time. A question is given chunks of its own generation, a question that is put when the
store has been given up is given nothing that was found by vectors, and no more is remembered than
there is room for. -/
theorem results_of_own_generation {e : Engine σ} (hholder : e.holder = {})
    (hresults : e.results = Lru.empty resultRoom) (past : List (Happening σ)) :
    (∀ i results, .served i ∈ (Session.course e past).askers → i.ending? = some (.ok results) →
      ∀ r ∈ results, r.chunk ∈ i.generation.chunks) ∧
    ((Session.course e past).engine.monitor.available = false →
      ∀ later asker i results, (Session.course e past).askers.length ≤ asker →
        (Session.course e (later ++ past)).askers[asker]? = some (.served i) →
          i.ending? = some (.ok results) → ∀ r ∈ results, r.backend = .lexical) ∧
    (Session.course e past).engine.results.entries.length ≤ 64 := by
  have hsound := Session.sound_course hholder hresults past
  refine ⟨?_, ?_, ?_⟩
  · intro i results hi hended
    have hfits := hsound.fits i hi
    rw [Inquiry.Fits, Inquiry.ending?_eq_some.mp hended] at hfits
    exact hfits
  · intro hdown later asker i results hplace hi hended
    have hplain := (Session.plainFrom_course hholder hresults hdown later).plain asker i hplace hi
    rw [Inquiry.Plain, Inquiry.ending?_eq_some.mp hended] at hplain
    exact hplain
  · have hfits := (Session.course e past).engine.results.fits
    rw [hsound.room] at hfits
    exact hfits

/-- One import indexed, and found by its vector. -/
def foundByVector : List (Happening Unit) :=
  (List.replicate 5 (Action.turn 0) ++ .ask aboutImport :: Session.indexing 0 11).map .act

/-- After that searches fail, and the next question has found it out. -/
def storeLost : List (Happening Unit) :=
  let database := (Session.course Session.oneImport foundByVector).engine.database
  (List.replicate 6 (Action.turn 1) ++ [Action.ask { aboutImport with limit := 2 }]).map .act ++
    .outside { database with failures := [(.search, "gone")] } () :: foundByVector

/-- The first question once more. -/
def askedAgain : List (Happening Unit) :=
  (List.replicate 4 (Action.turn 2) ++ [Action.ask aboutImport]).map .act

/-- The results of a question that has ended well. -/
def Asker.results? : Asker → Option (List Result)
  | .served i => i.ending?.bind (·.toOption)
  | _ => none

theorem Asker.exists_of_results? {asker : Asker} {results : List Result}
    (h : asker.results? = some results) :
    ∃ i, asker = .served i ∧ i.ending? = some (.ok results) := by
  cases asker with
  | served i =>
    obtain ⟨result, hended, hresult⟩ := Option.bind_eq_some_iff.mp h
    rw [eq_ok_of_toOption hresult] at hended
    exact ⟨i, rfl, hended⟩
  | _ => exact absurd h (by simp [Asker.results?])

/-- How the results of all questions were found. -/
def Session.backends (s : Session σ) : List (Option (List Backend)) :=
  s.askers.map fun asker => asker.results?.map fun results => results.map (·.backend)

/-- A question that was answered by vectors, and is remembered so, is answered by words when the
store has been given up. -/
theorem results_of_own_generation_storeLost :
    (Session.course Session.oneImport storeLost).backends = [some [.vector], some [.lexical]] ∧
      (Session.course Session.oneImport storeLost).engine.monitor.available = false ∧
      ∃ i r,
        (Session.course Session.oneImport (askedAgain ++ storeLost)).askers[2]? = some (.served i) ∧
        i.ending? = some (.ok [r]) ∧ r.chunk ∈ i.generation.chunks ∧ r.backend = .lexical ∧
        (Session.course Session.oneImport (askedAgain ++ storeLost)).engine.results.entries.length ≤
          64 := by
  have hlost : (Session.course Session.oneImport storeLost).backends =
      [some [.vector], some [.lexical]] := by
    decide +kernel
  have hdown : (Session.course Session.oneImport storeLost).engine.monitor.available = false := by
    decide +kernel
  have hplaces : (Session.course Session.oneImport storeLost).askers.length ≤ 2 := by
    decide +kernel
  have hagain : (((Session.course Session.oneImport (askedAgain ++ storeLost)).askers[2]?.bind
      Asker.results?).map List.length) = some 1 := by
    decide +kernel
  obtain ⟨results, hresults, hone⟩ := Option.map_eq_some_iff.mp hagain
  obtain ⟨asker, hasker, hfound⟩ := Option.bind_eq_some_iff.mp hresults
  obtain ⟨i, rfl, hended⟩ := Asker.exists_of_results? hfound
  obtain ⟨r, rfl⟩ := List.length_eq_one_iff.mp hone
  obtain ⟨hchunks, -, hroom⟩ := results_of_own_generation (e := Session.oneImport) rfl rfl
    (askedAgain ++ storeLost)
  obtain ⟨-, hplain, -⟩ := results_of_own_generation (e := Session.oneImport) rfl rfl storeLost
  exact ⟨hlost, hdown, i, r, hasker, hended,
    hchunks i [r] (List.mem_of_getElem? hasker) hended r (List.mem_singleton_self r),
    hplain hdown askedAgain 2 i [r] hplaces hasker hended r (List.mem_singleton_self r), hroom⟩

end CodeSearch.Engine

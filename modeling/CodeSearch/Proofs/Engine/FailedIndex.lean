import CodeSearch.Engine.Explanation
import CodeSearch.Proofs.Engine.Tables
import CodeSearch.Proofs.Engine.WholeCalls
import CodeSearch.Proofs.Engine.WordAnswers

/-!
Indexing that fails changes nothing that readers see.

A build counts as under way from its number to its end, and until it publishes it touches neither the
generations nor the tables: a table that cannot be made is not there. So when something breaks on
the way, whichever part of the build it is in and whatever is asked and changed meanwhile, all that
is left of it is its number. A directory that is refused has not even that.
-/
set_option autoImplicit false

namespace CodeSearch.Engine

open CodeSearch.Index (Generation Holder NotIndexed)
open CodeSearch.Search (Query Result)

variable {σ : Type}

/-! ## What readers see of an engine -/

/-- The same generations and tables, with so many builds more under way. -/
structure SameIndex (more : Int) (e e' : Engine σ) : Prop where
  current : e'.holder.current = e.holder.current
  previous : e'.holder.previous = e.holder.previous
  underWay : e'.holder.underWay = e.holder.underWay + more
  tables : e'.database.tables = e.database.tables
  settings : e'.settings = e.settings

namespace SameIndex

variable {e e' e'' : Engine σ}

theorem refl (e : Engine σ) : SameIndex 0 e e :=
  ⟨rfl, rfl, (Int.add_zero _).symm, rfl, rfl⟩

theorem trans {m n : Int} (h : SameIndex m e e') (h' : SameIndex n e' e'') :
    SameIndex (m + n) e e'' where
  current := h'.current.trans h.current
  previous := h'.previous.trans h.previous
  underWay := by rw [h'.underWay, h.underWay, Int.add_assoc]
  tables := h'.tables.trans h.tables
  settings := h'.settings.trans h.settings

theorem state (h : SameIndex 0 e e') : e'.holder.state = e.holder.state := by
  unfold Holder.state
  rw [h.current, h.underWay, Int.add_zero]

theorem ready (h : SameIndex 0 e e') : e'.ready = e.ready := by
  unfold Engine.ready Holder.await Holder.arrive Holder.outcome
  rw [h.current, h.underWay, h.settings, Int.add_zero]

end SameIndex

/-- The same index, and all that is read off it: its state, the generation from which questions are
answered, and what is said of the code as a whole. -/
structure SameForReaders (e e' : Engine σ) : Prop where
  index : SameIndex 0 e e'
  state : e'.holder.state = e.holder.state
  ask : ∀ q, e'.ask q = e.ask q
  answered : ∀ interrupt q g results, (e'.answered interrupt q).1 = .ok (g, results) →
    e.holder.current = some g
  patterns : e'.patterns = e.patterns
  dependencyGraph : e'.dependencyGraph = e.dependencyGraph
  embeddingReport : e'.embeddingReport = e.embeddingReport
  findSymbol : ∀ name kind, e'.findSymbol name kind = e.findSymbol name kind

/-- An answer is given from the generation that is current. -/
theorem current_of_answered {interrupt : Moment → Engine σ → Engine σ} {e : Engine σ} {q : Query}
    {g : Generation} {results : List Result}
    (h : (e.answered interrupt q).1 = .ok (g, results)) : e.holder.current = some g := by
  unfold Engine.answered at h
  split at h
  · simp at h
  · rename_i i hasked
    obtain ⟨-, current, hready, rfl⟩ := ask_eq_ok_iff.mp hasked
    split at h
    · obtain ⟨rfl, -⟩ := Prod.mk.inj (Except.ok.inj h)
      exact current_of_ready hready
    · simp at h

theorem SameIndex.forReaders {e e' : Engine σ} (h : SameIndex 0 e e') : SameForReaders e e' where
  index := h
  state := h.state
  ask q := by unfold Engine.ask; rw [h.ready]
  answered interrupt q g results hanswered := h.current.symm.trans (current_of_answered hanswered)
  patterns := by unfold Engine.patterns; rw [h.ready]
  dependencyGraph := by unfold Engine.dependencyGraph; rw [h.ready]
  embeddingReport := by unfold Engine.embeddingReport; rw [h.ready]
  findSymbol name kind := by unfold Engine.findSymbol; rw [h.ready]

/-! ## Builds that have not published -/

/-- How much a build adds to what is under way, as long as it cannot have published anything. -/
def Stage.weight? : Stage → Option Int
  | .publishing .. | .retiring .. | .ended (.ok _) => none
  | .ended (.error _) => some 0
  | _ => some 1

/-- A build that has not published has not done so before either, and a step of it takes away what it
has added to what is under way, if it ends it. Nothing else of the index is changed. -/
theorem weight_stepAt {e : Engine σ} {b : Build σ} {place : Nat} {more : Int}
    (h : (b.stepAt e place).1.stage.weight? = some more) :
    ∃ less, b.stage.weight? = some less ∧ SameIndex (more - less) e (b.stepAt e place).2 := by
  -- as long as it goes on it adds one
  have hon : ∀ {e' : Engine σ}, more = 1 → SameIndex 0 e e' → SameIndex (more - 1) e e' := by
    rintro e' rfl hsame
    exact hsame
  have hone : ∀ {n : Int}, some 1 = some n → n = 1 := fun heq => (Option.some.inj heq).symm
  cases stepAt_move e b place with
  | idle hquiet hnext =>
    rw [hnext] at h ⊢
    refine ⟨more, h, ?_⟩
    rw [Int.sub_self]
    exact .refl e
  | walked files hstage hwalk hfiles hnext =>
    rw [hnext] at h ⊢
    exact ⟨1, by rw [hstage]; rfl, hon (hone h) ⟨rfl, rfl, (Int.add_zero _).symm, rfl, rfl⟩⟩
  | stopped obstacle hstage hwalk hnext =>
    rw [hnext] at h ⊢
    exact ⟨1, by rw [hstage]; rfl, hon (hone h) ⟨rfl, rfl, (Int.add_zero _).symm, rfl, rfl⟩⟩
  | read readings p r hstage hplace hread hnext =>
    obtain ⟨reported, notices, hengine⟩ := readFile_eq_with e b.root p
    rw [hnext] at h ⊢
    rw [hengine]
    exact ⟨1, by rw [hstage]; rfl, hon (hone h) ⟨rfl, rfl, (Int.add_zero _).symm, rfl, rfl⟩⟩
  | unread readings p fault hstage hplace hread hnext =>
    obtain ⟨reported, notices, hengine⟩ := readFile_eq_with e b.root p
    rw [hnext] at h ⊢
    rw [hengine]
    exact ⟨1, by rw [hstage]; rfl, hon (hone h) ⟨rfl, rfl, (Int.add_zero _).symm, rfl, rfl⟩⟩
  | overtaken extract embedded hstage hstale hnext =>
    rw [hnext] at h ⊢
    refine ⟨1, ?_, hon (hone h) (.refl e)⟩
    rcases hstage with ⟨⟨readings, hstage⟩, -⟩ | ⟨chunks, hstage⟩ <;> rw [hstage] <;> rfl
  | readAll readings hstage hdone hnext =>
    rw [hnext] at h ⊢
    exact ⟨1, by rw [hstage]; rfl, hon (hone h) (.refl e)⟩
  | embed extract slots slot embedder hstage hplace hembedder hnext =>
    rw [hnext] at h ⊢
    exact ⟨1, by rw [hstage]; rfl, hon (hone h) ⟨rfl, rfl, (Int.add_zero _).symm, rfl, rfl⟩⟩
  | crashed extract slots fault hstage hnext =>
    rw [hnext] at h ⊢
    exact ⟨1, by rw [hstage]; rfl, hon (hone h) (.refl e)⟩
  | gathered extract slots chunks embedded hstage hchunks hnext =>
    rw [hnext] at h ⊢
    exact ⟨1, by rw [hstage]; rfl, hon (hone h) (.refl e)⟩
  | made extract chunks embedded after hstage hafter hnext =>
    rw [hnext] at h ⊢
    rcases hafter with ⟨rfl, -⟩ | rfl
    · exact ⟨1, by rw [hstage]; rfl, hon (hone h) (.refl e)⟩
    · exact absurd h (by simp [Stage.weight?])
  | store g embedded hstage hnext =>
    -- a table that is made leads to a publication, and so does a store that is given up
    rw [hnext] at h ⊢
    unfold Build.store at h ⊢
    split at h
    · exact absurd h (by simp [Stage.weight?])
    · exact absurd h (by simp [Stage.weight?])
    · exact ⟨1, by rw [hstage]; rfl, hon (hone h) (.refl e)⟩
  | publish g embedded hstage hnext =>
    rw [hnext, publish_stage] at h
    exact absurd h (by simp [Stage.weight?])
  | abort result hstage hnext =>
    rw [hnext] at h ⊢
    refine ⟨1, by rw [hstage]; rfl, ?_⟩
    cases result with
    | ok summary => exact absurd h (by simp [Stage.weight?])
    | error fault =>
      obtain rfl : 0 = more := Option.some.inj h
      exact ⟨rfl, rfl, rfl, rfl, rfl⟩
  | retire g old summary hstage hnext =>
    rw [hnext] at h
    exact absurd h (by simp [Stage.weight?])
  | retired summary hstage hnext =>
    rw [hnext] at h
    exact absurd h (by simp [Stage.weight?])

/-! ## What breaks on the way -/

/-- What a build ends with instead of a summary. -/
def Stage.fault? : Stage → Option IndexFault
  | .aborting (.error fault) | .ended (.error fault) => some fault
  | _ => none

theorem readFile_error {e : Engine σ} {root p : Path} {fault : IndexFault}
    (h : (e.readFile root p).1 = .error fault) : ∃ f, fault = .broken f := by
  unfold readFile at h
  dsimp only at h
  split at h
  · rename_i f _
    exact ⟨f, (Except.error.inj h).symm⟩
  · simp at h
  · simp at h

/-- Whatever a build ends with instead of a summary has broken on its way. -/
theorem broken_stepAt {e : Engine σ} {b : Build σ} {place : Nat} {fault : IndexFault}
    (hbefore : ∀ fault, b.stage.fault? = some fault → ∃ f, fault = .broken f)
    (h : (b.stepAt e place).1.stage.fault? = some fault) : ∃ f, fault = .broken f := by
  cases stepAt_move e b place with
  | idle hquiet hnext => rw [hnext] at h; exact hbefore fault h
  | walked files hstage hwalk hfiles hnext => rw [hnext] at h; simp [Stage.fault?] at h
  | stopped obstacle hstage hwalk hnext =>
    rw [hnext] at h
    exact ⟨_, (Option.some.inj h).symm⟩
  | read readings p r hstage hplace hread hnext => rw [hnext] at h; simp [Stage.fault?] at h
  | unread readings p found hstage hplace hread hnext =>
    rw [hnext] at h
    obtain rfl : found = fault := Option.some.inj h
    exact readFile_error hread
  | overtaken extract embedded hstage hstale hnext => rw [hnext] at h; simp [Stage.fault?] at h
  | readAll readings hstage hdone hnext => rw [hnext] at h; simp [Stage.fault?] at h
  | embed extract slots slot embedder hstage hplace hembedder hnext =>
    rw [hnext] at h
    simp [Stage.fault?] at h
  | crashed extract slots f hstage hnext =>
    rw [hnext] at h
    exact ⟨f, (Option.some.inj h).symm⟩
  | gathered extract slots chunks embedded hstage hchunks hnext =>
    rw [hnext] at h
    simp [Stage.fault?] at h
  | made extract chunks embedded after hstage hafter hnext =>
    rw [hnext] at h
    rcases hafter with ⟨rfl, -⟩ | rfl <;> simp [Stage.fault?] at h
  | store g embedded hstage hnext =>
    rw [hnext] at h
    unfold Build.store at h
    split at h
    · simp [Stage.fault?] at h
    · simp [Stage.fault?] at h
    · rename_i f _
      exact ⟨f, (Option.some.inj h).symm⟩
  | publish g embedded hstage hnext => rw [hnext, publish_stage] at h; simp [Stage.fault?] at h
  | abort result hstage hnext =>
    rw [hnext] at h
    cases result with
    | ok summary => simp [Stage.fault?] at h
    | error found => exact hbefore fault (by rw [hstage]; exact h)
  | retire g old summary hstage hnext => rw [hnext] at h; simp [Stage.fault?] at h
  | retired summary hstage hnext => rw [hnext] at h; simp [Stage.fault?] at h

/-- A build that has begun does not refuse its directory any more. -/
theorem broken_of_complete {interrupt : Moment → Engine σ → Engine σ} {e begun : Engine σ}
    {path : String} {b : Build σ} (hbegin : e.begin path = .ok (b, begun)) {fault : IndexFault}
    (h : (b.complete interrupt begun).1 = .error fault) : ∃ f, fault = .broken f := by
  obtain ⟨b', hended, hbroken⟩ := Build.complete_keeps interrupt
    (P := fun _ b => ∀ fault, b.stage.fault? = some fault → ∃ f, fault = .broken f)
    (fun _ _ _ h => h) (fun e b h _ fault hnext => broken_stepAt h hnext) begun b
    (by rw [Session.stage_begin hbegin]; simp [Stage.fault?])
  refine hbroken fault ?_
  rw [hended, h]
  rfl

/-! ## Sessions with one build -/

namespace Session

variable {e : Engine σ} {s : Session σ}

/-- A session of one build that has not changed the index, unless it may have published. All questions
that have been given an index have been given that one. -/
structure Harmless (e : Engine σ) (s : Session σ) (b : Build σ) : Prop where
  alone : s.builds = [b]
  keeps : ∀ more, b.stage.weight? = some more → SameIndex more e s.engine
  served : b.stage.weight?.isSome = true → ∀ i, .served i ∈ s.askers →
    e.holder.current = some i.generation

/-- A question that is put or looks again is given the current generation, if any. -/
theorem Harmless.asked {b : Build σ} (h : Harmless e s b) {askers : List Asker} {q : Query}
    {r : Holder.Reader}
    (hr : ∀ g, r = .done (.ok g) → s.engine.holder.current = some g)
    (hmem : ∀ asker ∈ askers, asker ∈ s.askers ∨ asker = Asker.ofReader q r) :
    Harmless e { s with askers := askers } b where
  alone := h.alone
  keeps := h.keeps
  served hsome i hi := by
    rcases hmem _ hi with hold | hnew
    · exact h.served hsome i hold
    · obtain ⟨more, hmore⟩ := Option.isSome_iff_exists.mp hsome
      rw [← (h.keeps more hmore).current]
      exact hr _ (Asker.reader_of_served hnew)

/-- Whatever is done in the session, as long as no other build begins. -/
theorem Harmless.step {b : Build σ} (h : Harmless e s b) {a : Action}
    (hother : ∀ path, a ≠ .index path) : ∃ b', Harmless e (s.step a) b' := by
  cases step_move s a with
  | idle hevent hnext => rw [hnext]; exact ⟨b, h⟩
  | begins path new engine ha hbegin hevent hnext => exact absurd ha (hother path)
  | builds call place b' ha hb hevent hnext =>
    rw [h.alone] at hb
    obtain ⟨hlt, hsame⟩ := List.getElem?_eq_some_iff.mp hb
    -- there is one build, so it is the one that takes the step
    have hcall : call = 0 := by
      rw [List.length_singleton] at hlt
      omega
    subst hcall
    obtain rfl : b = b' := hsame
    rw [hnext]
    refine ⟨(b.stepAt s.engine place).1, ?_, ?_, ?_⟩
    · rw [h.alone]; rfl
    · intro more hmore
      obtain ⟨less, hless, hkept⟩ := weight_stepAt hmore
      have htotal := (h.keeps less hless).trans hkept
      rwa [show less + (more - less) = more by omega] at htotal
    · intro hsome
      obtain ⟨more, hmore⟩ := Option.isSome_iff_exists.mp hsome
      obtain ⟨less, hless, -⟩ := weight_stepAt hmore
      exact h.served (by rw [hless]; rfl)
  | asks q ha hevent hnext =>
    rw [hnext]
    refine ⟨b, h.asked (q := q) (r := s.engine.holder.arrive) ?_ ?_⟩
    · intro g hg
      exact (Holder.arrive_eq_ok.mp hg).2
    · intro asker hasker
      simpa using hasker
  | looks asker q r hasker hr hevent hnext =>
    rw [hnext]
    refine ⟨b, h.asked (q := q) (r := r) ?_ ?_⟩
    · rintro g rfl
      exact (serves_of_looked hr).2
    · intro asker' hasker'
      exact List.mem_or_eq_of_mem_set hasker'
  | answers asker i ha hasker hevent hnext =>
    obtain ⟨results, monitor, database, world, notices, hengine⟩ := advance_eq_with s.engine i
    -- a question may change the monitor and what is remembered, but no generation and no table
    have hsame : SameIndex 0 s.engine (i.step s.engine).2 := by
      refine ⟨?_, ?_, ?_, (advance_tables s.engine i).2, ?_⟩
      · rw [Inquiry.step, hengine]
      · rw [Inquiry.step, hengine]
      · rw [Inquiry.step, hengine, Int.add_zero]
      · rw [Inquiry.step, hengine]
    rw [hnext]
    refine ⟨b, h.alone, ?_, ?_⟩
    · intro more hmore
      have htotal := (h.keeps more hmore).trans hsame
      rwa [Int.add_zero] at htotal
    · intro hsome i' hi'
      rcases List.mem_or_eq_of_mem_set hi' with hold | hnew
      · exact h.served hsome i' hold
      · rw [Asker.served.inj hnew]
        exact h.served hsome i (List.mem_of_getElem? hasker)
  | edits disk ha hevent hnext =>
    rw [hnext]
    refine ⟨b, h.alone, ?_, h.served⟩
    intro more hmore
    obtain ⟨hcurrent, hprevious, hunderWay, htables, hsettings⟩ := h.keeps more hmore
    exact ⟨hcurrent, hprevious, hunderWay, htables, hsettings⟩

theorem builds_eq_nil {past later : List Action} (h : (after e past).builds = [])
    (hother : ∀ path, .index path ∉ later) : (after e (later ++ past)).builds = [] := by
  induction later with
  | nil => exact h
  | cons a later ih =>
    have hnone := ih fun path hpath => hother path (List.mem_cons_of_mem _ hpath)
    refine List.eq_nil_iff_forall_not_mem.mpr fun b hb => ?_
    obtain ⟨call, hcall⟩ := List.mem_iff_getElem?.mp hb
    rcases build_cases hcall with ⟨-, path, engine, rfl, -⟩ | ⟨place, before, -, hbefore, -⟩ |
      ⟨-, hsame⟩
    · exact hother path List.mem_cons_self
    · simp [hnone] at hbefore
    · simp [hnone] at hsame

theorem harmless_after {path : String} {b : Build σ} {begun : Engine σ}
    (hbegin : e.begin path = .ok (b, begun)) {later : List Action}
    (hother : ∀ path', .index path' ∉ later) :
    ∃ b', Harmless e (after e (later ++ [.index path])) b' := by
  induction later with
  | nil =>
    obtain ⟨-, -, hbegun⟩ := begin_ok hbegin
    rw [List.nil_append, after, after, step, hbegin]
    refine ⟨b, rfl, ?_, ?_⟩
    · intro more hmore
      rw [stage_begin hbegin] at hmore
      obtain rfl : 1 = more := Option.some.inj hmore
      rw [hbegun]
      exact ⟨rfl, rfl, rfl, rfl, rfl⟩
    · intro hsome i hi
      exact absurd hi List.not_mem_nil
  | cons a later ih =>
    obtain ⟨b', h⟩ := ih fun path' hpath' => hother path' (List.mem_cons_of_mem _ hpath')
    refine h.step ?_
    rintro path' rfl
    exact hother path' List.mem_cons_self

end Session

/-! ## Indexing that fails -/

/-- A build that has broken has changed nothing that readers see. -/
theorem Session.forReaders_of_broken {e : Engine σ} {path : String} {later : List Action}
    (hother : ∀ path', .index path' ∉ later) {b : Build σ} {fault : IndexFault}
    (hb : b ∈ (after e (later ++ [.index path])).builds) (hended : b.stage = .ended (.error fault)) :
    SameForReaders e (after e (later ++ [.index path])).engine ∧
      ∀ i, .served i ∈ (after e (later ++ [.index path])).askers →
        e.holder.current = some i.generation := by
  cases hbegin : e.begin path with
  | error refusal =>
    -- a build that has not begun cannot break
    have hnone : (after e [.index path]).builds = [] := by
      rw [after, after, step, hbegin]
    rw [builds_eq_nil hnone hother] at hb
    exact absurd hb List.not_mem_nil
  | ok started =>
    obtain ⟨b', halone, hkeeps, hserved⟩ := harmless_after hbegin hother
    rw [halone, List.mem_singleton] at hb
    subst hb
    have hweight : b.stage.weight? = some 0 := by rw [hended]; rfl
    exact ⟨(hkeeps 0 hweight).forReaders, hserved (by rw [hweight]; rfl)⟩

/-- However indexing fails, readers see nothing of it. A directory that is refused leaves the engine as
it was. When something breaks on the way, be it in a call that is carried out alone or in one whose
workers take turns with questions, the generations, what is under way and the tables are those
before the call, and questions are answered from the same generation as before. -/
theorem unseen_of_failed_index (e : Engine σ) (path : String) :
    (∀ interrupt fault after, e.index interrupt path = (.error fault, after) →
      (∀ f, fault ≠ .broken f) → after = e) ∧
    (∀ fault after, e.index undisturbed path = (.error fault, after) → SameForReaders e after) ∧
    ∀ later : List Action, (∀ path', .index path' ∉ later) → ∀ b fault,
      b ∈ (Session.after e (later ++ [.index path])).builds →
        b.ending? = some (.error fault) →
          SameForReaders e (Session.after e (later ++ [.index path])).engine ∧
            ∀ i, .served i ∈ (Session.after e (later ++ [.index path])).askers →
              e.holder.current = some i.generation := by
  refine ⟨?_, ?_, ?_⟩
  · intro interrupt fault after hindex hrefused
    unfold Engine.index at hindex
    split at hindex
    · rename_i b begun hbegin
      obtain ⟨f, hf⟩ := broken_of_complete hbegin (congrArg Prod.fst hindex)
      exact absurd hf (hrefused f)
    · exact (Prod.mk.inj hindex).2.symm
  · intro fault after hindex
    unfold Engine.index at hindex
    split at hindex
    · rename_i b begun hbegin
      -- the call is a session in which only its own steps are taken
      have hbegun : Session.after e [.index path] = { engine := begun, builds := [b] } := by
        rw [Session.after, Session.after, Session.step, hbegin]
        rfl
      have hthere : (Session.after e [.index path]).builds[0]? = some b := by rw [hbegun]; rfl
      obtain ⟨places, b', hended, hengine, hbuilds⟩ := Session.exists_places_of_complete hthere
      rw [hbegun] at hended hengine hbuilds
      rw [hindex] at hended hengine
      have hmem : b' ∈ (Session.after e (places.map (.build 0) ++ [.index path])).builds := by
        rw [hbuilds]
        exact List.mem_cons_self
      rw [← show _ = after from hengine]
      exact (Session.forReaders_of_broken (by simp) hmem hended).1
    · rw [← (Prod.mk.inj hindex).2]
      exact (SameIndex.refl e).forReaders
  · intro later hother b fault hb hended
    exact Session.forReaders_of_broken hother hb (Build.ending?_eq_some.mp hended)

/-- An embedder that gives a vector for the first text and breaks at the next one. -/
def breaking : Embedding.Embedder Nat where
  key := "breaking"
  dimension := 1
  embed _ calls :=
    (if calls = 0 then .vector [1.0] else .crash (.foreign "RuntimeError" "not there"), calls + 1)

/-- An engine that has indexed one import with that embedder, after which other files took its place.
-/
def indexedBreaking (changed : Files.Disk) : Engine Nat :=
  let e := Session.oneImport
  (Session.after (Engine.new e.settings e.parsers (some breaking) none true e.session e.homeOf
    e.database e.disk 0) (.edit changed :: Session.indexing 0 11)).engine

/-- Another import, for which the embedder is asked again. -/
def otherImport : Files.Disk :=
  (Session.importing "import 'y';" [] none).disk

/-- A directory that can be listed, though of no entry can it be told what it is. -/
def unsearchable : Files.Disk :=
  ⟨⟨1, []⟩, .directory [("a.js", .file [])] { search := false }⟩

/-- The one build of a session, when it has ended without a summary. -/
theorem exists_error_of_endings {e : Engine σ} {past : List Action}
    (h : (Session.after e past).builds.map (fun b => b.ending?.map (·.toBool)) = [some false]) :
    ∃ b ∈ (Session.after e past).builds, ∃ fault, b.ending? = some (.error fault) := by
  obtain ⟨b, rest, hall, hending, -⟩ := List.map_eq_cons_iff.mp h
  obtain ⟨result, hended, hbroken⟩ := Option.map_eq_some_iff.mp hending
  cases result with
  | error fault => exact ⟨b, by rw [hall]; exact List.mem_cons_self, fault, hended⟩
  | ok summary => simp [Except.toBool] at hbroken

/-- The second build breaks in the embedder, or is stopped in its walk. The first generation and its
table are still there. -/
theorem unseen_of_failed_index_breaking :
    ∀ second ∈ [(otherImport, 7), (unsearchable, 1)],
      let e := indexedBreaking second.1
      let s := Session.after e (Session.indexing 0 second.2)
      (∃ b ∈ s.builds, ∃ fault, b.ending? = some (.error fault)) ∧ SameForReaders e s.engine ∧
        e.holder.current.map (·.number) = some 1 ∧ e.holder.state = .ready ∧
          e.database.tables.length = 1 ∧ s.engine.holder.latest = 2 := by
  -- the builds are carried out up to what they end with
  have hbuilds : ∀ second ∈ [(otherImport, 7), (unsearchable, 1)],
      (Session.after (indexedBreaking second.1) (Session.indexing 0 second.2)).builds.map
        (fun b => b.ending?.map (·.toBool)) = [some false] := by
    decide +kernel
  have hholder : ∀ second ∈ [(otherImport, 7), (unsearchable, 1)],
      let e := indexedBreaking second.1
      e.holder.current.map (·.number) = some 1 ∧ e.holder.state = .ready ∧
        e.database.tables.length = 1 ∧
          (Session.after e (Session.indexing 0 second.2)).engine.holder.latest = 2 := by
    decide +kernel
  intro second hsecond
  have hother : ∀ path, .index path ∉ List.replicate (second.2 + 1) (Action.build 0 0) := by
    intro path hpath
    exact absurd (List.eq_of_mem_replicate hpath) (by simp)
  obtain ⟨b, hmem, fault, hended⟩ := exists_error_of_endings (hbuilds second hsecond)
  obtain ⟨-, -, hkept⟩ := unseen_of_failed_index (indexedBreaking second.1) "/"
  exact ⟨⟨b, hmem, fault, hended⟩, (hkept _ hother b fault hmem hended).1, hholder second hsecond⟩

end CodeSearch.Engine

import CodeSearch.Proofs.Engine.Indexing
import CodeSearch.Proofs.Engine.Provenance
import CodeSearch.Proofs.Engine.WordAnswers

/-!
Calls one after the other, each carried out to its end.

Between two calls an engine is at rest (`Resting`): no build is under way, the generations that it
keeps have numbers that it has given out, and what it remembers of answers by words is what the words
of its current generation answer. Every call leaves it so (`Resting.perform`). Once the store is given
up a question is looked up among these answers only, and no call writes to the store or searches it
(`requests_of_down`).
-/
set_option autoImplicit false

namespace CodeSearch.Engine

open CodeSearch.Index (Generation Holder)
open CodeSearch.Search (Query Result Match)

variable {σ : Type}

/-! ## Calls -/

/-- A call, or what changes outside between two calls. -/
inductive Call (σ : Type) where
  | index (path : String)
  | search (q : Query)
  /-- The explainer is asked about what was found. -/
  | explain (found prompt failing failed : String)
  /-- What is remembered is forgotten. -/
  | forget
  | edit (disk : Files.Disk)
  /-- The database or the world outside changes. -/
  | outside (database : Vector.Database) (world : σ)

/-- Whether a call has to do with the trees that are indexed. -/
def Call.isOfTrees : Call σ → Bool
  | .index _ | .edit _ => true
  | _ => false

/-- The engine after a call. -/
def perform (e : Engine σ) : Call σ → Engine σ
  | .index path => (e.index undisturbed path).2
  | .search q => (e.answered undisturbed q).2
  | .explain found prompt failing failed => (e.explained found prompt failing failed).2
  | .forget => e.clearResults
  | .edit disk => { e with disk := disk }
  | .outside database world => { e with database := database, world := world }

/-- The engine after some calls, the latest one first. -/
def afterCalls (e : Engine σ) : List (Call σ) → Engine σ
  | [] => e
  | call :: past => (e.afterCalls past).perform call

/-- The engine after some calls, if each build among them ends within so many steps. -/
def afterCallsWithin (n : Nat) (e : Engine σ) : List (Call σ) → Option (Engine σ)
  | [] => some e
  | call :: past => (e.afterCallsWithin n past).bind fun before =>
    match call with
    | .index path =>
      match before.begin path with
      | .ok (b, begun) =>
        (b.steps begun n).1.ending?.map fun _ => (b.steps begun n).2
      | .error _ => some before
    | call => some (before.perform call)

theorem afterCalls_of_within {n : Nat} {e after : Engine σ} {calls : List (Call σ)}
    (h : e.afterCallsWithin n calls = some after) : e.afterCalls calls = after := by
  induction calls generalizing after with
  | nil => exact Option.some.inj h
  | cons call past ih =>
    obtain ⟨before, hbefore, hcall⟩ := Option.bind_eq_some_iff.mp h
    rw [afterCalls, ih hbefore]
    cases call with
    | index path =>
      unfold perform index
      dsimp only at hcall ⊢
      cases hbegin : before.begin path with
      | error fault =>
        rw [hbegin] at hcall
        exact Option.some.inj hcall
      | ok started =>
        obtain ⟨b, begun⟩ := started
        rw [hbegin] at hcall
        obtain ⟨result, hended, rfl⟩ := Option.map_eq_some_iff.mp hcall
        dsimp only
        rw [Build.complete_of_steps n hended]
    | _ => exact Option.some.inj hcall

/-- What a call sends to the store of vectors. -/
def requests (e : Engine σ) : Call σ → List Request
  | .index path =>
    match e.begin path with
    | .ok (b, begun) => b.requests begun
    | .error _ => []
  | .search q =>
    match e.ask q with
    | .ok i => i.requests e
    | .error _ => []
  | _ => []

/-! ## A question that alone takes steps -/

/-- How far a question has come that alone has taken steps since it was put. It goes to the store only
if that served when it was put, and keeps to the words otherwise. -/
def Inquiry.Stands (asked e : Engine σ) (i : Inquiry) : Prop :=
  match i.progress with
  | .opened => e.monitor = asked.monitor
  | .choosing key | .byWords key => key = asked.resultKey i.generation i.query
  | .embedding key _ | .searching key _ _ =>
    key = asked.resultKey i.generation i.query ∧ asked.monitor.available = true
  | .found key found backend =>
    key = asked.resultKey i.generation i.query ∧
      (asked.monitor.available = false → backend = .lexical ∧ found = i.matchWords)
  | .ended _ => True

/-- What a question puts among what is remembered: it is under the key of the question, and is what the
words answer if the store was given up when it was put. -/
def PutBy (asked : Engine σ) (g : Generation) (q : Query) (entry : ResultKey × List Result) : Prop :=
  entry.1 = asked.resultKey g q ∧ (asked.monitor.available = false → ByWords g q entry.2)

/-- A question that alone has taken steps since it was put. -/
structure Inquiry.Alone (asked e : Engine σ) (i : Inquiry) : Prop where
  kept : ∃ results monitor database world notices, e =
    { asked with results := results, monitor := monitor, database := database, world := world,
                 notices := notices }
  down : asked.monitor.available = false → e.monitor = asked.monitor
  stands : i.Stands asked e
  remembered : ∀ entry ∈ e.results.entries,
    entry ∈ asked.results.entries ∨ PutBy asked i.generation i.query entry

namespace Inquiry.Alone

variable {asked e : Engine σ} {i : Inquiry}

theorem begin (asked : Engine σ) (g : Generation) (q : Query) :
    (⟨g, q, .opened⟩ : Inquiry).Alone asked asked where
  kept := ⟨asked.results, asked.monitor, asked.database, asked.world, asked.notices, rfl⟩
  down _ := rfl
  stands := rfl
  remembered _ hentry := Or.inl hentry

/-- A store that serves now has served when the question was put. -/
theorem served (h : i.Alone asked e) (hserves : e.monitor.available = true) :
    asked.monitor.available = true := by
  by_contra hdown
  rw [h.down (Bool.eq_false_iff.mpr hdown)] at hserves
  exact hdown hserves

theorem stands_step (h : i.Alone asked e) : (i.step e).1.Stands asked (i.step e).2 := by
  have hstands := h.stands
  unfold Inquiry.Stands at hstands
  cases i.step_move e with
  | forgotten hprogress hget hnext =>
    rw [hprogress] at hstands
    rw [hnext]
    show e.resultKey _ _ = asked.resultKey _ _
    unfold resultKey
    rw [hstands]
  | toStore key index hprogress hvector hserves hnext =>
    rw [hprogress] at hstands
    rw [hnext]
    exact ⟨hstands, h.served hserves⟩
  | toWords key hprogress hnone hnext =>
    rw [hprogress] at hstands
    rw [hnext]
    exact hstands
  | embedded key index vector hprogress hsaid hnext =>
    rw [hprogress] at hstands
    rw [hnext]
    exact hstands
  | refused key index reason hprogress hsaid hnext =>
    rw [hprogress] at hstands
    rw [hnext]
    exact hstands.1
  | searched key index vector found hprogress hquery hnext =>
    rw [hprogress] at hstands
    rw [hnext]
    refine ⟨hstands.1, fun hdown => ?_⟩
    rw [hstands.2] at hdown
    exact absurd hdown (by decide)
  | lost key index vector u hprogress hquery hnext =>
    rw [hprogress] at hstands
    rw [hnext]
    exact hstands.1
  | matched key hprogress hnext =>
    rw [hprogress] at hstands
    rw [hnext]
    exact ⟨hstands, fun _ => ⟨rfl, rfl⟩⟩
  | ended result hprogress hnext => rw [hnext]; exact hstands
  -- the others end the question
  | _ =>
    rename i.step e = _ => hnext
    rw [hnext]
    exact trivial

theorem remembered_step (h : i.Alone asked e) : ∀ entry ∈ (i.step e).2.results.entries,
    entry ∈ asked.results.entries ∨ PutBy asked i.generation i.query entry := by
  cases i.step_move e with
  | remembered results hprogress hget hnext =>
    rw [hnext]
    exact fun entry hentry => h.remembered entry (Lru.mem_of_touch hentry)
  | finished key found backend results hprogress hresults hnext =>
    have hstands := h.stands
    rw [Inquiry.Stands, hprogress] at hstands
    obtain ⟨hkey, hwords⟩ := hstands
    rw [hnext]
    intro entry hentry
    rcases Lru.mem_of_put hentry with rfl | hold
    · refine Or.inr ⟨hkey, fun hdown => ?_⟩
      obtain ⟨rfl, hfound⟩ := hwords hdown
      rw [hfound] at hresults
      exact hresults
    · exact h.remembered entry hold
  -- the other steps leave alone what is remembered
  | _ =>
    rename i.step e = _ => hnext
    rw [hnext]
    exact h.remembered

theorem step (h : i.Alone asked e) : (i.step e).1.Alone asked (i.step e).2 where
  kept := by
    obtain ⟨_, _, _, _, _, rfl⟩ := h.kept
    obtain ⟨results, monitor, database, world, notices, hengine⟩ := advance_eq_with _ i
    exact ⟨results, monitor, database, world, notices, hengine⟩
  down hdown := by
    have hsame := h.down hdown
    exact (monitor_advance_of_down (by rw [hsame, hdown]) i).trans hsame
  stands := h.stands_step
  remembered := h.remembered_step

end Inquiry.Alone

/-! ## Calls that do not index -/

/-- What a call leaves behind that neither indexes nor edits files. What it has put among what is
remembered is the answer to a question to the current generation. -/
structure Besides (e after : Engine σ) : Prop where
  kept : ∃ results monitor database world notices, after =
    { e with results := results, monitor := monitor, database := database, world := world,
             notices := notices }
  down : e.monitor.available = false → after.monitor = e.monitor
  remembered : ∀ entry ∈ after.results.entries, entry ∈ e.results.entries ∨
    ∃ q g, q.objection? = none ∧ e.holder.current = some g ∧ PutBy e g q entry

theorem Besides.holder_eq {e after : Engine σ} (h : Besides e after) : after.holder = e.holder := by
  obtain ⟨_, _, _, _, _, rfl⟩ := h.kept
  rfl

theorem Besides.embedder_eq {e after : Engine σ} (h : Besides e after) :
    after.embedder = e.embedder := by
  obtain ⟨_, _, _, _, _, rfl⟩ := h.kept
  rfl

/-- A question answered with nobody else taking steps. -/
theorem besides_answered (e : Engine σ) (q : Query) : Besides e (e.answered undisturbed q).2 := by
  cases hask : e.ask q with
  | error fault =>
    unfold answered
    rw [hask]
    exact ⟨⟨e.results, e.monitor, e.database, e.world, e.notices, rfl⟩, fun _ => rfl,
      fun _ hentry => Or.inl hentry⟩
  | ok i =>
    rw [(answered_of_ask undisturbed hask).2]
    obtain ⟨hvalid, g, hready, rfl⟩ := ask_eq_ok_iff.mp hask
    obtain ⟨i', -, halone, hg, hq⟩ := Inquiry.complete_keeps undisturbed
      (P := fun e' i' => i'.Alone e e' ∧ i'.generation = g ∧ i'.query = q) (fun _ _ _ h => h)
      (fun e' i' h _ => ⟨h.1.step, h.2⟩) e ⟨g, q, .opened⟩ ⟨.begin e g q, rfl, rfl⟩
    refine ⟨halone.kept, halone.down, ?_⟩
    intro entry hentry
    rcases halone.remembered entry hentry with hold | hnew
    · exact Or.inl hold
    · rw [hg, hq] at hnew
      exact Or.inr ⟨q, g, hvalid, current_of_ready hready, hnew⟩

theorem besides_perform (e : Engine σ) {call : Call σ} (hother : call.isOfTrees = false) :
    Besides e (e.perform call) := by
  cases call with
  | index path => exact absurd hother (by simp [Call.isOfTrees])
  | search q => exact besides_answered e q
  | explain found prompt failing failed =>
    obtain ⟨world, notices, hengine⟩ := explained_eq_with e found prompt failing failed
    show Besides e (e.explained found prompt failing failed).2
    rw [hengine]
    exact ⟨⟨e.results, e.monitor, e.database, world, notices, rfl⟩, fun _ => rfl,
      fun _ hentry => Or.inl hentry⟩
  | forget =>
    exact ⟨⟨_, e.monitor, e.database, e.world, e.notices, rfl⟩, fun _ => rfl,
      fun _ hentry => absurd hentry List.not_mem_nil⟩
  | edit disk => exact absurd hother (by simp [Call.isOfTrees])
  | outside database world =>
    exact ⟨⟨e.results, e.monitor, database, world, e.notices, rfl⟩, fun _ => rfl,
      fun _ hentry => Or.inl hentry⟩

/-! ## Between two calls -/

theorem resultKey_of_monitor {e e' : Engine σ} (h : e'.monitor = e.monitor) (g : Generation)
    (q : Query) : e'.resultKey g q = e.resultKey g q := by
  unfold resultKey
  rw [h]

/-- An entry of what is remembered does not stand in the way of later answers: its generation has been
begun, and if it is under a key of answers by words, then the store is given up, and an entry for the
current generation is what its words answer. -/
structure Recalls (e : Engine σ) (entry : ResultKey × List Result) : Prop where
  begun : entry.1.generation ≤ e.holder.latest
  down : entry.1.vectors = false → e.monitor.available = false
  words : entry.1.vectors = false → ∀ g, e.holder.current = some g →
    entry.1.generation = g.number →
      ∃ q, q.objection? = none ∧ entry.1 = e.resultKey g q ∧ ByWords g q entry.2

/-- That stays so when the store is given up or a build has begun. -/
theorem Recalls.mono {e after : Engine σ} {entry : ResultKey × List Result} (h : Recalls e entry)
    (hdown : e.monitor.available = false → after.monitor = e.monitor)
    (hlatest : e.holder.latest ≤ after.holder.latest)
    (hcurrent : ∀ g, after.holder.current = some g → entry.1.generation = g.number →
      e.holder.current = some g) : Recalls after entry where
  begun := h.begun.trans hlatest
  down hvectors := by rw [hdown (h.down hvectors), h.down hvectors]
  words hvectors g hg hnumber := by
    obtain ⟨q, hvalid, hkey, hby⟩ := h.words hvectors g (hcurrent g hg hnumber) hnumber
    refine ⟨q, hvalid, ?_, hby⟩
    rw [resultKey_of_monitor (hdown (h.down hvectors))]
    exact hkey

/-- An engine between two calls. -/
structure Resting (e : Engine σ) : Prop where
  unbroken : ∀ embedder ∈ e.embedder, embedder.Unbroken
  quiet : e.holder.underWay = 0
  begun : ∀ g, e.holder.current = some g ∨ e.holder.previous = some g →
    g.number ≤ e.holder.latest
  lexical : ∀ g, e.holder.current = some g → g.lexical = .ofChunks g.chunks
  recalls : ∀ entry ∈ e.results.entries, Recalls e entry

namespace Resting

variable {e : Engine σ}

theorem index (h : Resting e) (path : String) : Resting (e.index undisturbed path).2 := by
  cases indexed_index h.unbroken path with
  | refused fault hroot hafter => rw [hafter]; exact h
  | broken root fault hroot hbroken hleaves hholder =>
    refine ⟨by rw [hleaves.embedder]; exact h.unbroken, by rw [hholder]; exact h.quiet, ?_,
      by rw [hholder]; exact h.lexical, ?_⟩
    · intro g hg
      rw [hholder] at hg ⊢
      exact (h.begun g hg).trans (Int.le_add_one (Int.le_refl _))
    · intro entry hentry
      rw [hleaves.results] at hentry
      refine (h.recalls entry hentry).mono hleaves.down ?_ ?_
      · rw [hholder]
        exact Int.le_add_one (Int.le_refl _)
      · rw [hholder]
        exact fun _ hg _ => hg
  | made root g hroot hchunks hleaves hnumber hlexical hplain hholder =>
    refine ⟨by rw [hleaves.embedder]; exact h.unbroken, by rw [hholder]; exact h.quiet, ?_, ?_, ?_⟩
    · intro g' hg'
      rw [hholder] at hg' ⊢
      rcases hg' with hcurrent | hprevious
      · rw [← Option.some.inj hcurrent, hnumber]
      · exact (h.begun g' (Or.inl hprevious)).trans (Int.le_add_one (Int.le_refl _))
    · intro g' hg'
      rw [hholder] at hg'
      rw [← Option.some.inj hg']
      exact hlexical
    · intro entry hentry
      rw [hleaves.results] at hentry
      have hbegun := (h.recalls entry hentry).begun
      refine (h.recalls entry hentry).mono hleaves.down ?_ ?_
      · rw [hholder]
        exact Int.le_add_one (Int.le_refl _)
      · -- no key has the number of the new generation
        intro g' hg' hsame
        rw [hholder] at hg'
        rw [← Option.some.inj hg'] at hsame
        omega

/-- What a question to the current generation puts among what is remembered. -/
theorem recalls_of_putBy (h : Resting e) {g : Generation} (hg : e.holder.current = some g)
    {q : Query} (hvalid : q.objection? = none) {entry : ResultKey × List Result}
    (hput : PutBy e g q entry) : Recalls e entry := by
  obtain ⟨hkey, hwords⟩ := hput
  have hdown : entry.1.vectors = false → e.monitor.available = false := by
    rw [hkey]
    exact fun hvectors => hvectors
  refine ⟨?_, hdown, ?_⟩
  · rw [hkey]
    exact h.begun g (Or.inl hg)
  · intro hvectors g' hg' _
    rw [hg] at hg'
    obtain rfl := Option.some.inj hg'
    exact ⟨q, hvalid, hkey, hwords (hdown hvectors)⟩

theorem besides (h : Resting e) {after : Engine σ} (hbesides : Besides e after) :
    Resting after := by
  have hholder := hbesides.holder_eq
  refine ⟨by rw [hbesides.embedder_eq]; exact h.unbroken, by rw [hholder]; exact h.quiet,
    by rw [hholder]; exact h.begun, by rw [hholder]; exact h.lexical, ?_⟩
  intro entry hentry
  have hbefore : Recalls e entry := by
    rcases hbesides.remembered entry hentry with hold | ⟨q, g, hvalid, hg, hput⟩
    · exact h.recalls entry hold
    · exact h.recalls_of_putBy hg hvalid hput
  exact hbefore.mono hbesides.down (by rw [hholder]) (by rw [hholder]; exact fun _ hg _ => hg)

theorem perform (h : Resting e) (call : Call σ) : Resting (e.perform call) := by
  cases call with
  | index path => exact h.index path
  | edit disk =>
    exact ⟨h.unbroken, h.quiet, h.begun, h.lexical, fun entry hentry =>
      (h.recalls entry hentry).mono (fun _ => rfl) (Int.le_refl _) fun _ hg _ => hg⟩
  | _ =>
    refine h.besides (besides_perform e ?_)
    rfl

theorem afterCalls (h : Resting e) (past : List (Call σ)) : Resting (e.afterCalls past) := by
  induction past with
  | nil => exact h
  | cons call past ih => exact ih.perform call

end Resting

/-- What is remembered at the end of a call in which the store was asked is remembered so, even if it
has been given up in the meantime. -/
theorem vectors_of_served {e : Engine σ} (h : Resting e) (hserves : e.monitor.available = true)
    (call : Call σ) : ∀ entry ∈ (e.perform call).results.entries, entry.1.vectors = true := by
  have hbefore : ∀ entry ∈ e.results.entries, entry.1.vectors = true := by
    intro entry hentry
    by_contra hwords
    have hdown := (h.recalls entry hentry).down (Bool.eq_false_iff.mpr hwords)
    rw [hserves] at hdown
    exact absurd hdown (by decide)
  have hother : ∀ {after : Engine σ}, Besides e after →
      ∀ entry ∈ after.results.entries, entry.1.vectors = true := by
    intro after hbesides entry hentry
    rcases hbesides.remembered entry hentry with hold | ⟨q, g, -, -, hkey, -⟩
    · exact hbefore entry hold
    · rw [hkey]
      exact hserves
  cases call with
  | index path =>
    rw [perform, (indexed_index h.unbroken path).leaves.results]
    exact hbefore
  | edit disk => exact hbefore
  | _ =>
    refine hother (besides_perform e ?_)
    rfl

/-! ## With the store given up -/

section Down

variable {e : Engine σ}

/-- No call takes a store up again that was given up. -/
theorem monitor_perform (h : Resting e) (hdown : e.monitor.available = false) (call : Call σ) :
    (e.perform call).monitor = e.monitor := by
  cases call with
  | index path => exact (indexed_index h.unbroken path).leaves.down hdown
  | edit disk => rfl
  | _ =>
    refine (besides_perform e ?_).down hdown
    rfl

/-- What a call leaves as the current generation was that before, or has no vectors. -/
theorem current_perform (h : Resting e) (hdown : e.monitor.available = false) {call : Call σ}
    {g : Generation} (hg : (e.perform call).holder.current = some g) :
    e.holder.current = some g ∨ g.vector = none := by
  cases call with
  | index path =>
    cases indexed_index h.unbroken path with
    | refused fault hroot hafter =>
      rw [perform, hafter] at hg
      exact Or.inl hg
    | broken root fault hroot hbroken hleaves hholder =>
      rw [perform, hholder] at hg
      exact Or.inl hg
    | made root g' hroot hchunks hleaves hnumber hlexical hplain hholder =>
      rw [perform, hholder] at hg
      rw [← Option.some.inj hg]
      exact Or.inr (hplain hdown)
  | edit disk => exact Or.inl hg
  | _ =>
    rw [(besides_perform e ?_).holder_eq] at hg
    · exact Or.inl hg
    · rfl

/-- What a build sends that begins with the store given up: it drops tables. -/
theorem requests_build {b : Build σ} (hdown : e.monitor.available = false)
    (hstage : ∀ g embedded, b.stage ≠ .storing g embedded) :
    ∀ r ∈ b.requests e, ∃ table, r = .drop table := by
  refine Build.requests_keep
    (P := fun e b => e.monitor.available = false ∧ ∀ g embedded, b.stage ≠ .storing g embedded)
    ?_ ?_ e b ⟨hdown, hstage⟩
  · rintro e b ⟨hdown, hstage⟩
    refine ⟨by rw [Build.step, monitor_stepAt_of_down hdown]; exact hdown, ?_⟩
    intro g embedded hstoring
    rw [Build.step] at hstoring
    cases stepAt_move e b b.place with
    | idle hquiet hnext => rw [hnext] at hstoring; exact hstage g embedded hstoring
    | made extract chunks embedded' after hstage' hafter hnext =>
      rw [hnext] at hstoring
      rcases hafter with ⟨-, -, -, hserves⟩ | rfl
      · rw [hdown] at hserves
        exact absurd hserves (by decide)
      · exact absurd hstoring (by simp)
    | store g' embedded' hstage' hnext => exact absurd hstage' (hstage g' embedded')
    | publish g' embedded' hstage' hnext =>
      rw [hnext, publish_stage] at hstoring
      exact absurd hstoring (by simp)
    -- the others lead to stages of their own
    | _ =>
      rename_i hnext
      rw [hnext] at hstoring
      exact absurd hstoring (by simp)
  · rintro e b ⟨-, hstage⟩ r hr
    unfold Build.request? at hr
    split at hr
    · rename_i g embedded hstoring
      exact absurd hstoring (hstage g embedded)
    · obtain ⟨index, -, rfl⟩ := Option.map_eq_some_iff.mp hr
      exact ⟨_, rfl⟩
    · exact absurd hr (by simp)

/-- With the store given up nothing is written to it, and nothing is searched in it. -/
theorem requests_of_down (hdown : e.monitor.available = false) (call : Call σ) :
    ∀ r ∈ e.requests call, ∃ table, r = .drop table := by
  intro r hr
  cases call with
  | index path =>
    unfold requests at hr
    cases hbegin : e.begin path with
    | error fault => simp [hbegin] at hr
    | ok started =>
      obtain ⟨b, begun⟩ := started
      obtain ⟨-, -, hbegun⟩ := Session.begin_ok hbegin
      have hstill : begun.monitor.available = false := by rw [hbegun]; exact hdown
      simp only [hbegin] at hr
      exact requests_build hstill (by rw [Session.stage_begin hbegin]; simp) r hr
  | search q =>
    unfold requests at hr
    cases hask : e.ask q with
    | error fault => simp [hask] at hr
    | ok i =>
      obtain ⟨-, g, -, rfl⟩ := ask_eq_ok_iff.mp hask
      simp only [hask] at hr
      -- a question only comes to a search if the store served
      refine (Inquiry.requests_keep (Q := fun _ => False) (P := fun e' i => i.Alone e e')
        (fun _ _ h => h.step) ?_ e _ (.begin e g q) r hr).elim
      intro e' i h r hr
      unfold Inquiry.request? at hr
      split at hr
      · rename_i key index vector hprogress
        have hstands := h.stands
        rw [Inquiry.Stands, hprogress, hdown] at hstands
        exact absurd hstands.2 (by decide)
      · exact absurd hr (by simp)
  | _ => exact absurd hr List.not_mem_nil

end Down

end CodeSearch.Engine

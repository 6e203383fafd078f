import CodeSearch.Proofs.Analysis.Views
import CodeSearch.Proofs.Decimal.Ratio
import CodeSearch.Proofs.Engine.PublishedTables
import CodeSearch.Proofs.Engine.WholeCalls

/-!
What the summary of a build tells of its generation.

A summary is made at one of three ends of a build: before the chunks are embedded or after that, if a
later build has begun, and at the publication. Only the last one can say that the index is used, and
it says so exactly if the generation became the current one (`SwapsIn`). Then the summary has the
numbers of this generation, of the views on its chunks, and of its table at that time. Nobody has to
wait for that: the number of embedded chunks is settled by the build alone (`counted_after`), and the
table is out of the reach of other builds until it is published (`intact`).
-/
set_option autoImplicit false

namespace CodeSearch

/-! ## Shares -/

namespace Analysis

/-- A part of a whole is a share from zero to one. -/
theorem coverage_bounds {part whole : Nat} (h : part ≤ whole) :
    0.0 ≤ coverage part whole ∧ coverage part whole ≤ 1.0 := by
  have hnone : (0.0 : Float) ≤ 0 ∧ (0 : Float) ≤ 1.0 := by decide +kernel
  unfold coverage
  by_cases hwhole : whole = 0
  · rw [if_pos hwhole]
    exact hnone
  · rw [if_neg hwhole]
    by_cases hpart : part = 0
    · rw [hpart, Decimal.ratio, if_pos (Or.inl rfl)]
      exact hnone
    · have hpos : 0 < part := Nat.pos_of_ne_zero hpart
      exact ⟨Decimal.zero_le_ratio hpos h, (Decimal.ratio_le_one hpos h).2⟩

end Analysis

namespace Engine

open CodeSearch.Index (Generation Holder Event Traffic)

variable {σ : Type}

/-- A summary has the numbers of a generation, and those of the views on its chunks. -/
structure Tells (summary : Summary) (g : Generation) : Prop where
  generation : (summary.generation : Int) = g.number
  path : summary.path = g.root
  files : summary.files = g.files
  chunks : summary.chunks = g.chunks.length
  skipped : summary.skipped = g.skipped
  backend : summary.backend = g.backend
  embedded : summary.embedded = g.embedded
  reported : summary.embedded = (Analysis.embeddingReport g.chunks).embedded
  kinds : summary.embedded = ((Analysis.embeddingReport g.chunks).kinds.map (·.2)).sum

theorem tells_summaryOf {g : Generation} (hnumber : 0 ≤ g.number) (published : Bool) :
    Tells (summaryOf g g.embedded published) g where
  generation := Int.toNat_of_nonneg hnumber
  path := rfl
  files := rfl
  chunks := rfl
  skipped := rfl
  backend := rfl
  embedded := rfl
  reported := (Analysis.embedded_embeddingReport g.chunks).1.symm
  kinds := (Analysis.embedded_embeddingReport g.chunks).2.symm

namespace Session

/-- An action makes a generation the current one. -/
def SwapsIn (e : Engine σ) (earlier : List Action) (action : Action) (g : Generation) : Prop :=
  (after e (action :: earlier)).engine.holder.current = some g ∧
    (after e earlier).engine.holder.current ≠ some g

/-- The table of a generation in vector mode has so many rows. -/
def HasRows (database : Vector.Database) (g : Generation) (count : Nat) : Prop :=
  ∀ index, g.vector = some index →
    ∃ rows, database.rows? index.collection = some rows ∧ rows.length = count

variable {e : Engine σ} {earlier past : List Action} {action : Action} {g : Generation}

/-! ## The action that swaps a generation in -/

/-- A generation that has been swapped in was so by some action. -/
theorem exists_swapsIn (hfresh : e.holder = {}) (hg : g ∈ Traffic.swapped (trace e past)) :
    ∃ later action earlier, past = later ++ action :: earlier ∧ SwapsIn e earlier action g := by
  induction past with
  | nil => exact absurd hg List.not_mem_nil
  | cons a past ih =>
    have hbefore : g ∈ Traffic.swapped (trace e past) →
        ∃ later action earlier, a :: past = later ++ action :: earlier ∧
          SwapsIn e earlier action g := by
      intro hmem
      obtain ⟨later, action, earlier, rfl, hswaps⟩ := ih hmem
      exact ⟨a :: later, action, earlier, rfl, hswaps⟩
    by_cases hold : g ∈ Traffic.swapped (trace e past)
    · exact hbefore hold
    · refine ⟨[], a, past, rfl, ?_, ?_⟩
      · -- it is on top of those that were swapped in
        rw [holder_after hfresh, (Traffic.kept_eq_swapped _).1]
        rw [trace] at hg ⊢
        cases hevent : (after e past).event? a with
        | none =>
          rw [hevent] at hg
          exact absurd hg hold
        | some event =>
          rw [hevent] at hg
          rcases Traffic.swapped_cons event (trace e past) with hsame | ⟨new, -, hnew⟩
          · exact absurd (hsame ▸ hg) hold
          · have hgrown : Traffic.swapped ((some event).toList ++ trace e past) =
                new :: Traffic.swapped (trace e past) := hnew
            rw [hgrown] at hg ⊢
            rcases List.mem_cons.mp hg with rfl | hmem
            · rfl
            · exact absurd hmem hold
      · intro hcurrent
        rw [holder_after hfresh] at hcurrent
        exact hold (Traffic.mem_swapped_of_current (accounted hfresh past).proper hcurrent)

/-- It is a build that does so, at its publication, and no later one has begun. -/
theorem SwapsIn.publishing (h : SwapsIn e earlier action g) (hfresh : e.holder = {}) :
    ∃ call place b embedded, action = .build call place ∧
      (after e earlier).builds[call]? = some b ∧ b.stage = .publishing g embedded ∧
        g.number = (after e earlier).engine.holder.latest := by
  obtain ⟨hnow, hbefore⟩ := h
  have hproper := (accounted hfresh (action :: earlier)).proper
  rw [holder_after hfresh] at hnow hbefore
  rw [trace] at hnow hproper
  cases hevent : (after e earlier).event? action with
  | none =>
    rw [hevent] at hnow
    exact absurd hnow hbefore
  | some event =>
    rw [hevent] at hnow hproper
    obtain ⟨new, rfl, hnew, -, -⟩ := Traffic.current_step hproper (fun hsame => hbefore (hsame ▸ hnow))
    obtain rfl := Option.some.inj (hnow.symm.trans hnew)
    obtain ⟨call, place, b, embedded, haction, hb, hstage⟩ := exists_build_of_event hevent
    have hlatest := (Traffic.publish_current_iff hproper.2 hproper.1).mp hnew
    exact ⟨call, place, b, embedded, haction, hb, hstage, by rw [holder_after hfresh]; exact hlatest⟩

/-- A build that has ended its work at the holder keeps its number and its summary. -/
theorem exists_closed {call : Nat} {b : Build σ} (hb : (after e past).builds[call]? = some b)
    (hclosed : b.stage.isOpen = false) (later : List Action) :
    ∃ b', (after e (later ++ past)).builds[call]? = some b' ∧ b'.number = b.number ∧
      b'.stage.isOpen = false ∧ b'.stage.summary? = b.stage.summary? := by
  induction later with
  | nil => exact ⟨b, hb, rfl, hclosed, rfl⟩
  | cons a later ih =>
    obtain ⟨b', hb', hnumber, hclosed', hsummary⟩ := ih
    rcases build_next hb' a with ⟨place, rfl, hnext⟩ | ⟨-, hsame⟩
    · refine ⟨_, hnext, (stepAt_number _ b' place).trans hnumber, isOpen_stepAt hclosed' _ place, ?_⟩
      cases stepAt_turn (after e (later ++ past)).engine b' place with
      | closed _ hevent hstill hholder hkept => exact hkept.trans hsummary
      | working hopen => rw [hclosed'] at hopen; cases hopen
      | publishing g embedded hstage hnext => rw [hstage] at hclosed'; cases hclosed'
      | aborting result hstage hnext => rw [hstage] at hclosed'; cases hclosed'
    · exact ⟨b', hsame, hnumber, hclosed', hsummary⟩

/-- When a generation is swapped in, its build has a summary that tells of it, and its table is there. -/
theorem SwapsIn.exists_summary (h : SwapsIn e earlier action g) (hgiving : Giving e)
    (later : List Action) :
    (∃ b ∈ (after e (later ++ action :: earlier)).builds, b.number = g.number ∧
      b.stage.summary? = some (summaryOf g g.embedded true)) ∧ 0 ≤ g.number ∧
      HasRows (after e (action :: earlier)).engine.database g g.embedded := by
  obtain ⟨call, place, b, embedded, rfl, hb, hstage, hlatest⟩ := h.publishing hgiving.fresh
  have hmem : b ∈ (after e earlier).builds := List.mem_of_getElem? hb
  have hacc := accounted hgiving.fresh earlier
  have hnumber : g.number = b.number := hacc.made_number b hmem g (by rw [hstage]; rfl)
  have hcounted := (counted_after hgiving earlier b hmem).stage
  rw [hstage] at hcounted
  obtain ⟨rfl, -⟩ := hcounted
  have hnext := stage_swap hgiving.fresh hacc hstage hlatest place
  refine ⟨?_, ?_, ?_⟩
  · have hnow : (after e (.build call place :: earlier)).builds[call]? =
        some (b.stepAt (after e earlier).engine place).1 := by
      rw [after_build hb, List.getElem?_set_self (List.getElem?_eq_some_iff.mp hb).1]
    obtain ⟨b', hb', hsame, -, hsummary⟩ := exists_closed hnow (by rw [hnext]; rfl) later
    refine ⟨b', List.mem_of_getElem? hb', ?_, ?_⟩
    · rw [hsame, stepAt_number, hnumber]
    · rw [hsummary, hnext]
      rfl
  · rw [hnumber, hacc.number_eq call b hb]
    omega
  · -- to publish is nothing to the database
    intro index hindex
    have hwhole := (intact hgiving earlier).builds b hmem
    rw [Whole, hstage] at hwhole
    obtain ⟨hcollection, hrows⟩ := hwhole index hindex
    refine ⟨Vector.chunkRows g.chunks, ?_, length_chunkRows g⟩
    rw [hcollection, ← hrows, after_build hb, Build.stepAt, hstage]
    rfl

/-! ## Summaries -/

/-- Whatever builds run side by side on an engine, and whatever fails: a summary that a build returns is
not marked as discarded exactly if the generation of this build was swapped in, and then it has the
numbers of the generation and of its table at that time. -/
theorem summary_tells (hgiving : Giving e) (past : List Action) {b : Build σ}
    (hb : b ∈ (after e past).builds) {summary : Summary}
    (hended : b.ending? = some (.ok summary)) :
    (summary.generation : Int) = b.number ∧
      (summary.discarded = false ↔ ∃ later action earlier g, past = later ++ action :: earlier ∧
        SwapsIn e earlier action g ∧ g.number = b.number) ∧
      (∀ later action earlier g, past = later ++ action :: earlier → SwapsIn e earlier action g →
        g.number = b.number → Tells summary g ∧
          HasRows (after e (action :: earlier)).engine.database g summary.embedded) ∧
      summary.embedded ≤ summary.chunks ∧ 0.0 ≤ summary.coverage ∧ summary.coverage ≤ 1.0 ∧
      (summary.embedded = 0 → summary.backend = .lexical) := by
  have hacc := accounted hgiving.fresh past
  have hsummary : b.stage.summary? = some summary := by
    rw [Build.ending?_eq_some.mp hended]
    rfl
  obtain ⟨hgeneration, hfits⟩ := (counted_after hgiving past b hb).summary summary hsummary
  have hpositive : 0 ≤ b.number := by
    obtain ⟨call, hcall⟩ := List.mem_iff_getElem?.mp hb
    rw [hacc.number_eq call b hcall]
    omega
  -- the summary of a build whose generation was swapped in
  have htold : ∀ later action earlier g, past = later ++ action :: earlier →
      SwapsIn e earlier action g → g.number = b.number →
        summary = summaryOf g g.embedded true ∧ 0 ≤ g.number ∧
          HasRows (after e (action :: earlier)).engine.database g g.embedded := by
    rintro later action earlier g rfl hswaps hnumber
    obtain ⟨⟨b', hb', hown, hsummary'⟩, hrest⟩ := hswaps.exists_summary hgiving later
    obtain rfl := hacc.eq_of_number hb' hb (hown.trans hnumber)
    exact ⟨Option.some.inj (hsummary.symm.trans hsummary'), hrest⟩
  refine ⟨?_, ⟨?_, ?_⟩, ?_, hfits.embedded_le, (Analysis.coverage_bounds hfits.embedded_le).1,
    (Analysis.coverage_bounds hfits.embedded_le).2, hfits.lexical⟩
  · rw [hgeneration, Int.toNat_of_nonneg hpositive]
  · intro hkept
    obtain ⟨g, embedded, hg, hnumber, -⟩ := hacc.summary_swapped b hb summary hsummary hkept
    obtain ⟨later, action, earlier, hpast, hswaps⟩ := exists_swapsIn hgiving.fresh hg
    exact ⟨later, action, earlier, g, hpast, hswaps, hnumber⟩
  · rintro ⟨later, action, earlier, g, hpast, hswaps, hnumber⟩
    obtain ⟨rfl, -⟩ := htold later action earlier g hpast hswaps hnumber
    rfl
  · intro later action earlier g hpast hswaps hnumber
    obtain ⟨rfl, hnonneg, hrows⟩ := htold later action earlier g hpast hswaps hnumber
    exact ⟨tells_summaryOf hnonneg true, hrows⟩

theorem giving_oneImport : Giving oneImport where
  fresh := rfl
  gives := by
    intro embedder hembedder text world v hv
    obtain rfl := Option.some.inj hembedder
    obtain rfl := Embedding.Outcome.vector.inj hv
    simp
  kept := by
    intro entry hentry
    simp [oneImport, importing, Engine.new, Lru.empty] at hentry

/-- Two builds. The first one has made its table when the second begins, and publishes after it. -/
def overtakenFirst : List Action :=
  List.replicate 3 (.build 0 0) ++ indexing 1 11 ++ indexing 0 9

/-- Whether the summary of a build that has ended is marked as discarded, how many chunks it says to be
embedded, and in what way it says that questions are answered. -/
def returned (b : Build σ) : Option (Bool × Nat × Backend) :=
  (b.ending?.bind (·.toOption)).map fun summary =>
    (summary.discarded, summary.embedded, summary.backend)

theorem exists_of_returned {builds : List (Build σ)} {call : Nat} {said : Bool × Nat × Backend}
    (h : (builds.map returned)[call]? = some (some said)) :
    ∃ b summary, builds[call]? = some b ∧ b.ending? = some (.ok summary) ∧
      (summary.discarded, summary.embedded, summary.backend) = said := by
  rw [List.getElem?_map] at h
  obtain ⟨b, hb, hreturned⟩ := Option.map_eq_some_iff.mp h
  obtain ⟨summary, hsummary, hsaid⟩ := Option.map_eq_some_iff.mp hreturned
  obtain ⟨result, hended, hresult⟩ := Option.bind_eq_some_iff.mp hsummary
  refine ⟨b, summary, hb, ?_, hsaid⟩
  cases result with
  | ok found => rw [hended, Option.some.inj hresult]
  | error fault => cases hresult

/-- The first build has embedded and stored its chunk, but only the second one is swapped in. -/
theorem summary_tells_overtakenFirst :
    (after oneImport overtakenFirst).builds.map returned =
        [some (true, 1, .vector), some (false, 1, .vector)] ∧
      (¬ ∃ later action earlier g, overtakenFirst = later ++ action :: earlier ∧
        SwapsIn oneImport earlier action g ∧ g.number = 1) ∧
      ∃ later action earlier g, overtakenFirst = later ++ action :: earlier ∧
        SwapsIn oneImport earlier action g ∧ g.number = 2 ∧ g.embedded = 1 ∧
          HasRows (after oneImport (action :: earlier)).engine.database g 1 := by
  have hreturned : (after oneImport overtakenFirst).builds.map returned =
      [some (true, 1, .vector), some (false, 1, .vector)] := by
    decide +kernel
  refine ⟨hreturned, ?_, ?_⟩
  · obtain ⟨b, summary, hb, hended, hsummary⟩ := exists_of_returned (congrArg (·[0]?) hreturned)
    obtain ⟨hdiscarded, -⟩ := Prod.mk.inj hsummary
    obtain ⟨-, hiff, -⟩ := summary_tells giving_oneImport _ (List.mem_of_getElem? hb) hended
    rw [(accounted giving_oneImport.fresh _).number_eq 0 b hb, hdiscarded] at hiff
    simpa using hiff
  · obtain ⟨b, summary, hb, hended, hsummary⟩ := exists_of_returned (congrArg (·[1]?) hreturned)
    obtain ⟨hdiscarded, hrest⟩ := Prod.mk.inj hsummary
    obtain ⟨hembedded, -⟩ := Prod.mk.inj hrest
    obtain ⟨-, hiff, htold, -⟩ :=
      summary_tells giving_oneImport _ (List.mem_of_getElem? hb) hended
    obtain ⟨later, action, earlier, g, hpast, hswaps, hnumber⟩ := hiff.mp hdiscarded
    obtain ⟨htells, hrows⟩ := htold later action earlier g hpast hswaps hnumber
    have hown := (accounted giving_oneImport.fresh _).number_eq 1 b hb
    rw [hembedded] at hrows
    exact ⟨later, action, earlier, g, hpast, hswaps, hnumber.trans hown,
      htells.embedded.symm.trans hembedded, hrows⟩

end Session

end Engine

end CodeSearch

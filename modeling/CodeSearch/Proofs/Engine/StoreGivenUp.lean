import CodeSearch.Proofs.Engine.Calls

/-!
An engine whose store of vectors has been given up.

Calls come one after the other, each carried out to its end. From the call on in which the store is
given up the engine does what an engine does that never had a store, as far as its answers go. Its
generations may differ from those of the other in their vectors, and what it remembers may have been
found by vectors, but neither is looked at any more. What two engines that have indexed the same trees
have in common is that their generations have the same numbers and, vectors apart, the same chunks
(`Alike`). What an engine remembers of answers by words is what the words of its current generation
answer (`Resting`).
-/
set_option autoImplicit false

namespace CodeSearch.Engine

open CodeSearch.Index (Generation Holder)
open CodeSearch.Search (Query Result Match)

variable {σ : Type}

/-! ## Answers without vectors -/

/-- What is said of a result: the chunk, how alike it is, and how it was found. -/
def said (r : Result) : String × Float × Backend :=
  (r.chunk.id, r.similarity, r.backend)

/-- What is given for a question. -/
def given (e : Engine σ) (q : Query) : Except InquiryFault (List (String × Float × Backend)) :=
  (e.answered undisturbed q).1.map fun found => found.2.map said

/-- A result without the vector of its chunk. -/
def bareResult (r : Result) : Result :=
  { r with chunk := r.chunk.bare }

section Bare

variable {g g' : Generation}

theorem documents_bare (chunks : List Chunk) :
    Search.Lexical.ofChunks (chunks.map Chunk.bare) = .ofChunks chunks := by
  unfold Search.Lexical.ofChunks
  rw [List.map_map]
  rfl

theorem chunk?_bare (h : g.chunks.map Chunk.bare = g'.chunks.map Chunk.bare) (id : String) :
    (g.chunk? id).map Chunk.bare = (g'.chunk? id).map Chunk.bare := by
  have hfind : ∀ chunks : List Chunk, (chunks.reverse.find? fun c => c.id == id).map Chunk.bare =
      (chunks.map Chunk.bare).reverse.find? fun c => c.id == id := by
    intro chunks
    rw [← List.map_reverse, List.find?_map]
    rfl
  unfold Generation.chunk?
  rw [hfind, hfind, h]

theorem resultOf_bare (h : g.chunks.map Chunk.bare = g'.chunks.map Chunk.bare) (q : Query)
    (backend : Backend) (m : Match) :
    (resultOf g q backend m).map (Option.map bareResult) =
      (resultOf g' q backend m).map (Option.map bareResult) := by
  unfold resultOf Generation.chunkNamed
  cases m.id with
  | text id =>
    have hfound := chunk?_bare h id
    dsimp only
    cases hc : g.chunk? id with
    | none =>
      rw [hc] at hfound
      rw [Option.map_eq_none_iff.mp hfound.symm]
    | some c =>
      rw [hc] at hfound
      obtain ⟨c', hc', hbare⟩ := Option.map_eq_some_iff.mp hfound.symm
      have hanswers : answers q c' m.similarity = answers q c m.similarity := by
        have hkind : c'.bare.kind = c.bare.kind := congrArg Chunk.kind hbare
        unfold answers
        rw [show c'.kind = c.kind from hkind]
      have hresult : bareResult ⟨c', m.similarity, c'.context, backend⟩ =
          bareResult ⟨c, m.similarity, c.context, backend⟩ := by
        have hcontext : c'.bare.context = c.bare.context := congrArg Chunk.context hbare
        unfold bareResult
        dsimp only
        rw [hbare, show c'.context = c.context from hcontext]
      simp only [hc', bind, Except.bind, pure, Except.pure, Except.map, hanswers]
      split
      · simp only [Option.map_some, hresult]
      · rfl
  | list items => rfl
  | table entries => rfl
  | _ => rfl

theorem mapM_map_congr {α β ε γ : Type} {f f' : α → Except ε β} {k : β → γ}
    (h : ∀ x, (f x).map k = (f' x).map k) (xs : List α) :
    (xs.mapM f).map (List.map k) = (xs.mapM f').map (List.map k) := by
  induction xs with
  | nil => rfl
  | cons x xs ih =>
    have hx := h x
    rw [List.mapM_cons, List.mapM_cons]
    cases hf : f x with
    | error fault =>
      cases hf' : f' x with
      | error fault' => simpa [hf, hf', Except.map, bind, Except.bind] using hx
      | ok y' => simp [hf, hf', Except.map] at hx
    | ok y =>
      cases hf' : f' x with
      | error fault' => simp [hf, hf', Except.map] at hx
      | ok y' =>
        cases hfs : xs.mapM f <;> cases hfs' : xs.mapM f' <;>
          simp_all [Except.map, bind, Except.bind, pure, Except.pure]

/-- What becomes of results is the same without the vectors of their chunks. -/
theorem best_bare (limit : Int) (results : List (Option Result)) :
    (Cut.upTo limit (Search.bestFirst Result.similarity (results.filterMap id))).map bareResult =
      Cut.upTo limit (Search.bestFirst Result.similarity
        ((results.map (Option.map bareResult)).filterMap id)) := by
  have hfilter : (results.map (Option.map bareResult)).filterMap id =
      (results.filterMap id).map bareResult := by
    rw [List.filterMap_map, List.map_filterMap]
    rfl
  unfold Cut.upTo
  rw [hfilter, Search.bestFirst_map, List.map_take, List.length_map]
  rfl

/-- Generations whose chunks differ only in their vectors have the same answers out of the same
matches, apart from these vectors. -/
theorem resultsOf_bare (h : g.chunks.map Chunk.bare = g'.chunks.map Chunk.bare) (q : Query)
    (backend : Backend) (found : List Match) :
    (resultsOf g q backend found).map (List.map bareResult) =
      (resultsOf g' q backend found).map (List.map bareResult) := by
  have hmade := mapM_map_congr (resultOf_bare h q backend) found
  unfold resultsOf
  cases hf : found.mapM (resultOf g q backend) with
  | error fault =>
    cases hf' : found.mapM (resultOf g' q backend) with
    | error fault' => simpa [hf, hf', Except.map, bind, Except.bind] using hmade
    | ok results' => simp [hf, hf', Except.map] at hmade
  | ok results =>
    cases hf' : found.mapM (resultOf g' q backend) with
    | error fault' => simp [hf, hf', Except.map] at hmade
    | ok results' =>
      have hsame : results.map (Option.map bareResult) = results'.map (Option.map bareResult) := by
        simpa [hf, hf', Except.map] using hmade
      simp only [bind, Except.bind, pure, Except.pure, Except.map]
      rw [best_bare, best_bare, hsame]

/-- So their words give the same answers. -/
theorem ByWords.said_eq {q : Query} {results results' : List Result} (hwords : ByWords g q results)
    (hwords' : ByWords g' q results') (hlexical : g.lexical = .ofChunks g.chunks)
    (hlexical' : g'.lexical = .ofChunks g'.chunks)
    (h : g.chunks.map Chunk.bare = g'.chunks.map Chunk.bare) :
    results.map said = results'.map said := by
  have hdocuments : g.lexical = g'.lexical := by
    rw [hlexical, hlexical', ← documents_bare, h, documents_bare]
  have hresults := resultsOf_bare h q .lexical (g.lexical.query (q.text.getD "") q.kind q.limit)
  unfold ByWords at hwords hwords'
  rw [hwords, hdocuments, hwords'] at hresults
  have hbare : results.map bareResult = results'.map bareResult := Except.ok.inj hresults
  have hsaid : ∀ rs : List Result, rs.map said = (rs.map bareResult).map said := by
    intro rs
    rw [List.map_map]
    rfl
  rw [hsaid, hbare, ← hsaid]

end Bare

/-! ## Engines that have indexed the same trees -/

/-- What an engine has made of the trees: how many builds have begun, and the number and the chunks of
the current generation. -/
def indexes (e : Engine σ) : Int × Option (Int × List Chunk) :=
  (e.holder.latest, e.holder.current.map fun g => (g.number, g.chunks.map Chunk.bare))

/-- What becomes of that when a directory is indexed. -/
def indexesAfter (e : Engine σ) (path : String) : Int × Option (Int × List Chunk) :=
  match e.rootOf path with
  | .error _ => e.indexes
  | .ok root =>
    (e.holder.latest + 1,
      match e.chunksIn root with
      | .error _ => e.indexes.2
      | .ok chunks => some (e.holder.latest + 1, chunks))

/-- Engines that have indexed the same trees, and go on from the same one. -/
structure Alike (e e' : Engine σ) : Prop where
  ground : SameGround e e'
  indexes : e'.indexes = e.indexes

namespace Alike

variable {e e' e'' : Engine σ}

theorem refl (e : Engine σ) : Alike e e :=
  ⟨.refl e, rfl⟩

theorem symm (h : Alike e e') : Alike e' e :=
  ⟨h.ground.symm, h.indexes.symm⟩

theorem trans (h : Alike e e') (h' : Alike e' e'') : Alike e e'' :=
  ⟨h.ground.trans h'.ground, h'.indexes.trans h.indexes⟩

end Alike

section Indexes

variable {e : Engine σ}

theorem indexes_index (h : Resting e) (path : String) :
    (e.index undisturbed path).2.indexes = e.indexesAfter path := by
  cases indexed_index h.unbroken path with
  | refused fault hroot hafter => rw [hafter, indexesAfter, hroot]
  | broken root fault hroot hbroken hleaves hholder =>
    rw [indexesAfter, hroot]
    dsimp only
    rw [hbroken, Engine.indexes, hholder]
    rfl
  | made root g hroot hchunks hleaves hnumber hlexical hplain hholder =>
    rw [indexesAfter, hroot]
    dsimp only
    rw [hchunks, Engine.indexes, hholder]
    dsimp only
    rw [Option.map_some, hnumber]

theorem Alike.index {e' : Engine σ} (h : Alike e e') (hrest : Resting e) (hrest' : Resting e')
    (path : String) : Alike (e.index undisturbed path).2 (e'.index undisturbed path).2 where
  ground := (indexed_index hrest.unbroken path).leaves.ground.symm.trans
    (h.ground.trans (indexed_index hrest'.unbroken path).leaves.ground)
  indexes := by
    have hlatest : e'.holder.latest = e.holder.latest := congrArg Prod.fst h.indexes
    rw [indexes_index hrest, indexes_index hrest', indexesAfter, indexesAfter, h.ground.rootOf]
    cases e.rootOf path with
    | error fault => exact h.indexes
    | ok root =>
      dsimp only
      rw [h.ground.chunksIn, h.indexes, hlatest]

/-- The other calls leave alone what has been indexed. -/
theorem alike_perform {call : Call σ} (hother : call.isOfTrees = false) :
    Alike e (e.perform call) := by
  obtain ⟨results, monitor, database, world, notices, hafter⟩ := (besides_perform e hother).kept
  rw [hafter]
  exact ⟨⟨rfl, rfl, rfl, rfl⟩, rfl⟩

/-- What has been indexed after some calls follows from those that have to do with trees. -/
theorem Alike.filter_trees {e' : Engine σ} (h : Alike e e') (hrest : Resting e)
    (hrest' : Resting e') (calls : List (Call σ)) :
    Alike (e.afterCalls calls) (e'.afterCalls (calls.filter Call.isOfTrees)) := by
  induction calls with
  | nil => exact h
  | cons call calls ih =>
    cases htrees : call.isOfTrees with
    | false =>
      rw [List.filter_cons_of_neg (by simp [htrees])]
      exact (alike_perform htrees).symm.trans ih
    | true =>
      rw [List.filter_cons_of_pos htrees]
      cases call with
      | index path => exact ih.index (hrest.afterCalls calls) (hrest'.afterCalls _) path
      | edit disk =>
        exact ⟨⟨ih.ground.settings, ih.ground.parsers, ih.ground.homeOf, rfl⟩, ih.indexes⟩
      | _ => exact absurd htrees (by simp [Call.isOfTrees])

/-- Engines that have been made alike have indexed the same trees after calls with the same trees. -/
theorem Alike.afterCalls {e' : Engine σ} (h : Alike e e') (hrest : Resting e) (hrest' : Resting e')
    {calls calls' : List (Call σ)}
    (htrees : calls'.filter Call.isOfTrees = calls.filter Call.isOfTrees) :
    Alike (e.afterCalls calls) (e'.afterCalls calls') := by
  have hmade := h.filter_trees hrest hrest' calls
  have hmade' := (Alike.refl e').filter_trees hrest' hrest' calls'
  rw [htrees] at hmade'
  exact hmade.trans hmade'.symm

end Indexes

/-! ## Answers with the store given up -/

section Down

variable {e e' : Engine σ} {g : Generation} {q : Query}

/-- Between two calls nobody has to wait for a generation. -/
theorem ready_of_resting (h : Resting e) : e.ready =
    match e.holder.current with
    | some g => .ok g
    | none => .error .never := by
  unfold Engine.ready Holder.await Holder.arrive Holder.outcome
  cases e.holder.current with
  | none => simp [h.quiet]
  | some g => simp [h.quiet]

theorem given_of_ask_error {fault : InquiryFault} (h : e.ask q = .error fault) :
    e.given q = .error fault := by
  unfold given answered
  rw [h]
  rfl

/-- With the store given up a question is given what the words of the current generation answer. -/
theorem exists_given (h : Resting e) (hdown : e.monitor.available = false)
    (hvalid : q.objection? = none) (hg : e.holder.current = some g) :
    ∃ results, ByWords g q results ∧ e.given q = .ok (results.map said) := by
  have hask : e.ask q = .ok ⟨g, q, .opened⟩ := by
    refine ask_eq_ok_iff.mpr ⟨hvalid, g, ?_, rfl⟩
    rw [ready_of_resting h, hg]
  have hwords : AnsweredByWords undisturbed e g q := by
    cases hremembered : e.results.get? (e.resultKey g q) with
    | none => exact .noStore hremembered (Or.inr hdown)
    | some results =>
      -- it was found by words as well, since it is remembered so
      obtain ⟨q', hvalid', hkey, hby⟩ :=
        (h.recalls _ (Lru.mem_of_get? hremembered)).words hdown g hg rfl
      exact .remembered results q' hremembered hvalid' hkey.symm hby
  obtain ⟨results, hby, hcomplete⟩ := exists_complete_byWords hvalid hwords
  refine ⟨results, hby, ?_⟩
  rw [given, ((answered_of_ask undisturbed hask).1 results).mpr hcomplete]
  rfl

/-- Two engines without a store that have indexed the same trees give the same answers. -/
theorem given_eq (h : Alike e e') (hrest : Resting e) (hrest' : Resting e')
    (hdown : e.monitor.available = false) (hdown' : e'.monitor.available = false) (q : Query) :
    e'.given q = e.given q := by
  have hcurrent := congrArg Prod.snd h.indexes
  unfold indexes at hcurrent
  cases hvalid : q.objection? with
  | some objection =>
    have hrefused : ∀ e : Engine σ, e.ask q = .error (.invalid objection) := by
      intro e
      unfold Engine.ask
      rw [hvalid]
    rw [given_of_ask_error (hrefused e), given_of_ask_error (hrefused e')]
  | none =>
    cases hg : e.holder.current with
    | none =>
      have hnever : ∀ {e : Engine σ}, Resting e → e.holder.current = none →
          e.ask q = .error (.notIndexed .never) := by
        intro e hrest hnone
        unfold Engine.ask
        rw [hvalid, ready_of_resting hrest, hnone]
      rw [hg, Option.map_none, Option.map_eq_none_iff] at hcurrent
      rw [given_of_ask_error (hnever hrest hg), given_of_ask_error (hnever hrest' hcurrent)]
    | some g =>
      rw [hg, Option.map_some] at hcurrent
      obtain ⟨g', hg', hsame⟩ := Option.map_eq_some_iff.mp hcurrent
      obtain ⟨-, hchunks⟩ := Prod.mk.inj hsame
      obtain ⟨results, hwords, hgiven⟩ := exists_given hrest hdown hvalid hg
      obtain ⟨results', hwords', hgiven'⟩ := exists_given hrest' hdown' hvalid hg'
      rw [hgiven, hgiven', hwords'.said_eq hwords (hrest'.lexical g' hg') (hrest.lexical g hg)
        hchunks]

/-- All of it is found by words. -/
theorem lexical_of_given (h : Resting e) (hdown : e.monitor.available = false)
    {answers : List (String × Float × Backend)} (hgiven : e.given q = .ok answers) :
    ∀ answer ∈ answers, answer.2.2 = .lexical := by
  cases hask : e.ask q with
  | error fault =>
    rw [given_of_ask_error hask] at hgiven
    exact absurd hgiven (by simp)
  | ok i =>
    obtain ⟨hvalid, g, hready, -⟩ := ask_eq_ok_iff.mp hask
    obtain ⟨results, hwords, hresults⟩ := exists_given h hdown hvalid (current_of_ready hready)
    rw [hresults] at hgiven
    obtain rfl := Except.ok.inj hgiven
    intro answer hanswer
    obtain ⟨r, hr, rfl⟩ := List.mem_map.mp hanswer
    exact (mem_resultsOf hwords r hr).2

end Down

/-! ## From then on -/

theorem resting_of_fresh {e : Engine σ} (hholder : e.holder = {})
    (hresults : e.results = Lru.empty resultRoom)
    (hunbroken : ∀ embedder ∈ e.embedder, embedder.Unbroken) : Resting e where
  unbroken := hunbroken
  quiet := by rw [hholder]
  begun g hg := by
    rw [hholder] at hg
    exact absurd hg (by simp)
  lexical g hg := by
    rw [hholder] at hg
    exact absurd hg (by simp)
  recalls entry hentry := by
    rw [hresults] at hentry
    exact absurd hentry List.not_mem_nil

section Later

variable {e : Engine σ}

theorem monitor_afterCalls (h : Resting e) (hdown : e.monitor.available = false)
    (later : List (Call σ)) : (e.afterCalls later).monitor = e.monitor := by
  induction later with
  | nil => rfl
  | cons call later ih =>
    exact (monitor_perform (h.afterCalls later) (by rw [ih, hdown]) call).trans ih

/-- All generations that are made later have no vectors. -/
theorem vector_afterCalls (h : Resting e) (hdown : e.monitor.available = false)
    (later : List (Call σ)) : ∀ g, (e.afterCalls later).holder.current = some g →
      e.holder.latest < g.number → g.vector = none := by
  induction later with
  | nil =>
    intro g hg hnewer
    exact absurd (h.begun g (Or.inl hg)) (by omega)
  | cons call later ih =>
    intro g hg hnewer
    have hstill : (e.afterCalls later).monitor.available = false := by
      rw [monitor_afterCalls h hdown, hdown]
    rcases current_perform (h.afterCalls later) hstill hg with hbefore | hplain
    · exact ih g hbefore hnewer
    · exact hplain

theorem afterCalls_append (e : Engine σ) (later past : List (Call σ)) :
    e.afterCalls (later ++ past) = (e.afterCalls past).afterCalls later := by
  induction later with
  | nil => rfl
  | cons call later ih => rw [List.cons_append, afterCalls, afterCalls, ih]

end Later

/-- An engine that is new, with an embedder that refuses texts or gives vectors, and whose store of
vectors is given up at some time, be it from the start. From then on the monitor stays as it is, calls
send nothing to the store but orders to drop tables, new generations have no vectors, questions are
given what an engine with neither an embedder nor a store gives that has indexed the same trees, all of
it found by words, and no question is looked up under a key under which something was remembered as
long as the store served. -/
theorem given_as_without_store {e : Engine σ} (hholder : e.holder = {})
    (hresults : e.results = Lru.empty resultRoom)
    (hunbroken : ∀ embedder ∈ e.embedder, embedder.Unbroken) {past : List (Call σ)}
    (hdown : (e.afterCalls past).monitor.available = false) (later : List (Call σ)) :
    (e.afterCalls (later ++ past)).monitor = (e.afterCalls past).monitor ∧
    (∀ call, ∀ r ∈ (e.afterCalls (later ++ past)).requests call, ∃ table, r = .drop table) ∧
    (∀ g, (e.afterCalls (later ++ past)).holder.current = some g →
      (e.afterCalls past).holder.latest < g.number → g.vector = none) ∧
    (∀ explainer session database world calls,
      calls.filter Call.isOfTrees = (later ++ past).filter Call.isOfTrees →
        ∀ q, (e.afterCalls (later ++ past)).given q =
          ((Engine.new e.settings e.parsers none explainer false session e.homeOf database e.disk
            world).afterCalls calls).given q) ∧
    (∀ q answers, (e.afterCalls (later ++ past)).given q = .ok answers →
      ∀ answer ∈ answers, answer.2.2 = .lexical) ∧
    (∀ call before, call :: before <:+ past → (e.afterCalls before).monitor.available = true →
      ∀ entry ∈ (e.afterCalls (call :: before)).results.entries,
        ∀ g q, (e.afterCalls (later ++ past)).resultKey g q ≠ entry.1) := by
  have hnew := resting_of_fresh hholder hresults hunbroken
  have hpast := hnew.afterCalls past
  have hnow := hnew.afterCalls (later ++ past)
  have hmonitor : (e.afterCalls (later ++ past)).monitor = (e.afterCalls past).monitor := by
    rw [afterCalls_append]
    exact monitor_afterCalls hpast hdown later
  have hstill : (e.afterCalls (later ++ past)).monitor.available = false := by
    rw [hmonitor, hdown]
  refine ⟨hmonitor, requests_of_down hstill, ?_, ?_, ?_, ?_⟩
  · rw [afterCalls_append]
    exact vector_afterCalls hpast hdown later
  · intro explainer session database world calls htrees q
    let plain := Engine.new e.settings e.parsers none explainer false session e.homeOf database
      e.disk world
    have hplain : Resting plain := resting_of_fresh rfl rfl (by simp [plain, Engine.new])
    have hmade : Alike e plain := ⟨⟨rfl, rfl, rfl, rfl⟩, by rw [indexes, indexes, hholder]; rfl⟩
    have hnone : (plain.afterCalls calls).monitor.available = false := by
      rw [monitor_afterCalls hplain rfl]
      rfl
    exact (given_eq (hmade.afterCalls hnew hplain htrees) hnow (hplain.afterCalls calls) hstill
      hnone q).symm
  · intro q answers hgiven
    exact lexical_of_given hnow hstill hgiven
  · intro call before _ hserves entry hentry g q hkey
    have hvectors := vectors_of_served (hnew.afterCalls before) hserves call entry hentry
    rw [← hkey, resultKey] at hvectors
    dsimp only at hvectors
    rw [hstill] at hvectors
    exact absurd hvectors (by decide)

/-- One import indexed and found by its vector; after that searches fail, and the next question finds
that out. -/
def lostOnTheWay : List (Call Unit) :=
  [.search { aboutImport with limit := 2 },
    .outside { indexedImport.database with failures := [(.search, "gone")] } (),
    .search aboutImport, .index "/"]

/-- What is found for a question, and how. -/
def briefly (e : Engine σ) (q : Query) : Option (List (String × Backend)) :=
  (e.given q).toOption.map fun answers => answers.map fun answer => (answer.1, answer.2.2)

/-- The import is found by its vector first and remembered so. With the store given up and the
directory indexed once more it is found by its words, as by an engine that has had no store. -/
theorem given_as_without_store_lostOnTheWay :
    let e := Session.oneImport
    let now := e.afterCalls (.index "/" :: lostOnTheWay)
    briefly (e.afterCalls [.index "/"]) aboutImport = some [("a.js:1:x", .vector)] ∧
      (e.afterCalls lostOnTheWay).monitor.available = false ∧
      now.monitor = (e.afterCalls lostOnTheWay).monitor ∧
      now.holder.current.map (fun g => (g.number, g.vector)) = some (2, none) ∧
      (∀ r ∈ now.requests (.index "/"), ∃ table, r = .drop table) ∧
      briefly now aboutImport = some [("a.js:1:x", .lexical)] ∧
      now.given aboutImport = ((Engine.new e.settings e.parsers none none false e.session e.homeOf
        e.database e.disk ()).afterCalls [.index "/", .index "/"]).given aboutImport ∧
      (e.afterCalls [.search aboutImport, .index "/"]).results.entries.length = 1 ∧
      ∀ entry ∈ (e.afterCalls [.search aboutImport, .index "/"]).results.entries,
        ∀ g, now.resultKey g aboutImport ≠ entry.1 := by
  -- what is computed of the engine at four times
  have hfirst : (Session.oneImport.afterCallsWithin 12 [.index "/"]).map (fun e =>
      (briefly e aboutImport, e.monitor.available)) =
        some (some [("a.js:1:x", .vector)], true) := by
    decide +kernel
  have hfound : (Session.oneImport.afterCallsWithin 12 [.search aboutImport, .index "/"]).map
      (·.results.entries.length) = some 1 := by
    decide +kernel
  have hlost : (Session.oneImport.afterCallsWithin 12 lostOnTheWay).map (fun e =>
      (e.monitor.available, e.holder.latest)) = some (false, 1) := by
    decide +kernel
  have hagain : (Session.oneImport.afterCallsWithin 12 (.index "/" :: lostOnTheWay)).map (fun e =>
      (briefly e aboutImport, e.holder.current.map (·.number))) =
        some (some [("a.js:1:x", .lexical)], some 2) := by
    decide +kernel
  obtain ⟨first, hwithin₁, hfirst⟩ := Option.map_eq_some_iff.mp hfirst
  obtain ⟨found, hwithin₂, hfound⟩ := Option.map_eq_some_iff.mp hfound
  obtain ⟨lost, hwithin₃, hlost⟩ := Option.map_eq_some_iff.mp hlost
  obtain ⟨now, hwithin₄, hagain⟩ := Option.map_eq_some_iff.mp hagain
  rw [← afterCalls_of_within hwithin₁, Prod.mk.injEq] at hfirst
  rw [← afterCalls_of_within hwithin₂] at hfound
  rw [← afterCalls_of_within hwithin₃, Prod.mk.injEq] at hlost
  rw [← afterCalls_of_within hwithin₄, Prod.mk.injEq] at hagain
  have hunbroken : ∀ embedder ∈ Session.oneImport.embedder, embedder.Unbroken := by
    intro embedder hembedder text world fault
    obtain rfl : Session.constant = embedder := Option.some.inj hembedder
    simp [Session.constant]
  obtain ⟨hmonitor, hrequests, hvector, hplain, -, hnever⟩ :=
    given_as_without_store (e := Session.oneImport) rfl rfl hunbroken hlost.1 [.index "/"]
  obtain ⟨g, hg, hnumber⟩ := Option.map_eq_some_iff.mp hagain.2
  refine ⟨hfirst.1, hlost.1, hmonitor, ?_, hrequests _, hagain.1,
    hplain none _ _ () [.index "/", .index "/"] rfl aboutImport, hfound, ?_⟩
  · have hplain : g.vector = none := hvector g hg (by rw [hlost.2, hnumber]; decide)
    show (Session.oneImport.afterCalls (.index "/" :: lostOnTheWay)).holder.current.map _ = _
    rw [show (Session.oneImport.afterCalls (.index "/" :: lostOnTheWay)).holder.current = some g
      from hg, Option.map_some, hnumber, hplain]
  · intro entry hentry g
    exact hnever (.search aboutImport) [.index "/"] (List.drop_suffix 2 lostOnTheWay) hfirst.2 entry
      hentry g aboutImport

end CodeSearch.Engine

import CodeSearch.Proofs.Engine.Session
import CodeSearch.Proofs.Vector.Rows

/-!
Which questions are answered.

A question that makes sense and finds an index is answered, by the store of vectors or by the words
of the chunks. Whatever fails on the way leads to the words, with one exception: rows that the
store did return and that cannot be read break the question.
-/
set_option autoImplicit false

namespace CodeSearch.Engine

open CodeSearch.Index (Generation)
open CodeSearch.Search (Query Match Result)
open CodeSearch.Vector (Row Database IsKey Typed Unreadable)

variable {σ : Type}

/-! ## Answers out of what was found -/

/-- An id by which a chunk can be looked for breaks nothing. -/
theorem exists_resultOf (g : Generation) (q : Query) (backend : Backend) {m : Match}
    (hkey : IsKey m.id) : ∃ r, resultOf g q backend m = .ok r := by
  have hnamed : ∃ c, g.chunkNamed m.id = .ok c := by
    rcases hkey with hid | ⟨s, hid⟩ <;> rw [hid] <;> exact ⟨_, rfl⟩
  obtain ⟨c, hc⟩ := hnamed
  unfold resultOf
  rw [hc]
  cases c with
  | none => exact ⟨_, rfl⟩
  | some c => exact ⟨_, rfl⟩

theorem exists_resultsOf (g : Generation) (q : Query) (backend : Backend) {found : List Match}
    (hkeys : ∀ m ∈ found, IsKey m.id) : ∃ results, resultsOf g q backend found = .ok results := by
  obtain ⟨results, hresults⟩ := Vector.exists_mapM_eq_ok_iff.mpr fun m hm =>
    exists_resultOf g q backend (hkeys m hm)
  unfold resultsOf
  rw [hresults]
  exact ⟨_, rfl⟩

/-- What is found by words has the ids of chunks. -/
theorem isKey_matchWords (i : Inquiry) : ∀ m ∈ i.matchWords, IsKey m.id := by
  intro m hm
  unfold Inquiry.matchWords Search.Lexical.query Cut.upTo at hm
  -- the limit and the order leave matches as they are
  have hfound := List.mem_of_mem_take hm
  rw [Search.bestFirst, List.mem_mergeSort] at hfound
  obtain ⟨d, -, hd⟩ := List.mem_filterMap.mp hfound
  unfold Search.Document.match? at hd
  split at hd
  · simp at hd
  · obtain rfl := Option.some.inj hd
    exact Or.inr ⟨_, rfl⟩

/-! ## The way to an end -/

/-- The engine as the next step of a question finds it, when others may take steps of theirs before
that. -/
def Inquiry.shown (interrupt : Moment → Engine σ → Engine σ) (e : Engine σ) (i : Inquiry) :
    Engine σ :=
  match i.moment? e with
  | some moment => interrupt moment e
  | none => e

variable {interrupt : Moment → Engine σ → Engine σ} {e : Engine σ} {i : Inquiry}

theorem complete_of_ended {result : Except Fault (List Result)}
    (h : i.progress = .ended result) : i.complete interrupt e = (result, e) := by
  have hended : i.ending? = some result := by
    rw [Inquiry.ending?, h]
  -- the equation of `complete` holds one step, and there is none left
  rw [Inquiry.complete]
  split
  · rename_i other hother
    rw [hended] at hother
    rw [Option.some.inj hother]
  · rename_i hnone
    rw [hended] at hnone
    exact absurd hnone (by simp)

theorem complete_of_step (h : i.ending? = none) :
    i.complete interrupt e =
      (i.step (i.shown interrupt e)).1.complete interrupt (i.step (i.shown interrupt e)).2 := by
  rw [Inquiry.complete]
  split
  · rename_i result hended
    rw [h] at hended
    exact absurd hended (by simp)
  · rfl

variable {g : Generation} {q : Query} {key : ResultKey}

theorem complete_found {found : List Match} {backend : Backend} {results : List Result}
    (h : resultsOf g q backend found = .ok results) :
    (⟨g, q, .found key found backend⟩ : Inquiry).complete interrupt e =
      (.ok results, { e with results := e.results.put key results }) := by
  have hfinish : (⟨g, q, .found key found backend⟩ : Inquiry).finish e key found backend =
      (.ended (.ok results), { e with results := e.results.put key results }) := by
    unfold Inquiry.finish
    rw [h]
  -- this is the last step but one
  rw [complete_of_step rfl, complete_of_ended]
  · show (_, (Inquiry.finish e _ key found backend).2) = _
    rw [hfinish]
  · show (Inquiry.finish e _ key found backend).1 = _
    rw [hfinish]

/-- A question that is answered by its words is answered. -/
theorem complete_byWords (interrupt : Moment → Engine σ → Engine σ) (e : Engine σ) (g : Generation)
    (q : Query) (key : ResultKey) :
    ∃ results, resultsOf g q .lexical (Inquiry.matchWords ⟨g, q, .byWords key⟩) = .ok results ∧
      (⟨g, q, .byWords key⟩ : Inquiry).complete interrupt e =
        (.ok results, { e with results := e.results.put key results }) := by
  obtain ⟨results, hresults⟩ :=
    exists_resultsOf g q .lexical (isKey_matchWords ⟨g, q, .byWords key⟩)
  refine ⟨results, hresults, ?_⟩
  rw [complete_of_step rfl]
  exact complete_found hresults

/-- What the words of a generation answer to a question. -/
def ByWords (g : Generation) (q : Query) (results : List Result) : Prop :=
  resultsOf g q .lexical (g.lexical.query (q.text.getD "") q.kind q.limit) = .ok results

section Searching

variable (interrupt g key) {index : Vector.VectorIndex} {v : List Float} {rows : List Row}
  {asked : Database}

theorem complete_searching :
    (⟨g, q, .searching key index v⟩ : Inquiry).complete interrupt e =
      (⟨g, q, ((⟨g, q, .searching key index v⟩ : Inquiry).search e key index v).1⟩ :
        Inquiry).complete interrupt
          ((⟨g, q, .searching key index v⟩ : Inquiry).search e key index v).2 :=
  complete_of_step rfl

/-- A search that fails is answered by words, and the store is given up. -/
theorem complete_searching_unavailable {reason : String}
    (h : e.database.search index.collection v q.limit (Vector.askedClause q.kind) = .error reason) :
    ∃ results, ByWords g q results ∧
      ((⟨g, q, .searching key index v⟩ : Inquiry).complete interrupt e).1 = .ok results ∧
      ((⟨g, q, .searching key index v⟩ : Inquiry).complete interrupt e).2.monitor.available =
        false := by
  rw [complete_searching]
  unfold Inquiry.search
  dsimp only
  rw [Vector.query_of_search_error h]
  obtain ⟨results, hresults, hcomplete⟩ := complete_byWords interrupt
    (e.markDown (Vector.Unavailable.searching index.collection reason).message) g q key
  refine ⟨results, hresults, ?_, ?_⟩
  · exact congrArg Prod.fst hcomplete
  · refine (congrArg (fun r => r.2.monitor.available) hcomplete).trans ?_
    exact available_markDown e _

/-- A search whose rows can be read is answered. -/
theorem complete_searching_readable
    (h : e.database.search index.collection v q.limit (Vector.askedClause q.kind) =
      .ok (rows, asked))
    (htyped : ∀ row ∈ rows, Typed row) (hreadable : ∀ row ∈ rows, ¬ Unreadable row) :
    ∃ results, ((⟨g, q, .searching key index v⟩ : Inquiry).complete interrupt e).1 =
      .ok results := by
  obtain ⟨found, hquery, hkeys⟩ := Vector.query_of_readable h htyped hreadable
  obtain ⟨results, hresults⟩ := exists_resultsOf g q .vector hkeys
  rw [complete_searching]
  unfold Inquiry.search
  dsimp only
  rw [hquery]
  exact ⟨results, congrArg Prod.fst (complete_found hresults)⟩

/-- A search with a row that cannot be read breaks the question. -/
theorem complete_searching_unreadable
    (h : e.database.search index.collection v q.limit (Vector.askedClause q.kind) =
      .ok (rows, asked))
    (htyped : ∀ row ∈ rows, Typed row) {row : Row} (hrow : row ∈ rows) (hbad : Unreadable row) :
    ∃ fault, ((⟨g, q, .searching key index v⟩ : Inquiry).complete interrupt e).1 =
      .error fault := by
  obtain ⟨fault, hquery⟩ := Vector.query_of_unreadable h htyped hrow hbad
  rw [complete_searching]
  unfold Inquiry.search
  dsimp only
  rw [hquery, complete_of_ended rfl]
  exact ⟨fault, rfl⟩

end Searching

/-! ## Questions that search -/

/-- The engine as it is when the text of a question is embedded. -/
def atEmbedding (interrupt : Moment → Engine σ → Engine σ) (e : Engine σ) (q : Query) :
    Engine σ :=
  if e.embedder.isSome then interrupt (.embed (q.text.getD "")) e else e

/-- What the embedder makes of the text of a question. -/
def embedding (interrupt : Moment → Engine σ → Engine σ) (e : Engine σ) (q : Query) :
    Embedding.Outcome :=
  ((atEmbedding interrupt e q).pipeline.embedQuery (q.text.getD "")
    (atEmbedding interrupt e q).world).1

theorem embedding_eq {embedder : Embedding.Embedder σ}
    (hinterrupt : ∀ moment e, (interrupt moment e).embedder = e.embedder)
    (hembedder : e.embedder = some embedder) :
    embedding interrupt e q =
      (embedder.embed (q.text.getD "") (atEmbedding interrupt e q).world).1 := by
  have hthere : (atEmbedding interrupt e q).embedder = some embedder := by
    unfold atEmbedding
    split
    · rw [hinterrupt, hembedder]
    · exact hembedder
  unfold embedding Engine.pipeline Embedding.Pipeline.embedQuery Embedding.Pipeline.new
  rw [hthere]

/-- A question comes to a search in the store of vectors with some outcome: no answer to it is
remembered, the store serves, the generation has vectors, and the text was embedded. -/
structure Searches (interrupt : Moment → Engine σ → Engine σ) (e : Engine σ) (g : Generation)
    (q : Query) (outcome : Except String (List Row × Database)) : Prop where
  forgotten : e.results.get? (e.resultKey g q) = none
  serves : e.monitor.available = true
  search : ∃ index v, g.vector = some index ∧ embedding interrupt e q = .vector v ∧
    (atEmbedding interrupt e q).database.search index.collection v q.limit
      (Vector.askedClause q.kind) = outcome

theorem shown_embedding {index : Vector.VectorIndex} :
    Inquiry.shown interrupt e ⟨g, q, .embedding key index⟩ = atEmbedding interrupt e q := by
  unfold Inquiry.shown Inquiry.moment? atEmbedding
  dsimp only
  cases e.embedder.isSome with
  | true => rfl
  | false => rfl

/-- A vector leads to a search in the database as it is then. -/
theorem complete_embedding_vector (g : Generation) (key : ResultKey) (index : Vector.VectorIndex)
    {v : List Float} (h : embedding interrupt e q = .vector v) :
    ∃ after : Engine σ, after.database = (atEmbedding interrupt e q).database ∧
      (⟨g, q, .embedding key index⟩ : Inquiry).complete interrupt e =
        (⟨g, q, .searching key index v⟩ : Inquiry).complete interrupt after := by
  -- others may change the engine before the text is embedded; the search finds it as they left it
  let shown := atEmbedding interrupt e q
  let world := (shown.pipeline.embedQuery (q.text.getD "") shown.world).2
  refine ⟨{ shown with world := world }, rfl, ?_⟩
  have hstep : (⟨g, q, .embedding key index⟩ : Inquiry).step shown =
      (⟨g, q, .searching key index v⟩, { shown with world := world }) := by
    unfold Inquiry.step Inquiry.advance Inquiry.embed
    dsimp only
    have hvector : (shown.pipeline.embedQuery (q.text.getD "") shown.world).1 = .vector v := h
    rw [hvector]
  rw [complete_of_step rfl, shown_embedding, hstep]

/-- A text that is not embedded is answered by words. -/
theorem complete_embedding_failure (g : Generation) (key : ResultKey)
    (index : Vector.VectorIndex) {reason : Embedding.Failure}
    (h : embedding interrupt e q = .failure reason) :
    ∃ results, ByWords g q results ∧
      ((⟨g, q, .embedding key index⟩ : Inquiry).complete interrupt e).1 = .ok results := by
  let shown := atEmbedding interrupt e q
  let world := (shown.pipeline.embedQuery (q.text.getD "") shown.world).2
  have hstep : (⟨g, q, .embedding key index⟩ : Inquiry).step shown =
      (⟨g, q, .byWords key⟩, { shown with world := world }.warn [notEmbedded reason]) := by
    unfold Inquiry.step Inquiry.advance Inquiry.embed
    dsimp only
    have hfailure : (shown.pipeline.embedQuery (q.text.getD "") shown.world).1 =
        .failure reason := h
    rw [hfailure]
  rw [complete_of_step rfl, shown_embedding, hstep]
  obtain ⟨results, hresults, hcomplete⟩ :=
    complete_byWords interrupt ({ shown with world := world }.warn [notEmbedded reason]) g q key
  exact ⟨results, hresults, congrArg Prod.fst hcomplete⟩

/-- A text on which the embedder breaks breaks the question. -/
theorem complete_embedding_crash (g : Generation) (key : ResultKey) (index : Vector.VectorIndex)
    {fault : Fault} (h : embedding interrupt e q = .crash fault) :
    ((⟨g, q, .embedding key index⟩ : Inquiry).complete interrupt e).1 = .error fault := by
  let shown := atEmbedding interrupt e q
  let world := (shown.pipeline.embedQuery (q.text.getD "") shown.world).2
  have hstep : (⟨g, q, .embedding key index⟩ : Inquiry).step shown =
      (⟨g, q, .ended (.error fault)⟩, { shown with world := world }) := by
    unfold Inquiry.step Inquiry.advance Inquiry.embed
    dsimp only
    have hcrash : (shown.pipeline.embedQuery (q.text.getD "") shown.world).1 = .crash fault := h
    rw [hcrash]
  rw [complete_of_step rfl, shown_embedding, hstep, complete_of_ended rfl]

theorem complete_remembered {results : List Result}
    (h : e.results.get? (e.resultKey g q) = some results) :
    ((⟨g, q, .opened⟩ : Inquiry).complete interrupt e).1 = .ok results := by
  have hstep : (⟨g, q, .opened⟩ : Inquiry).step e =
      (⟨g, q, .ended (.ok results)⟩,
        { e with results := e.results.touch (e.resultKey g q) }) := by
    unfold Inquiry.step Inquiry.advance Inquiry.open
    dsimp only
    rw [h]
  rw [complete_of_step rfl]
  show ((Inquiry.step e _).1.complete interrupt _).1 = _
  rw [hstep, complete_of_ended rfl]

theorem complete_forgotten (h : e.results.get? (e.resultKey g q) = none) :
    (⟨g, q, .opened⟩ : Inquiry).complete interrupt e =
      (⟨g, q, (⟨g, q, .choosing (e.resultKey g q)⟩ : Inquiry).choose e (e.resultKey g q)⟩ :
        Inquiry).complete interrupt e := by
  have hstep : (⟨g, q, .opened⟩ : Inquiry).step e =
      (⟨g, q, .choosing (e.resultKey g q)⟩, e) := by
    unfold Inquiry.step Inquiry.advance Inquiry.open
    dsimp only
    rw [h]
  rw [complete_of_step rfl]
  show (Inquiry.step e _).1.complete interrupt (Inquiry.step e _).2 = _
  rw [hstep, complete_of_step rfl]
  rfl

/-- A question comes to the point where its text is embedded: no answer to it is remembered, the store
serves, and the generation has vectors. -/
structure Embeds (e : Engine σ) (g : Generation) (q : Query) : Prop where
  forgotten : e.results.get? (e.resultKey g q) = none
  serves : e.monitor.available = true
  vector : g.vector.isSome = true

theorem complete_of_embeds (interrupt : Moment → Engine σ → Engine σ) (h : Embeds e g q) :
    ∃ index, g.vector = some index ∧ (⟨g, q, .opened⟩ : Inquiry).complete interrupt e =
      (⟨g, q, .embedding (e.resultKey g q) index⟩ : Inquiry).complete interrupt e := by
  obtain ⟨index, hindex⟩ := Option.isSome_iff_exists.mp h.vector
  -- the store is chosen, as it serves and there are vectors
  have hchoose : (⟨g, q, .choosing (e.resultKey g q)⟩ : Inquiry).choose e (e.resultKey g q) =
      .embedding (e.resultKey g q) index := by
    unfold Inquiry.choose
    dsimp only
    rw [hindex]
    exact if_pos h.serves
  exact ⟨index, hindex, by rw [complete_forgotten h.forgotten, hchoose]⟩

/-- A question whose text is not embedded is answered as it is remembered or by words. -/
theorem complete_of_not_embeds (interrupt : Moment → Engine σ → Engine σ) (h : ¬ Embeds e g q) :
    ∃ results, ((⟨g, q, .opened⟩ : Inquiry).complete interrupt e).1 = .ok results ∧
      (e.results.get? (e.resultKey g q) = some results ∨ ByWords g q results) := by
  cases hremembered : e.results.get? (e.resultKey g q) with
  | some results => exact ⟨results, complete_remembered hremembered, Or.inl rfl⟩
  | none =>
    obtain ⟨results, hwords, hcomplete⟩ := complete_byWords interrupt e g q (e.resultKey g q)
    have hchoose : (⟨g, q, .choosing (e.resultKey g q)⟩ : Inquiry).choose e (e.resultKey g q) =
        .byWords (e.resultKey g q) := by
      unfold Inquiry.choose
      dsimp only
      cases hvector : g.vector with
      | none => rfl
      | some index => exact if_neg fun hserves => h ⟨hremembered, hserves, by rw [hvector]; rfl⟩
    rw [complete_forgotten hremembered, hchoose, hcomplete]
    exact ⟨results, rfl, Or.inr hwords⟩

/-- A question that searches ends as its search does. -/
theorem complete_of_searches {outcome : Except String (List Row × Database)}
    (h : Searches interrupt e g q outcome) :
    ∃ (after : Engine σ) (key : ResultKey) (index : Vector.VectorIndex) (v : List Float),
      after.database.search index.collection v q.limit (Vector.askedClause q.kind) = outcome ∧
        (⟨g, q, .opened⟩ : Inquiry).complete interrupt e =
          (⟨g, q, .searching key index v⟩ : Inquiry).complete interrupt after := by
  obtain ⟨hforgotten, hserves, index, v, hvector, hembedded, hsearch⟩ := h
  obtain ⟨found, hfound, hcomplete⟩ := complete_of_embeds interrupt
    ⟨hforgotten, hserves, by rw [hvector]; rfl⟩
  obtain rfl : found = index := Option.some.inj (hfound.symm.trans hvector)
  obtain ⟨after, hdatabase, hsearching⟩ :=
    complete_embedding_vector g (e.resultKey g q) found hembedded
  exact ⟨after, e.resultKey g q, found, v, by rw [hdatabase]; exact hsearch,
    hcomplete.trans hsearching⟩

/-- A question that does not search is answered as it is remembered or by words, unless the embedder
breaks. -/
theorem complete_of_not_searches (hsearch : ∀ outcome, ¬ Searches interrupt e g q outcome)
    (hembed : ∀ fault, embedding interrupt e q ≠ .crash fault) :
    ∃ results, ((⟨g, q, .opened⟩ : Inquiry).complete interrupt e).1 = .ok results ∧
      (e.results.get? (e.resultKey g q) = some results ∨ ByWords g q results) := by
  by_cases hembeds : Embeds e g q
  · obtain ⟨index, hvector, hcomplete⟩ := complete_of_embeds interrupt hembeds
    rw [hcomplete]
    cases houtcome : embedding interrupt e q with
    | vector v =>
      exact absurd ⟨hembeds.forgotten, hembeds.serves, index, v, hvector, houtcome, rfl⟩ (hsearch _)
    | failure reason =>
      obtain ⟨results, hwords, hresults⟩ :=
        complete_embedding_failure g (e.resultKey g q) index houtcome
      exact ⟨results, hresults, Or.inr hwords⟩
    | crash fault => exact absurd houtcome (hembed fault)
  · exact complete_of_not_embeds interrupt hembeds

/-! ## Which questions are answered -/

/-- A question is put if it makes sense and there is a generation to answer it. -/
theorem ask_eq_ok_iff : e.ask q = .ok i ↔
    q.objection? = none ∧ ∃ g, e.ready = .ok g ∧ i = ⟨g, q, .opened⟩ := by
  unfold Engine.ask
  cases q.objection? with
  | some objection => simp
  | none =>
    cases e.ready with
    | error n => simp
    | ok g => simp [eq_comm]

theorem ask_of_ready (hvalid : q.objection? = none) (hready : e.ready = .ok g) :
    e.ask q = .ok ⟨g, q, .opened⟩ :=
  ask_eq_ok_iff.mpr ⟨hvalid, g, hready, rfl⟩

theorem answered_of_ask (interrupt : Moment → Engine σ → Engine σ) (h : e.ask q = .ok i) :
    (∀ results, (e.answered interrupt q).1 = .ok (i.generation, results) ↔
      (i.complete interrupt e).1 = .ok results) ∧
    (e.answered interrupt q).2 = (i.complete interrupt e).2 := by
  unfold answered
  rw [h]
  dsimp only
  split
  · rename_i results after hcomplete
    rw [hcomplete]
    refine ⟨fun results' => ?_, rfl⟩
    simp
  · rename_i fault after hcomplete
    rw [hcomplete]
    refine ⟨fun results' => ?_, rfl⟩
    simp

/-- A question that makes sense and finds an index, with an embedder that gives a vector or refuses,
is answered exactly if no search of it returns a row that cannot be read. If its search fails, the
words of the chunks answer it and the store is given up; if it does not search, the words do unless
an answer is remembered. -/
theorem answered_iff_readable {interrupt : Moment → Engine σ → Engine σ} {e : Engine σ} {q : Query}
    {g : Generation} (hvalid : q.objection? = none) (hready : e.ready = .ok g)
    (hembed : ∀ fault, embedding interrupt e q ≠ .crash fault)
    (htyped : ∀ rows asked, Searches interrupt e g q (.ok (rows, asked)) →
      ∀ row ∈ rows, Typed row) :
    ((∃ results, (e.answered interrupt q).1 = .ok (g, results)) ↔
      ∀ rows asked, Searches interrupt e g q (.ok (rows, asked)) →
        ∀ row ∈ rows, ¬ Unreadable row) ∧
    (∀ reason, Searches interrupt e g q (.error reason) →
      ∃ results, ByWords g q results ∧ (e.answered interrupt q).1 = .ok (g, results) ∧
        (e.answered interrupt q).2.monitor.available = false) ∧
    ((∀ outcome, ¬ Searches interrupt e g q outcome) →
      ∃ results, (e.answered interrupt q).1 = .ok (g, results) ∧
        (e.results.get? (e.resultKey g q) = some results ∨ ByWords g q results)) := by
  have hask : e.ask q = .ok ⟨g, q, .opened⟩ := by
    unfold Engine.ask
    rw [hvalid, hready]
  obtain ⟨hanswer, hafter⟩ := answered_of_ask interrupt hask
  refine ⟨⟨?_, ?_⟩, ?_, ?_⟩
  · -- a row that cannot be read breaks the question
    rintro ⟨results, hresults⟩ rows asked hsearches row hrow hbad
    obtain ⟨after, key, index, v, hsearch, hcomplete⟩ := complete_of_searches hsearches
    obtain ⟨fault, hfault⟩ := complete_searching_unreadable interrupt g key hsearch
      (htyped rows asked hsearches) hrow hbad
    have hok := (hanswer results).mp hresults
    rw [hcomplete, hfault] at hok
    exact absurd hok (by simp)
  · intro hreadable
    suffices ∃ results, ((⟨g, q, .opened⟩ : Inquiry).complete interrupt e).1 = .ok results from
      this.imp fun results hresults => (hanswer results).mpr hresults
    -- either the question searches, with one outcome, or it ends without
    by_cases hany : ∃ outcome, Searches interrupt e g q outcome
    · obtain ⟨outcome, hsearches⟩ := hany
      obtain ⟨after, key, index, v, hsearch, hcomplete⟩ := complete_of_searches hsearches
      rw [hcomplete]
      cases outcome with
      | error reason =>
        obtain ⟨results, -, hresults, -⟩ :=
          complete_searching_unavailable interrupt g key hsearch
        exact ⟨results, hresults⟩
      | ok found =>
        exact complete_searching_readable interrupt g key hsearch (htyped _ _ hsearches)
          (hreadable _ _ hsearches)
    · obtain ⟨results, hresults, -⟩ := complete_of_not_searches
        (fun outcome hsearches => hany ⟨outcome, hsearches⟩) hembed
      exact ⟨results, hresults⟩
  · intro reason hsearches
    obtain ⟨after, key, index, v, hsearch, hcomplete⟩ := complete_of_searches hsearches
    obtain ⟨results, hwords, hresults, hdown⟩ :=
      complete_searching_unavailable interrupt g key hsearch
    refine ⟨results, hwords, (hanswer results).mpr ?_, ?_⟩
    · rw [hcomplete, hresults]
    · rw [hafter, hcomplete, hdown]
  · intro hnone
    obtain ⟨results, hresults, hfrom⟩ := complete_of_not_searches hnone hembed
    exact ⟨results, (hanswer results).mpr hresults, hfrom⟩

/-- An engine that has indexed one import, with its vector. -/
def indexedImport : Engine Unit :=
  (Session.after Session.oneImport (Session.indexing 0 11)).engine

/-- The same engine, with a store whose next search returns given rows. -/
def returning (rows : List Row) : Engine Unit :=
  { indexedImport with database := { indexedImport.database with answer := some rows } }

/-- A question about the import. -/
def aboutImport : Query := { text := some "x", threshold := .whole 0 }

theorem valid_aboutImport : aboutImport.objection? = none :=
  Option.isNone_iff_eq_none.mp (by decide +kernel)

/-- Nobody else does anything. -/
def alone : Moment → Engine Unit → Engine Unit := fun _ e => e

/-- A row without anything but a distance that is null. -/
def nullDistance : Row := [("id", .text "a.js:1:x"), ("_distance", .null)]

theorem atEmbedding_alone (e : Engine Unit) (q : Query) : atEmbedding alone e q = e :=
  ite_self e

theorem embedding_returning (rows : List Row) :
    embedding alone (returning rows) aboutImport = .vector [1.0] := by
  -- no step has changed the embedder, so it need not be computed
  have hsame := (Session.sameServices_after Session.oneImport (Session.indexing 0 11)).embedder
  have hembedder : (returning rows).embedder = some Session.constant := hsame
  exact embedding_eq (fun _ _ => rfl) hembedder

theorem eq_ok_of_toOption {ε α : Type} {x : Except ε α} {a : α} (h : x.toOption = some a) :
    x = .ok a := by
  cases x with
  | error fault => exact absurd h (by simp [Except.toOption])
  | ok b => rw [Option.some.inj h]

/-- The question is put to the store, which returns the rows. -/
theorem searches_returning (rows : List Row) :
    ∃ g asked, (returning rows).ready = .ok g ∧
      Searches alone (returning rows) g aboutImport (.ok (rows, asked)) := by
  -- what the engine holds after indexing is computed
  have hready : indexedImport.ready.toOption.map (·.vector) =
      some (some ⟨"codebase_embeddings_session_1", 1⟩) := by
    decide +kernel
  have hthere : (indexedImport.database.rows? "codebase_embeddings_session_1").isSome = true := by
    decide +kernel
  have hhealthy : indexedImport.database.failures.isEmpty = true := by
    decide +kernel
  have hforgotten : indexedImport.results.entries.isEmpty = true := by
    decide +kernel
  have hserves : indexedImport.monitor.available = true := by
    decide +kernel
  obtain ⟨g, hg, hvector⟩ := Option.map_eq_some_iff.mp hready
  have hg' := eq_ok_of_toOption hg
  have hhealthy' : (returning rows).database.failures = [] := List.isEmpty_iff.mp hhealthy
  have hthere' : ((returning rows).database.rows? "codebase_embeddings_session_1").isSome = true :=
    hthere
  obtain ⟨asked, hsearch⟩ : ∃ asked, (returning rows).database.search
      "codebase_embeddings_session_1" [1.0] aboutImport.limit
        (Vector.askedClause aboutImport.kind) = .ok (rows, asked) :=
    Vector.search_of_answer rfl hhealthy' hthere'
  refine ⟨g, asked, hg', ?_, hserves, _, [1.0], hvector, embedding_returning rows, ?_⟩
  · show indexedImport.results.entries.lookup _ = none
    rw [List.isEmpty_iff.mp hforgotten]
    rfl
  · rw [atEmbedding_alone]
    exact hsearch

/-- A question that makes sense is not answered if the store returns a row whose distance is
null. -/
theorem not_answered_of_nullDistance :
    ∃ g asked, aboutImport.objection? = none ∧ (returning [nullDistance]).ready = .ok g ∧
      embedding alone (returning [nullDistance]) aboutImport = .vector [1.0] ∧
      Searches alone (returning [nullDistance]) g aboutImport (.ok ([nullDistance], asked)) ∧
      Typed nullDistance ∧
      ∀ results, ((returning [nullDistance]).answered alone aboutImport).1 ≠ .ok (g, results) := by
  obtain ⟨g, asked, hready, hsearches⟩ := searches_returning [nullDistance]
  -- the question is put, and nothing comes of it
  have hfails :
      ((returning [nullDistance]).answered alone aboutImport).1.toOption.isNone = true := by
    decide +kernel
  have htyped : Typed nullDistance := by
    refine ⟨?_, ?_, ?_⟩
    · intro v hv
      exact Or.inr ⟨_, (Option.some.inj hv).symm⟩
    · intro v hv
      exact Or.inl (Option.some.inj hv).symm
    · intro v hv
      exact absurd hv (by simp [nullDistance, Value.find?])
  refine ⟨g, asked, valid_aboutImport, hready, embedding_returning _, hsearches, htyped, ?_⟩
  intro results hresults
  rw [hresults] at hfails
  exact absurd hfails (by simp [Except.toOption])

/-- A row of which hardly anything is there is read all the same. -/
theorem answered_iff_readable_bareRow :
    ∃ g results, aboutImport.objection? = none ∧
      (returning [[("id", .text "a.js:1:x"), ("dependencies", .null)]]).ready = .ok g ∧
      ((returning [[("id", .text "a.js:1:x"), ("dependencies", .null)]]).answered alone
        aboutImport).1 = .ok (g, results) := by
  let row : Row := [("id", .text "a.js:1:x"), ("dependencies", .null)]
  have hvalid := valid_aboutImport
  obtain ⟨g, asked, hready, -⟩ := searches_returning [row]
  have hrows : ∀ rows asked, Searches alone (returning [row]) g aboutImport (.ok (rows, asked)) →
      rows = [row] := by
    rintro rows asked ⟨-, -, index, v, -, -, hsearch⟩
    rw [atEmbedding_alone] at hsearch
    exact Vector.rows_of_answer rfl hsearch
  have htyped : Typed row := by
    refine ⟨?_, ?_, ?_⟩
    · intro v hv
      exact Or.inr ⟨_, (Option.some.inj hv).symm⟩
    · intro v hv
      exact absurd hv (by simp [row, Value.find?])
    · intro v hv
      exact Or.inl (Option.some.inj hv).symm
  have hreadable : ¬ Unreadable row := by
    rintro (hnull | ⟨s, htext, -⟩)
    · exact absurd hnull (by simp [row, Value.find?])
    · exact absurd htext (by simp [row, Value.find?])
  have hembed : ∀ fault, embedding alone (returning [row]) aboutImport ≠ .crash fault := by
    intro fault
    rw [embedding_returning]
    simp
  have hall : ∀ {P : Row → Prop}, P row → ∀ rows asked,
      Searches alone (returning [row]) g aboutImport (.ok (rows, asked)) → ∀ r ∈ rows, P r := by
    intro P hrow rows asked hsearches r hr
    rw [hrows rows asked hsearches, List.mem_singleton] at hr
    rwa [hr]
  obtain ⟨hanswered, -⟩ := answered_iff_readable hvalid hready hembed (hall htyped)
  obtain ⟨results, hresults⟩ := hanswered.mpr (hall hreadable)
  exact ⟨g, results, hvalid, hready, hresults⟩

end CodeSearch.Engine

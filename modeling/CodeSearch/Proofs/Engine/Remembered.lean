import CodeSearch.Proofs.Engine.WholeCalls
import CodeSearch.Proofs.Engine.WordAnswers

/-!
What is remembered of earlier answers.

An answer is remembered by the question and by whether the store of vectors was to be asked, and not
by whether the question could be embedded. So an answer by words, given because the embedder refused
the question, is given again when the embedder takes it. Here questions are put one after the other
to an engine whose store always answers, as some function says, and whose embedder may refuse any
question at any time: what is given is what the engine would give without its memory exactly if
what the embedder said when the answer was found leads to the answer that it leads to now.
-/
set_option autoImplicit false

namespace CodeSearch.Engine

open CodeSearch.Index (Generation)
open CodeSearch.Search
open CodeSearch.Vector (Row Hit VectorIndex askedClause askedKind similarityOf)

variable {σ : Type}

/-! ## Questions one after the other -/

/-- How the rows for a vector, a limit and a kind are chosen by a store. -/
abbrev Finder := List Float → Int → Option String → List Row

/-- The vector of a text that is embedded. -/
def vector? : Embedding.Outcome → Option (List Float)
  | .vector v => some v
  | _ => none

/-- The engine with a store that is going to answer a search of a question as a function says. -/
def stocked (find : Finder) (e : Engine σ) (q : Query) : Engine σ :=
  { e with database := { e.database with
      answer := (vector? (embedding undisturbed e q)).map fun v =>
        find v q.limit (askedKind q.kind) } }

/-- A question put to the engine. -/
def answeredWith (find : Finder) (e : Engine σ) (q : Query) :
    Except InquiryFault (Generation × List Result) × Engine σ :=
  (stocked find e q).answered undisturbed q

/-- The engine after some questions, the last one first. -/
def afterAnswering (find : Finder) (e : Engine σ) : List Query → Engine σ
  | [] => e
  | q :: past => (answeredWith find (afterAnswering find e past) q).2

/-- The results for a question out of the rows that a store has found. -/
def resultsOfRows (g : Generation) (q : Query) (rows : List Row) : Except Fault (List Result) := do
  let hits ← rows.mapM Hit.ofRow
  resultsOf g q .vector <| bestFirst Match.similarity <|
    hits.map fun hit => ⟨hit.id, similarityOf hit.distance⟩

/-- The results for a question out of the words of a generation. -/
def resultsOfWords (g : Generation) (q : Query) : Except Fault (List Result) :=
  resultsOf g q .lexical (g.lexical.query (q.text.getD "") q.kind q.limit)

/-- Whether questions are to be answered by vectors: there are some, and their store serves. -/
def asksStore (e : Engine σ) (g : Generation) : Bool :=
  g.vector.isSome && e.monitor.available

/-- The results for a question, by what the embedder says to its text. -/
def resultsFrom (find : Finder) (e : Engine σ) (g : Generation) (q : Query)
    (said : Embedding.Outcome) : Except Fault (List Result) :=
  if asksStore e g then
    match said with
    | .vector v => resultsOfRows g q (find v q.limit (askedKind q.kind))
    | .failure _ => resultsOfWords g q
    | .crash fault => .error fault
  else resultsOfWords g q

/-- Results as they are given, with their generation. -/
def withGeneration (g : Generation) : Except Fault (List Result) →
    Except InquiryFault (Generation × List Result)
  | .ok results => .ok (g, results)
  | .error fault => .error (.broken fault)

/-- An engine that answers from a generation, with a store that does not fail. -/
structure Serving (e : Engine σ) (g : Generation) : Prop where
  ready : e.ready = .ok g
  healthy : e.database.failures = []
  there : ∀ index, g.vector = some index → (e.database.rows? index.collection).isSome = true

variable {e : Engine σ} {g : Generation} {index : VectorIndex} {q : Query}

/-! ## One question -/

theorem shown_undisturbed (e : Engine σ) (i : Inquiry) : i.shown undisturbed e = e := by
  unfold Inquiry.shown
  split
  · rfl
  · rfl

theorem complete_undisturbed {i : Inquiry} (h : i.ending? = none) :
    i.complete undisturbed e = (i.step e).1.complete undisturbed (i.step e).2 := by
  rw [complete_of_step h, shown_undisturbed]

theorem atEmbedding_undisturbed (e : Engine σ) (q : Query) : atEmbedding undisturbed e q = e :=
  ite_self e

theorem embedding_undisturbed {embedder : Embedding.Embedder σ} (h : e.embedder = some embedder)
    (q : Query) : embedding undisturbed e q = (embedder.embed (q.text.getD "") e.world).1 := by
  have hcame : embedding undisturbed e q = _ := embedding_eq (fun _ _ => rfl) h
  rw [hcame, atEmbedding_undisturbed]

/-- What is given for a question is what its steps end with. -/
theorem answered_of_ready {e : Engine σ} (hvalid : q.objection? = none) (hready : e.ready = .ok g) :
    e.answered undisturbed q =
      (withGeneration g ((⟨g, q, .opened⟩ : Inquiry).complete undisturbed e).1,
        ((⟨g, q, .opened⟩ : Inquiry).complete undisturbed e).2) := by
  unfold answered
  rw [ask_of_ready hvalid hready]
  dsimp only
  split
  · rename_i results after hcomplete
    rw [hcomplete]
    rfl
  · rename_i fault after hcomplete
    rw [hcomplete]
    rfl

/-- What answering a question leaves as it is. -/
structure Untouched (e after : Engine σ) : Prop where
  holder : after.holder = e.holder
  settings : after.settings = e.settings
  embedder : after.embedder = e.embedder
  monitor : after.monitor = e.monitor
  failures : after.database.failures = e.database.failures
  tables : after.database.tables = e.database.tables

theorem untouched_stocked (find : Finder) (e : Engine σ) (q : Query) :
    Untouched e (stocked find e q) :=
  ⟨rfl, rfl, rfl, rfl, rfl, rfl⟩

theorem Untouched.trans {e' after : Engine σ} (h : Untouched e e') (h' : Untouched e' after) :
    Untouched e after where
  holder := h'.holder.trans h.holder
  settings := h'.settings.trans h.settings
  embedder := h'.embedder.trans h.embedder
  monitor := h'.monitor.trans h.monitor
  failures := h'.failures.trans h.failures
  tables := h'.tables.trans h.tables

theorem Untouched.serving {after : Engine σ} (h : Untouched e after) (hserving : Serving e g) :
    Serving after g where
  ready := by
    rw [Engine.ready, h.holder, h.settings]
    exact hserving.ready
  healthy := by
    rw [h.failures]
    exact hserving.healthy
  there := by
    intro index hindex
    rw [Vector.Database.rows?, h.tables]
    exact hserving.there index hindex

theorem Untouched.resultKey {after : Engine σ} (h : Untouched e after) (g : Generation)
    (q : Query) : after.resultKey g q = e.resultKey g q := by
  unfold Engine.resultKey
  rw [h.monitor]

theorem Untouched.resultsFrom {after : Engine σ} (h : Untouched e after) (find : Finder)
    (g : Generation) (q : Query) : resultsFrom find after g q = resultsFrom find e g q := by
  funext said
  unfold Engine.resultsFrom asksStore
  rw [h.monitor]

/-- The search of a question in a stocked store gives what the function says. -/
theorem search_stocked (find : Finder) (hserving : Serving e g) (hindex : g.vector = some index)
    {v : List Float} (hvector : embedding undisturbed e q = .vector v) :
    ∃ asked, (stocked find e q).database.search index.collection v q.limit (askedClause q.kind) =
        .ok (find v q.limit (askedKind q.kind), asked) ∧
      asked.failures = e.database.failures ∧ asked.tables = e.database.tables := by
  obtain ⟨stored, hstored⟩ := Option.isSome_iff_exists.mp (hserving.there index hindex)
  have hanswer : (stocked find e q).database.answer = some (find v q.limit (askedKind q.kind)) := by
    show Option.map _ (vector? (embedding undisturbed e q)) = _
    rw [hvector]
    rfl
  have hhealthy : (stocked find e q).database.failures = [] := hserving.healthy
  have hthere : (stocked find e q).database.rows? index.collection = some stored := hstored
  unfold Vector.Database.search Vector.Database.openTable
  rw [Vector.Database.check_of_healthy hhealthy, Vector.Database.check_of_healthy hhealthy, hthere,
    hanswer]
  exact ⟨_, rfl, rfl, rfl⟩

/-- A question has ended: results are remembered, and a fault is not. -/
structure Ended (e : Engine σ) (key : ResultKey) (outcome : Except Fault (List Result))
    (after : Engine σ) : Prop where
  untouched : Untouched e after
  kept : ∀ results, outcome = .ok results → after.results = e.results.put key results
  dropped : ∀ fault, outcome = .error fault → after.results = e.results

theorem ended_found (e : Engine σ) (g : Generation) (q : Query) (key : ResultKey)
    (found : List Match) (backend : Backend) :
    ∃ after, (⟨g, q, .found key found backend⟩ : Inquiry).complete undisturbed e =
        (resultsOf g q backend found, after) ∧
      Ended e key (resultsOf g q backend found) after := by
  cases houtcome : resultsOf g q backend found with
  | ok results =>
    refine ⟨_, complete_found houtcome, ⟨rfl, rfl, rfl, rfl, rfl, rfl⟩, ?_, ?_⟩
    · intro results' hresults
      rw [← Except.ok.inj hresults]
    · intro fault hfault
      exact absurd hfault (by simp)
  | error fault =>
    have hstep : (⟨g, q, .found key found backend⟩ : Inquiry).step e =
        (⟨g, q, .ended (.error fault)⟩, e) := by
      unfold Inquiry.step Inquiry.advance Inquiry.finish
      dsimp only
      rw [houtcome]
    refine ⟨e, ?_, ⟨rfl, rfl, rfl, rfl, rfl, rfl⟩, ?_, ?_⟩
    · rw [complete_undisturbed rfl, hstep, complete_of_ended rfl]
    · intro results hresults
      exact absurd hresults (by simp)
    · intro fault' hfault
      rfl

theorem ended_searching {e : Engine σ} (key : ResultKey) {v : List Float} {rows : List Row}
    {asked : Vector.Database}
    (hsearch : e.database.search index.collection v q.limit (askedClause q.kind) = .ok (rows, asked))
    (hfailures : asked.failures = e.database.failures)
    (htables : asked.tables = e.database.tables) :
    ∃ after, (⟨g, q, .searching key index v⟩ : Inquiry).complete undisturbed e =
        (resultsOfRows g q rows, after) ∧ Ended e key (resultsOfRows g q rows) after := by
  let searched := { e with database := asked }
  have huntouched : Untouched e searched := ⟨rfl, rfl, rfl, rfl, hfailures, htables⟩
  rw [complete_undisturbed rfl]
  unfold resultsOfRows
  cases hhits : rows.mapM Hit.ofRow with
  | ok hits =>
    let found := bestFirst Match.similarity <|
      hits.map fun hit => ⟨hit.id, similarityOf hit.distance⟩
    have hstep : (⟨g, q, .searching key index v⟩ : Inquiry).step e =
        (⟨g, q, .found key found .vector⟩, searched) := by
      unfold Inquiry.step Inquiry.advance Inquiry.search VectorIndex.query Vector.queryStore
      dsimp only
      rw [hsearch]
      dsimp only
      rw [hhits]
      rfl
    rw [hstep]
    obtain ⟨after, hcomplete, hended⟩ := ended_found searched g q key found .vector
    exact ⟨after, hcomplete, huntouched.trans hended.untouched, hended.kept, hended.dropped⟩
  | error fault =>
    have hstep : (⟨g, q, .searching key index v⟩ : Inquiry).step e =
        (⟨g, q, .ended (.error fault)⟩, searched) := by
      unfold Inquiry.step Inquiry.advance Inquiry.search VectorIndex.query Vector.queryStore
      dsimp only
      rw [hsearch]
      dsimp only
      rw [hhits]
      rfl
    rw [hstep, complete_of_ended rfl]
    refine ⟨searched, rfl, huntouched, ?_, ?_⟩
    · intro results hfound
      exact absurd hfound (by simp [bind, Except.bind])
    · intro fault' hfault
      rfl

theorem ended_byWords (e : Engine σ) (g : Generation) (q : Query) (key : ResultKey) :
    ∃ after, (⟨g, q, .byWords key⟩ : Inquiry).complete undisturbed e = (resultsOfWords g q, after) ∧
      Ended e key (resultsOfWords g q) after := by
  rw [complete_undisturbed rfl]
  exact ended_found e g q key (g.lexical.query (q.text.getD "") q.kind q.limit) .lexical

/-- A question that is to be embedded is answered as the embedder says. -/
theorem ended_embedding (find : Finder) (hserving : Serving e g) (hindex : g.vector = some index)
    (hasks : asksStore e g = true) (key : ResultKey) :
    ∃ after, (⟨g, q, .embedding key index⟩ : Inquiry).complete undisturbed (stocked find e q) =
        (resultsFrom find e g q (embedding undisturbed e q), after) ∧
      Ended e key (resultsFrom find e g q (embedding undisturbed e q)) after := by
  let s := stocked find e q
  let embedded := { s with world := (e.pipeline.embedQuery (q.text.getD "") e.world).2 }
  have hspoken :
      (s.pipeline.embedQuery (q.text.getD "") s.world).1 = embedding undisturbed e q := by
    unfold embedding
    rw [atEmbedding_undisturbed]
    rfl
  unfold resultsFrom
  rw [if_pos hasks, complete_undisturbed rfl]
  -- one case for each thing that the embedder may say
  cases hcase : embedding undisturbed e q with
  | vector v =>
    have hembed : (⟨g, q, .embedding key index⟩ : Inquiry).step s =
        (⟨g, q, .searching key index v⟩, embedded) := by
      unfold Inquiry.step Inquiry.advance Inquiry.embed
      dsimp only
      rw [hspoken, hcase]
      rfl
    obtain ⟨asked, hsearch, hfailures, htables⟩ := search_stocked find hserving hindex hcase
    obtain ⟨after, hcomplete, hended⟩ :=
      ended_searching (e := embedded) (g := g) key hsearch hfailures htables
    have huntouched : Untouched e embedded := ⟨rfl, rfl, rfl, rfl, rfl, rfl⟩
    rw [hembed]
    exact ⟨after, hcomplete, huntouched.trans hended.untouched, hended.kept, hended.dropped⟩
  | failure reason =>
    let warned := embedded.warn [notEmbedded reason]
    have hembed : (⟨g, q, .embedding key index⟩ : Inquiry).step s =
        (⟨g, q, .byWords key⟩, warned) := by
      unfold Inquiry.step Inquiry.advance Inquiry.embed
      dsimp only
      rw [hspoken, hcase]
      rfl
    obtain ⟨after, hcomplete, hended⟩ := ended_byWords warned g q key
    have huntouched : Untouched e warned := ⟨rfl, rfl, rfl, rfl, rfl, rfl⟩
    rw [hembed]
    exact ⟨after, hcomplete, huntouched.trans hended.untouched, hended.kept, hended.dropped⟩
  | crash fault =>
    have hembed : (⟨g, q, .embedding key index⟩ : Inquiry).step s =
        (⟨g, q, .ended (.error fault)⟩, embedded) := by
      unfold Inquiry.step Inquiry.advance Inquiry.embed
      dsimp only
      rw [hspoken, hcase]
      rfl
    refine ⟨embedded, ?_, ⟨rfl, rfl, rfl, rfl, rfl, rfl⟩, ?_, ?_⟩
    · rw [hembed, complete_of_ended rfl]
    · intro results hresults
      exact absurd hresults (by simp)
    · intro fault' hfault
      rfl

/-- What a question does that nothing is remembered for. -/
theorem ended_stocked (find : Finder) (hserving : Serving e g)
    (hforgotten : e.results.get? (e.resultKey g q) = none) :
    ∃ after, (⟨g, q, .opened⟩ : Inquiry).complete undisturbed (stocked find e q) =
        (resultsFrom find e g q (embedding undisturbed e q), after) ∧
      Ended e (e.resultKey g q) (resultsFrom find e g q (embedding undisturbed e q)) after := by
  let key := e.resultKey g q
  let s := stocked find e q
  have hopen : (⟨g, q, .opened⟩ : Inquiry).complete undisturbed s =
      (⟨g, q, (⟨g, q, .choosing key⟩ : Inquiry).choose s key⟩ : Inquiry).complete undisturbed s :=
    complete_forgotten (e := s) hforgotten
  by_cases hasks : asksStore e g = true
  · obtain ⟨hsome, havailable⟩ := (Bool.and_eq_true _ _).mp hasks
    obtain ⟨index, hindex⟩ := Option.isSome_iff_exists.mp hsome
    have hchoose : (⟨g, q, .choosing key⟩ : Inquiry).choose s key = .embedding key index := by
      unfold Inquiry.choose
      dsimp only
      rw [hindex]
      exact if_pos havailable
    rw [hopen, hchoose]
    exact ended_embedding find hserving hindex hasks key
  · have hchoose : (⟨g, q, .choosing key⟩ : Inquiry).choose s key = .byWords key := by
      unfold Inquiry.choose
      dsimp only
      cases hindex : g.vector with
      | none => rfl
      | some index =>
        have hdown : ¬ e.monitor.available = true := by
          intro havailable
          exact hasks (by rw [asksStore, hindex, havailable]; rfl)
        exact if_neg hdown
    unfold resultsFrom
    rw [hopen, hchoose, if_neg hasks]
    obtain ⟨after, hcomplete, hended⟩ := ended_byWords s g q key
    have huntouched := untouched_stocked find e q
    exact ⟨after, hcomplete, huntouched.trans hended.untouched, hended.kept, hended.dropped⟩

/-- What comes of a question: one constructor for each way in which it is replied to. -/
inductive Reply (find : Finder) (e : Engine σ) (g : Generation) (q : Query) : Prop where
  /-- It makes no sense. -/
  | refused (hinvalid : q.objection? ≠ none)
      (hresults : (answeredWith find e q).2.results = e.results)
  | again (results : List Result) (hvalid : q.objection? = none)
      (hremembered : e.results.get? (e.resultKey g q) = some results)
      (hgiven : (answeredWith find e q).1 = .ok (g, results))
      (hresults : (answeredWith find e q).2.results = e.results.touch (e.resultKey g q))
  | found (results : List Result) (hvalid : q.objection? = none)
      (hforgotten : e.results.get? (e.resultKey g q) = none)
      (hfound : resultsFrom find e g q (embedding undisturbed e q) = .ok results)
      (hresults : (answeredWith find e q).2.results = e.results.put (e.resultKey g q) results)
  /-- The embedder broke, or a row could not be read. -/
  | broken (hvalid : q.objection? = none)
      (hforgotten : e.results.get? (e.resultKey g q) = none)
      (hresults : (answeredWith find e q).2.results = e.results)

/-- Without anything remembered, what is given is what the embedder leads to. -/
theorem answeredWith_of_forgotten (find : Finder) (hserving : Serving e g)
    (hvalid : q.objection? = none) (hforgotten : e.results.get? (e.resultKey g q) = none) :
    (answeredWith find e q).1 =
        withGeneration g (resultsFrom find e g q (embedding undisturbed e q)) ∧
      Ended e (e.resultKey g q) (resultsFrom find e g q (embedding undisturbed e q))
        (answeredWith find e q).2 := by
  obtain ⟨after, hcomplete, hended⟩ := ended_stocked find hserving hforgotten
  have hready : (stocked find e q).ready = .ok g := hserving.ready
  unfold answeredWith
  rw [answered_of_ready hvalid hready, hcomplete]
  exact ⟨rfl, hended⟩

theorem answeredWith_of_remembered (find : Finder) (hserving : Serving e g)
    (hvalid : q.objection? = none) {results : List Result}
    (hremembered : e.results.get? (e.resultKey g q) = some results) :
    answeredWith find e q = (.ok (g, results),
      { stocked find e q with results := e.results.touch (e.resultKey g q) }) := by
  let s := stocked find e q
  have hready : s.ready = .ok g := hserving.ready
  have hstep : (⟨g, q, .opened⟩ : Inquiry).step s =
      (⟨g, q, .ended (.ok results)⟩, { s with results := e.results.touch (e.resultKey g q) }) := by
    have hsame : s.results.get? (s.resultKey g q) = some results := hremembered
    unfold Inquiry.step Inquiry.advance Inquiry.open
    dsimp only
    rw [hsame]
    rfl
  unfold answeredWith
  rw [answered_of_ready hvalid hready, complete_undisturbed rfl]
  show (withGeneration g ((Inquiry.step s _).1.complete undisturbed (Inquiry.step s _).2).1, _) = _
  rw [hstep, complete_of_ended rfl]
  rfl

theorem answeredWith_of_invalid (find : Finder) (e : Engine σ) (hinvalid : q.objection? ≠ none) :
    (answeredWith find e q).2 = stocked find e q := by
  obtain ⟨objection, hobjection⟩ := Option.ne_none_iff_exists'.mp hinvalid
  unfold answeredWith answered Engine.ask
  rw [hobjection]

theorem answeredWith_reply (find : Finder) (hserving : Serving e g) (q : Query) :
    Reply find e g q ∧ Untouched e (answeredWith find e q).2 := by
  by_cases hvalid : q.objection? = none
  · cases hremembered : e.results.get? (e.resultKey g q) with
    | some results =>
      have hagain := answeredWith_of_remembered find hserving hvalid hremembered
      refine ⟨.again results hvalid hremembered ?_ ?_, ?_⟩
      · rw [hagain]
      · rw [hagain]
      · rw [hagain]
        exact ⟨rfl, rfl, rfl, rfl, rfl, rfl⟩
    | none =>
      obtain ⟨-, hended⟩ := answeredWith_of_forgotten find hserving hvalid hremembered
      refine ⟨?_, hended.untouched⟩
      cases hcase : resultsFrom find e g q (embedding undisturbed e q) with
      | ok results => exact .found results hvalid hremembered hcase (hended.kept results hcase)
      | error fault => exact .broken hvalid hremembered (hended.dropped fault hcase)
  · have hsame := answeredWith_of_invalid find e hvalid
    refine ⟨.refused hvalid ?_, ?_⟩
    · rw [hsame]
      rfl
    · rw [hsame]
      exact untouched_stocked find e q

/-! ## Questions that are remembered alike -/

/-- Questions that are remembered alike are answered alike, whatever the embedder says. -/
theorem resultsFrom_of_resultKey (find : Finder) {q' : Query} (hvalid : q.objection? = none)
    (hvalid' : q'.objection? = none) (hkey : e.resultKey g q' = e.resultKey g q)
    (said : Embedding.Outcome) : resultsFrom find e g q' said = resultsFrom find e g q said := by
  obtain ⟨htext, hlimit, hkind, -⟩ := resultKey_inv hkey
  have hresults := resultsOf_of_resultKey hvalid hvalid' hkey
  have hwords : resultsOfWords g q' = resultsOfWords g q := by
    unfold resultsOfWords
    rw [htext, hlimit, hkind]
    exact hresults .lexical _
  unfold resultsFrom
  rw [hwords, hlimit, hkind]
  cases said with
  | vector v =>
    unfold resultsOfRows
    simp only [hresults]
  | failure reason => rfl
  | crash fault => rfl

/-! ## Many questions -/

theorem serving_afterAnswering (find : Finder) (hserving : Serving e g)
    (past : List Query) :
    Serving (afterAnswering find e past) g ∧ Untouched e (afterAnswering find e past) := by
  induction past with
  | nil => exact ⟨hserving, ⟨rfl, rfl, rfl, rfl, rfl, rfl⟩⟩
  | cons q past ih =>
    obtain ⟨hthen, hsame⟩ := ih
    have huntouched := (answeredWith_reply find hthen q).2
    exact ⟨huntouched.serving hthen, hsame.trans huntouched⟩

/-- What is remembered was found at a question that is remembered alike. -/
theorem exists_found_of_remembered {find : Finder} (hserving : Serving e g)
    (hforgotten : ∀ q, e.results.get? (e.resultKey g q) = none) {past : List Query}
    {results : List Result}
    (h : (afterAnswering find e past).results.get? (e.resultKey g q) = some results) :
    ∃ q' earlier, q' :: earlier <:+ past ∧ q'.objection? = none ∧
      e.resultKey g q' = e.resultKey g q ∧
        (afterAnswering find e earlier).results.get? (e.resultKey g q) = none ∧
          resultsFrom find e g q' (embedding undisturbed (afterAnswering find e earlier) q') =
            .ok results := by
  induction past with
  | nil =>
    have hnone : (afterAnswering find e []).results.get? (e.resultKey g q) = none := hforgotten q
    rw [hnone] at h
    exact absurd h (by simp)
  | cons q' past ih =>
    obtain ⟨hthen, hsame⟩ := serving_afterAnswering find hserving past
    have hearlier : (afterAnswering find e past).results.get? (e.resultKey g q) = some results →
        ∃ q'' earlier, q'' :: earlier <:+ q' :: past ∧ q''.objection? = none ∧
          e.resultKey g q'' = e.resultKey g q ∧
            (afterAnswering find e earlier).results.get? (e.resultKey g q) = none ∧
              resultsFrom find e g q''
                (embedding undisturbed (afterAnswering find e earlier) q'') = .ok results := by
      intro hbefore
      obtain ⟨q'', earlier, hsuffix, hrest⟩ := ih hbefore
      exact ⟨q'', earlier, hsuffix.trans (List.suffix_cons q' past), hrest⟩
    have hkey := hsame.resultKey g q'
    rw [afterAnswering] at h
    cases (answeredWith_reply find hthen q').1 with
    | refused hinvalid hresults =>
      rw [hresults] at h
      exact hearlier h
    | again results' hvalid hremembered hgiven hresults =>
      rw [hresults] at h
      exact hearlier (Lru.get?_touch h)
    | broken hvalid hnone hresults =>
      rw [hresults] at h
      exact hearlier h
    | found results' hvalid hnone hfound hresults =>
      rw [hresults, hkey] at h
      rw [hkey] at hnone
      rcases Lru.get?_put h with ⟨halike, rfl⟩ | hbefore
      · rw [← halike] at hnone
        rw [hsame.resultsFrom] at hfound
        exact ⟨q', past, List.suffix_rfl, hvalid, halike.symm, hnone, hfound⟩
      · exact hearlier hbefore

/-- What the embedder said to a question when the answer was found that is given now: just now, or
at a question that is remembered alike. -/
inductive SaidAt (find : Finder) (e : Engine σ) (g : Generation) (past : List Query) (q : Query) :
    Embedding.Outcome → Prop where
  | now
      (hforgotten : (afterAnswering find e past).results.get? (e.resultKey g q) = none) :
      SaidAt find e g past q (embedding undisturbed (afterAnswering find e past) q)
  | earlier (q' : Query) (before : List Query) (hbefore : q' :: before <:+ past)
      (hkey : e.resultKey g q' = e.resultKey g q)
      (hforgotten : (afterAnswering find e before).results.get? (e.resultKey g q) = none)
      (hremembered : ((afterAnswering find e past).results.get? (e.resultKey g q)).isSome = true) :
      SaidAt find e g past q (embedding undisturbed (afterAnswering find e before) q')

theorem withGeneration_inj {outcome outcome' : Except Fault (List Result)} :
    withGeneration g outcome = withGeneration g outcome' ↔ outcome = outcome' := by
  cases outcome with
  | ok results =>
    cases outcome' with
    | ok results' => simp [withGeneration]
    | error fault' => simp [withGeneration]
  | error fault =>
    cases outcome' with
    | ok results' => simp [withGeneration]
    | error fault' => simp [withGeneration]

theorem answeredWith_clearResults (find : Finder) (hserving : Serving e g)
    (hvalid : q.objection? = none) :
    (answeredWith find e.clearResults q).1 =
      withGeneration g (resultsFrom find e g q (embedding undisturbed e q)) := by
  have huntouched : Untouched e e.clearResults := ⟨rfl, rfl, rfl, rfl, rfl, rfl⟩
  have hspoken : embedding undisturbed e.clearResults q = embedding undisturbed e q := by
    unfold embedding
    rw [atEmbedding_undisturbed, atEmbedding_undisturbed]
    rfl
  rw [← hspoken]
  exact (answeredWith_of_forgotten find (huntouched.serving hserving) hvalid rfl).1

/-- A question is given what follows from the word of the embedder at which the answer was found, and
without anything remembered what follows from its word now. So the two are the same exactly if these
results are. -/
theorem answered_eq_cleared_iff (find : Finder) (hserving : Serving e g)
    (hforgotten : ∀ q, e.results.get? (e.resultKey g q) = none) (past : List Query)
    (hvalid : q.objection? = none) :
    ∃ said, SaidAt find e g past q said ∧
      (answeredWith find (afterAnswering find e past) q).1 =
        withGeneration g (resultsFrom find e g q said) ∧
      (answeredWith find (afterAnswering find e past).clearResults q).1 =
        withGeneration g
          (resultsFrom find e g q (embedding undisturbed (afterAnswering find e past) q)) ∧
      ((answeredWith find (afterAnswering find e past) q).1 =
          (answeredWith find (afterAnswering find e past).clearResults q).1 ↔
        resultsFrom find e g q said =
          resultsFrom find e g q (embedding undisturbed (afterAnswering find e past) q)) := by
  obtain ⟨hnow, hsame⟩ := serving_afterAnswering find hserving past
  have hkey := hsame.resultKey g q
  suffices ∃ said, SaidAt find e g past q said ∧
      (answeredWith find (afterAnswering find e past) q).1 =
        withGeneration g (resultsFrom find e g q said) by
    obtain ⟨said, hsaid, hgiven⟩ := this
    have hcleared := answeredWith_clearResults find hnow hvalid
    rw [hsame.resultsFrom] at hcleared
    refine ⟨said, hsaid, hgiven, hcleared, ?_⟩
    rw [hgiven, hcleared]
    exact withGeneration_inj
  cases hremembered : (afterAnswering find e past).results.get? (e.resultKey g q) with
  | none =>
    have hnone := hremembered
    rw [← hkey] at hnone
    have hgiven := (answeredWith_of_forgotten find hnow hvalid hnone).1
    rw [hsame.resultsFrom] at hgiven
    exact ⟨_, .now hremembered, hgiven⟩
  | some results =>
    obtain ⟨q', before, hbefore, hvalid', hkey', hnone, hfound⟩ :=
      exists_found_of_remembered hserving hforgotten hremembered
    have hsome : ((afterAnswering find e past).results.get? (e.resultKey g q)).isSome = true := by
      rw [hremembered]
      rfl
    refine ⟨_, .earlier q' before hbefore hkey' hnone hsome, ?_⟩
    have hthere := hremembered
    rw [← hkey] at hthere
    rw [answeredWith_of_remembered find hnow hvalid hthere,
      ← resultsFrom_of_resultKey find hvalid hvalid' hkey', hfound]
    rfl

/-! ## An embedder that refuses a text once -/

/-- How the results were found that are given. -/
def backends (reply : Except InquiryFault (Generation × List Result)) : Option (List Backend) :=
  reply.toOption.map fun found => found.2.map (·.backend)

/-- A store that finds the import for every vector. -/
def theImport : Finder := fun _ _ _ => [[("id", .text "a.js:1:x"), ("_distance", .float 0.0)]]

theorem exists_serving {e : Engine σ} {index : VectorIndex}
    (hready : e.ready.toOption.map (·.vector) = some (some index))
    (havailable : e.monitor.available = true) (hhealthy : e.database.failures.isEmpty = true)
    (hthere : (e.database.rows? index.collection).isSome = true)
    (hempty : e.results.entries.isEmpty = true) :
    ∃ g, Serving e g ∧ asksStore e g = true ∧
      ∀ q, e.results.get? (e.resultKey g q) = none := by
  obtain ⟨g, hg, hvector⟩ := Option.map_eq_some_iff.mp hready
  have hfound := eq_ok_of_toOption hg
  have hasks : asksStore e g = true := by
    rw [asksStore, hvector, havailable]
    rfl
  refine ⟨g, ⟨hfound, List.isEmpty_iff.mp hhealthy, ?_⟩, hasks, ?_⟩
  · intro index' hindex
    rw [← Option.some.inj (hvector.symm.trans hindex)]
    exact hthere
  intro q
  unfold Lru.get?
  rw [List.isEmpty_iff.mp hempty]
  rfl

/-- An embedder that refuses the second text that it is given, and gives one vector for all
others. -/
def refusingOnce : Embedding.Embedder Nat where
  key := "refusing once"
  dimension := 1
  embed _ calls :=
    (if calls = 1 then .failure (.refused "not there") else .vector [1.0], calls + 1)

/-- An engine for one import with that embedder. -/
def unsteady : Engine Nat :=
  let e := Session.oneImport
  Engine.new e.settings e.parsers (some refusingOnce) none true e.session e.homeOf e.database
    e.disk 0

/-- The engine when it has indexed the import. The next text will be refused. -/
def indexedUnsteady : Engine Nat :=
  (Session.after unsteady (Session.indexing 0 11)).engine

/-- A question that is answered by words as its text is refused is answered by words again when its
text is embedded, and would be answered by vectors without what is remembered. -/
theorem words_given_again :
    ∃ g, Serving indexedUnsteady g ∧ asksStore indexedUnsteady g = true ∧
      (∀ q, indexedUnsteady.results.get? (indexedUnsteady.resultKey g q) = none) ∧
      aboutImport.objection? = none ∧
      embedding undisturbed indexedUnsteady aboutImport = .failure (.refused "not there") ∧
      embedding undisturbed (afterAnswering theImport indexedUnsteady [aboutImport]) aboutImport =
        .vector [1.0] ∧
      backends (answeredWith theImport
        (afterAnswering theImport indexedUnsteady [aboutImport]) aboutImport).1 =
          some [.lexical] ∧
      backends (answeredWith theImport
        (afterAnswering theImport indexedUnsteady [aboutImport]).clearResults aboutImport).1 =
          some [.vector] ∧
      (answeredWith theImport
          (afterAnswering theImport indexedUnsteady [aboutImport]) aboutImport).1 ≠
        (answeredWith theImport
          (afterAnswering theImport indexedUnsteady [aboutImport]).clearResults aboutImport).1 := by
  have hready : indexedUnsteady.ready.toOption.map (·.vector) =
      some (some ⟨"codebase_embeddings_session_1", 1⟩) := by
    decide +kernel
  obtain ⟨g, hserving, hasks, hforgotten⟩ := exists_serving hready (by decide +kernel)
    (by decide +kernel) (by decide +kernel) (by decide +kernel)
  have hembedder : indexedUnsteady.embedder = some refusingOnce :=
    (Session.sameServices_after unsteady (Session.indexing 0 11)).embedder
  have hlater :=
    (serving_afterAnswering theImport hserving [aboutImport]).2.embedder.trans hembedder
  -- one text was embedded with the import, and the question is the second one
  have hcalls : indexedUnsteady.world = 1 := by decide +kernel
  have hcalls' : (afterAnswering theImport indexedUnsteady [aboutImport]).world = 2 := by
    decide +kernel
  have hagain : backends (answeredWith theImport
      (afterAnswering theImport indexedUnsteady [aboutImport]) aboutImport).1 =
        some [.lexical] := by
    decide +kernel
  have hcleared : backends (answeredWith theImport
      (afterAnswering theImport indexedUnsteady [aboutImport]).clearResults aboutImport).1 =
        some [.vector] := by
    decide +kernel
  refine ⟨g, hserving, hasks, hforgotten, valid_aboutImport, ?_, ?_, hagain, hcleared, ?_⟩
  · rw [embedding_undisturbed hembedder, hcalls]
    rfl
  · rw [embedding_undisturbed hlater, hcalls']
    rfl
  · intro hsame
    rw [hsame, hcleared] at hagain
    exact absurd hagain (by decide)

/-- With an embedder that takes every text, what is remembered is what would be found. -/
theorem answered_eq_cleared_iff_steady :
    ∃ g, Serving indexedImport g ∧ asksStore indexedImport g = true ∧
      (∀ q, indexedImport.results.get? (indexedImport.resultKey g q) = none) ∧
      aboutImport.objection? = none ∧
      (answeredWith theImport (afterAnswering theImport indexedImport [aboutImport])
          aboutImport).1 =
        (answeredWith theImport (afterAnswering theImport indexedImport [aboutImport]).clearResults
          aboutImport).1 := by
  have hready : indexedImport.ready.toOption.map (·.vector) =
      some (some ⟨"codebase_embeddings_session_1", 1⟩) := by
    decide +kernel
  obtain ⟨g, hserving, hasks, hforgotten⟩ := exists_serving hready (by decide +kernel)
    (by decide +kernel) (by decide +kernel) (by decide +kernel)
  have hembedder : indexedImport.embedder = some Session.constant :=
    (Session.sameServices_after Session.oneImport (Session.indexing 0 11)).embedder
  -- the embedder says the same to every question, at all times
  have hspoken : ∀ past q, embedding undisturbed (afterAnswering theImport indexedImport past) q =
      .vector [1.0] := by
    intro past q
    have hlater := (serving_afterAnswering theImport hserving past).2.embedder.trans hembedder
    rw [embedding_undisturbed hlater]
    rfl
  obtain ⟨said, hsaid, -, -, hiff⟩ :=
    answered_eq_cleared_iff theImport hserving hforgotten [aboutImport] valid_aboutImport
  refine ⟨g, hserving, hasks, hforgotten, valid_aboutImport, hiff.mpr ?_⟩
  cases hsaid with
  | now hnone => rfl
  | earlier q' before hbefore hkey hnone hremembered => rw [hspoken, hspoken]

end CodeSearch.Engine

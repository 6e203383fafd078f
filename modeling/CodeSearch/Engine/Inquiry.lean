import CodeSearch.Engine.Basic

/-!
Questions to the engine.

A question that makes sense is answered from the generation that is current when it is put. An
answer that is remembered is given again. Otherwise the store of vectors is asked if it serves,
and whenever that does not work out the words of the chunks are. A question too is made of steps
on the engine, at most six, between which others may take theirs.
-/
set_option autoImplicit false

namespace CodeSearch

open CodeSearch.Index (Generation NotIndexed)
open CodeSearch.Search (Query InvalidQuery Match Result)
open CodeSearch.Vector (VectorIndex)

/-- Why a question is not answered. -/
inductive InquiryFault where
  | invalid (i : InvalidQuery)
  | notIndexed (n : NotIndexed)
  /-- Something broke on the way. -/
  | broken (f : Fault)

/-- The wording of a cause. -/
def InquiryFault.message : InquiryFault → String
  | .invalid i => i.message
  | .notIndexed n => n.message
  | .broken f => f.message

namespace Engine

/-- How far a question has come. -/
inductive Progress where
  /-- It is looked up among the answers that are remembered. -/
  | opened
  | choosing (key : ResultKey)
  /-- The text is to be embedded. -/
  | embedding (key : ResultKey) (index : VectorIndex)
  | searching (key : ResultKey) (index : VectorIndex) (vector : List Float)
  | byWords (key : ResultKey)
  | found (key : ResultKey) (hits : List Match) (backend : Backend)
  | ended (result : Except Fault (List Result))

/-- A question with the generation that answers it. -/
structure Inquiry where
  generation : Generation
  query : Query
  progress : Progress

variable {σ : Type}

/-! ## Beginning -/

/-- A question put. -/
def ask (e : Engine σ) (q : Query) : Except InquiryFault Inquiry :=
  match q.objection? with
  | some objection => .error (.invalid objection)
  | none =>
    match e.ready with
    | .ok g => .ok ⟨g, q, .opened⟩
    | .error n => .error (.notIndexed n)

/-! ## The steps -/

/-- What the answer to a question is remembered by at the moment. -/
def resultKey (e : Engine σ) (g : Generation) (q : Query) : ResultKey where
  generation := g.number
  text := q.text
  threshold := (q.threshold.value + 0.0).toBits
  limit := q.limit
  kind := q.kind
  vectors := e.monitor.available

/-- The warning that a question is answered by its words because its text is not embedded. -/
def notEmbedded (reason : Embedding.Failure) : String :=
  "Could not embed query, answering lexically: " ++ reason.message

/-- Whether a chunk with a similarity answers a question. -/
def answers (q : Query) (c : Chunk) (similarity : Float) : Bool :=
  !(similarity < q.threshold.value) &&
    match q.kind with
    | some kind => kind.isEmpty || c.kind == kind
    | none => true

/-- The answer that a match gives, if it gives one. -/
def resultOf (g : Generation) (q : Query) (backend : Backend) (m : Match) :
    Except Fault (Option Result) := do
  match ← g.chunkNamed m.id with
  | some c =>
    return if answers q c m.similarity then some ⟨c, m.similarity, c.context, backend⟩ else none
  | none => return none

/-- The answers to a question, the best ones first. -/
def resultsOf (g : Generation) (q : Query) (backend : Backend) (found : List Match) :
    Except Fault (List Result) := do
  let results ← found.mapM (resultOf g q backend)
  return Cut.upTo q.limit (Search.bestFirst Result.similarity (results.filterMap id))

/-- The question looked up. -/
def Inquiry.open (e : Engine σ) (i : Inquiry) : Progress × Engine σ :=
  let key := e.resultKey i.generation i.query
  match e.results.get? key with
  | some results => (.ended (.ok results), { e with results := e.results.touch key })
  | none => (.choosing key, e)

/-- The way of answering chosen. -/
def Inquiry.choose (e : Engine σ) (i : Inquiry) (key : ResultKey) : Progress :=
  match i.generation.vector with
  | some index => if e.monitor.available then .embedding key index else .byWords key
  | none => .byWords key

/-- The text embedded. -/
def Inquiry.embed (e : Engine σ) (i : Inquiry) (key : ResultKey) (index : VectorIndex) :
    Progress × Engine σ :=
  let (outcome, world) := e.pipeline.embedQuery (i.query.text.getD "") e.world
  let e := { e with world := world }
  match outcome with
  | .vector v => (.searching key index v, e)
  | .failure reason => (.byWords key, e.warn [notEmbedded reason])
  | .crash fault => (.ended (.error fault), e)

/-- The store of vectors asked. -/
def Inquiry.search (e : Engine σ) (i : Inquiry) (key : ResultKey) (index : VectorIndex)
    (vector : List Float) : Progress × Engine σ :=
  let (outcome, database) := index.query e.database vector i.query.kind i.query.limit
  let e := { e with database := database }
  match outcome with
  | .ok found => (.found key found .vector, e)
  | .error (.unavailable u) => (.byWords key, e.markDown u.message)
  | .error (.data fault) => (.ended (.error fault), e)

/-- What answers a question by its words. -/
def Inquiry.matchWords (i : Inquiry) : List Match :=
  i.generation.lexical.query (i.query.text.getD "") i.query.kind i.query.limit

/-- The answers made out of what was found, and remembered. -/
def Inquiry.finish (e : Engine σ) (i : Inquiry) (key : ResultKey) (found : List Match)
    (backend : Backend) : Progress × Engine σ :=
  match resultsOf i.generation i.query backend found with
  | .ok results => (.ended (.ok results), { e with results := e.results.put key results })
  | .error fault => (.ended (.error fault), e)

/-- What the next step of a question makes of it. -/
def Inquiry.advance (e : Engine σ) (i : Inquiry) : Progress × Engine σ :=
  match i.progress with
  | .opened => i.open e
  | .choosing key => (i.choose e key, e)
  | .embedding key index => i.embed e key index
  | .searching key index vector => i.search e key index vector
  | .byWords key => (.found key i.matchWords .lexical, e)
  | .found key found backend => i.finish e key found backend
  | .ended result => (.ended result, e)

/-- The next step of a question. -/
def Inquiry.step (e : Engine σ) (i : Inquiry) : Inquiry × Engine σ :=
  let (progress, after) := i.advance e
  ({ i with progress := progress }, after)

/-- What the next step of a question is about to hand out. -/
def Inquiry.moment? (e : Engine σ) (i : Inquiry) : Option Moment :=
  match i.progress with
  | .embedding _ _ => if e.embedder.isSome then some (.embed (i.query.text.getD "")) else none
  | _ => none

/-! ## Whole questions -/

/-- How far a question is from its end at most. -/
def Progress.distance : Progress → Nat
  | .opened => 6
  | .choosing _ => 5
  | .embedding _ _ => 4
  | .searching _ _ _ => 3
  | .byWords _ => 2
  | .found _ _ _ => 1
  | .ended _ => 0

/-- The answers to a question that has ended, or what broke. -/
def Inquiry.ending? (i : Inquiry) : Option (Except Fault (List Result)) :=
  match i.progress with
  | .ended result => some result
  | _ => none

/-- The next step of a question that has not ended brings its end nearer. -/
theorem Inquiry.distance_step_lt (e : Engine σ) (i : Inquiry) (h : i.ending? = none) :
    (i.step e).1.progress.distance < i.progress.distance := by
  obtain ⟨g, q, progress⟩ := i
  cases progress with
  | opened =>
    simp only [Inquiry.step, Inquiry.advance, Inquiry.open]
    split <;> simp [Progress.distance]
  | choosing key =>
    simp only [Inquiry.step, Inquiry.advance, Inquiry.choose]
    split
    · split <;> simp [Progress.distance]
    · simp [Progress.distance]
  | embedding key index =>
    simp only [Inquiry.step, Inquiry.advance, Inquiry.embed]
    split <;> simp [Progress.distance]
  | searching key index vector =>
    simp only [Inquiry.step, Inquiry.advance, Inquiry.search]
    split <;> simp [Progress.distance]
  | byWords key => simp [Inquiry.step, Inquiry.advance, Progress.distance]
  | found key found backend =>
    simp only [Inquiry.step, Inquiry.advance, Inquiry.finish]
    split <;> simp [Progress.distance]
  | ended result => simp [Inquiry.ending?] at h

/-- All steps of a question. Whatever a step is about to hand out is shown to `interrupt` before. -/
def Inquiry.complete (interrupt : Moment → Engine σ → Engine σ) (e : Engine σ) (i : Inquiry) :
    Except Fault (List Result) × Engine σ :=
  match _h : i.ending? with
  | some result => (result, e)
  | none =>
    let shown := match i.moment? e with
      | some moment => interrupt moment e
      | none => e
    let next := i.step shown
    Inquiry.complete interrupt next.2 next.1
termination_by i.progress.distance
decreasing_by exact i.distance_step_lt _ _h

/-- A question answered, with the generation that answers it. -/
def answered (interrupt : Moment → Engine σ → Engine σ) (e : Engine σ) (q : Query) :
    Except InquiryFault (Generation × List Result) × Engine σ :=
  match e.ask q with
  | .error fault => (.error fault, e)
  | .ok i =>
    match i.complete interrupt e with
    | (.ok results, after) => (.ok (i.generation, results), after)
    | (.error fault, after) => (.error (.broken fault), after)

/-- The answers to a question; what is not said about it is as the settings say. -/
def search (interrupt : Moment → Engine σ → Engine σ) (e : Engine σ) (text : Option String)
    (threshold : Option Search.Threshold) (limit : Option Int) (kind : Option String) :
    Except InquiryFault (List Result) × Engine σ :=
  let (outcome, after) := e.answered interrupt {
    text := text
    threshold := threshold.getD e.settings.threshold
    limit := limit.getD e.settings.limit
    kind := kind }
  (outcome.map (·.2), after)

/-- The chunks that are like a piece of code. -/
def similar (interrupt : Moment → Engine σ → Engine σ) (e : Engine σ) (code : Option String)
    (threshold : Option Search.Threshold) (limit : Option Int) :
    Except InquiryFault (List Result) × Engine σ :=
  e.search interrupt code threshold limit none

end Engine

end CodeSearch

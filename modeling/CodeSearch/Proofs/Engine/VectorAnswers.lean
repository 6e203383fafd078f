import CodeSearch.Proofs.Engine.TableRows
import CodeSearch.Proofs.Engine.WordAnswers

/-!
What questions are answered by vectors.

The store is asked for no more rows than there may be answers, and only then the threshold is looked
at, the matches are put in order twice, and cut once more. Nothing is lost by this as long as the
store returns the nearest rows: what is farther away is not more similar (`InReach.descending`), so
what was cut off could only have come behind what was left. With distinct ids the outcome is that
of one pass over the embedded chunks of the kind in the order of their distances
(`vectorAnswers`).
-/
set_option autoImplicit false

namespace CodeSearch.Engine

open CodeSearch.Decimal (IsNumber le_iff_place_le lt_iff_place_lt)
open CodeSearch.Index (Generation)
open CodeSearch.Search
open CodeSearch.Vector (Database Hit IsAskedFor Nearest Row VectorIndex askedClause askedKind chunkRows
  hitOf hits_of_drawn isNumber_similarityOf isOfKind queryStore_of_search rowOf similarityOf
  similarityOf_le_similarityOf)

variable {σ : Type}

/-! ## Chunks in the order of their distances -/

/-- How similar a chunk is, by the distance of its row. -/
def likeness (far : Row → Float) (c : Chunk) : Float :=
  similarityOf (far (rowOf c))

/-- A chunk as an answer by vectors. -/
def vectorAnswer (far : Row → Float) (c : Chunk) : Result :=
  ⟨c, likeness far c, c.context, .vector⟩

/-- The embedded chunks of the kind that is asked for, the nearest first. -/
structure InReach (far : Row → Float) (chunks : List Chunk) (q : Query) (order : List Chunk) :
    Prop where
  perm : order.Perm (chunks.filter fun c => c.isEmbedded ∧ OfKind q c)
  ascending : order.Pairwise fun c d => far (rowOf c) ≤ far (rowOf d)

/-- What answers a question by vectors: of chunks in some order those that reach the threshold, up to
the limit. -/
def vectorAnswers (far : Row → Float) (q : Query) (order : List Chunk) : List Result :=
  ((order.filter fun c => q.threshold.value ≤ likeness far c).take q.limit.toNat).map
    (vectorAnswer far)

section Order

variable {far : Row → Float} {chunks order : List Chunk} {q : Query}

theorem isNumber_likeness (far : Row → Float) (c : Chunk) : IsNumber (likeness far c) :=
  (isNumber_similarityOf _).1

theorem InReach.mem_iff (h : InReach far chunks q order) {c : Chunk} :
    c ∈ order ↔ c ∈ chunks ∧ c.isEmbedded = true ∧ OfKind q c := by
  rw [h.perm.mem_iff, List.mem_filter, decide_eq_true_iff]

/-- The nearest ones are the most similar. -/
theorem InReach.descending (h : InReach far chunks q order) :
    order.Pairwise fun c d => likeness far d ≤ likeness far c :=
  h.ascending.imp fun hle => similarityOf_le_similarityOf hle

theorem isAskedFor_iff_ofKind (hvalid : q.objection? = none) (c : Chunk) :
    IsAskedFor q.kind c ↔ OfKind q c := by
  have hkind : askedKind q.kind = q.kind := by
    cases hgiven : q.kind with
    | none => rfl
    | some kind =>
      have hnonempty : kind.isEmpty = false := isEmpty_of_valid hvalid kind hgiven
      simp [askedKind, hnonempty]
  unfold IsAskedFor OfKind
  rw [hkind]

/-- A chunk of the kind answers exactly if the threshold is not above its similarity. -/
theorem answers_likeness (hvalid : q.objection? = none) {c : Chunk} (hkind : OfKind q c) :
    answers q c (likeness far c) = decide (q.threshold.value ≤ likeness far c) := by
  have hnumber := isNumber_likeness far c
  have hthreshold := isNumber_threshold hvalid
  rw [answers_of_ofKind hkind, ← decide_not, decide_eq_decide, lt_iff_place_lt hnumber hthreshold,
    le_iff_place_le hthreshold hnumber, Int.not_lt]

/-- The nearest chunks are cut before the threshold is looked at, and nothing is lost by that. -/
theorem filter_take_inReach (hvalid : q.objection? = none) (h : InReach far chunks q order) :
    (((order.take q.limit.toNat).filter fun c => answers q c (likeness far c)).take
        q.limit.toNat).map (vectorAnswer far) = vectorAnswers far q order := by
  have hsame : ∀ c ∈ order.take q.limit.toNat, answers q c (likeness far c) =
      decide (q.threshold.value ≤ likeness far c) := by
    intro c hc
    exact answers_likeness hvalid (h.mem_iff.mp (List.mem_of_mem_take hc)).2.2
  have hthreshold := isNumber_threshold hvalid
  -- a chunk that comes earlier reaches what a later one reaches
  have hearlier : order.Pairwise fun c d =>
      decide (q.threshold.value ≤ likeness far d) = true →
        decide (q.threshold.value ≤ likeness far c) = true := by
    refine h.descending.imp ?_
    intro c d hle hreached
    rw [decide_eq_true_iff, le_iff_place_le hthreshold (isNumber_likeness far _)] at hreached ⊢
    rw [le_iff_place_le (isNumber_likeness far d) (isNumber_likeness far c)] at hle
    omega
  unfold vectorAnswers
  rw [List.filter_congr hsame, take_filter_of_pairwise hearlier, List.take_take, Nat.min_self]

end Order

/-! ## From rows to results -/

section Results

variable {far : Row → Float} {g : Generation} {q : Query} {ranked rows : List Row}

/-- What the store makes of the hits on the nearest rows of a generation. -/
def matchesOf (hits : List Hit) : List Match :=
  bestFirst Match.similarity (hits.map fun hit => ⟨hit.id, similarityOf hit.distance⟩)

/-- The nearest rows of a generation are all read, and lead to the nearest chunks. -/
theorem exists_inReach_of_nearest (hvalid : q.objection? = none) (hids : (g.chunks.map (·.id)).Nodup)
    (h : Nearest far (chunkRows g.chunks) (isOfKind (askedKind q.kind)) q.limit ranked rows) :
    ∃ order hits, InReach far g.chunks q order ∧ rows.mapM Hit.ofRow = .ok hits ∧
      resultsOf g q .vector (matchesOf hits) = .ok (vectorAnswers far q order) := by
  have hlimit : 0 < q.limit := (valid_inv hvalid).2.1
  obtain ⟨order, hperm, rfl, hhits⟩ := hits_of_drawn h.toDrawn
  have hkinds : (g.chunks.filter fun c => c.isEmbedded ∧ IsAskedFor q.kind c) =
      g.chunks.filter fun c => c.isEmbedded ∧ OfKind q c := by
    apply List.filter_congr
    intro c hc
    rw [decide_eq_decide, isAskedFor_iff_ofKind hvalid]
  have hascending := h.ascending
  rw [List.pairwise_map] at hascending
  have hreach : InReach far g.chunks q order := ⟨hkinds ▸ hperm, hascending⟩
  refine ⟨order, _, hreach, hhits, ?_⟩
  -- the hits are in their order already
  let best := order.take q.limit.toNat
  have hsorted : best.Pairwise fun c d => likeness far d ≤ likeness far c :=
    hreach.descending.sublist (List.take_sublist _ _)
  have hmatches : matchesOf (best.map fun c => hitOf (far (rowOf c)) c) =
      best.map fun c => ⟨.text c.id, likeness far c⟩ := by
    unfold matchesOf
    rw [List.map_map, bestFirst_map]
    exact congrArg _ (bestFirst_of_pairwise (fun c _ => isNumber_likeness far c) hsorted)
  rw [hmatches, ← filter_take_inReach hvalid hreach]
  exact resultsOf_of_pairwise hids (Int.le_of_lt hlimit) .vector
    (fun c hc => (hreach.mem_iff.mp (List.mem_of_mem_take hc)).1)
    (fun c _ => isNumber_likeness far c) hsorted

/-- What the nearest rows of a generation answer to a question. -/
def ByVectors (far : Row → Float) (g : Generation) (q : Query) (results : List Result) : Prop :=
  ∃ ranked rows hits,
    Nearest far (chunkRows g.chunks) (isOfKind (askedKind q.kind)) q.limit ranked rows ∧
    rows.mapM Hit.ofRow = .ok hits ∧ resultsOf g q .vector (matchesOf hits) = .ok results

theorem ByVectors.exists_inReach {results : List Result} (hvalid : q.objection? = none)
    (hids : (g.chunks.map (·.id)).Nodup) (h : ByVectors far g q results) :
    ∃ order, InReach far g.chunks q order ∧ results = vectorAnswers far q order := by
  obtain ⟨ranked, rows, hits, hnearest, hhits, hresults⟩ := h
  obtain ⟨order, hits', hreach, hhits', hanswers⟩ :=
    exists_inReach_of_nearest hvalid hids hnearest
  obtain rfl := Except.ok.inj (hhits.symm.trans hhits')
  exact ⟨order, hreach, Except.ok.inj (hresults.symm.trans hanswers)⟩

/-- Answers that are remembered for a question that is remembered alike are those to this one. -/
theorem ByVectors.of_resultKey {e : Engine σ} {q' : Query} {results : List Result}
    (hvalid : q.objection? = none) (hvalid' : q'.objection? = none)
    (hkey : e.resultKey g q' = e.resultKey g q) (h : ByVectors far g q' results) :
    ByVectors far g q results := by
  obtain ⟨ranked, rows, hits, hnearest, hhits, hresults⟩ := h
  obtain ⟨-, hlimit, hkind, -⟩ := resultKey_inv hkey
  rw [hkind, hlimit] at hnearest
  rw [resultsOf_of_resultKey hvalid hvalid' hkey] at hresults
  exact ⟨ranked, rows, hits, hnearest, hhits, hresults⟩

end Results

/-! ## Questions answered by vectors -/

section Answered

variable {interrupt : Moment → Engine σ → Engine σ} {e : Engine σ} {g : Generation} {q : Query}
  {far : Row → Float}

/-- The ways in which a question comes to be answered by vectors. -/
inductive AnsweredByVectors (interrupt : Moment → Engine σ → Engine σ) (e : Engine σ)
    (g : Generation) (q : Query) (far : Row → Float) : Prop where
  /-- The store returns the nearest rows of the table. -/
  | searched (index : VectorIndex) (stored ranked rows : List Row) (asked : Database)
      (hvector : g.vector = some index)
      (hstored : (atEmbedding interrupt e q).database.rows? index.collection = some stored)
      (hsearch : Searches interrupt e g q (.ok (rows, asked)))
      (hnearest : Nearest far stored (isOfKind (askedKind q.kind)) q.limit ranked rows)
  /-- An answer is remembered that was found by vectors. -/
  | remembered (results : List Result) (q' : Query)
      (hremembered : e.results.get? (e.resultKey g q) = some results)
      (hvalid : q'.objection? = none) (hkey : e.resultKey g q' = e.resultKey g q)
      (hvectors : ByVectors far g q' results)

theorem complete_searching_found {key : ResultKey} {index : VectorIndex} {v : List Float}
    {rows : List Row} {asked : Database} {hits : List Hit} {results : List Result}
    (hsearch : e.database.search index.collection v q.limit (askedClause q.kind) =
      .ok (rows, asked))
    (hhits : rows.mapM Hit.ofRow = .ok hits)
    (hresults : resultsOf g q .vector (matchesOf hits) = .ok results) :
    ((⟨g, q, .searching key index v⟩ : Inquiry).complete interrupt e).1 = .ok results := by
  have hquery : index.query e.database v q.kind q.limit = (.ok (matchesOf hits), asked) := by
    unfold VectorIndex.query
    rw [queryStore_of_search hsearch hhits]
    rfl
  rw [complete_searching]
  unfold Inquiry.search
  dsimp only
  rw [hquery]
  exact congrArg Prod.fst (complete_found hresults)

/-- What is given is what the vectors of the generation answer, if its table holds their rows. -/
theorem exists_complete_inReach (hvalid : q.objection? = none)
    (hids : (g.chunks.map (·.id)).Nodup)
    (hheld : ∀ index stored, g.vector = some index →
      (atEmbedding interrupt e q).database.rows? index.collection = some stored →
        stored = chunkRows g.chunks)
    (hvectors : AnsweredByVectors interrupt e g q far) :
    ∃ order, InReach far g.chunks q order ∧
      ((⟨g, q, .opened⟩ : Inquiry).complete interrupt e).1 = .ok (vectorAnswers far q order) := by
  cases hvectors with
  | searched index stored ranked rows asked hvector hstored hsearch hnearest =>
    obtain rfl := hheld index stored hvector hstored
    obtain ⟨order, hits, hreach, hhits, hresults⟩ := exists_inReach_of_nearest hvalid hids hnearest
    obtain ⟨after, key, index', v, hfound, hcomplete⟩ := complete_of_searches hsearch
    refine ⟨order, hreach, ?_⟩
    rw [hcomplete]
    exact complete_searching_found hfound hhits hresults
  | remembered results q' hremembered hvalid' hkey hbyvectors =>
    obtain ⟨order, hreach, hresults⟩ :=
      (hbyvectors.of_resultKey hvalid hvalid' hkey).exists_inReach hvalid hids
    refine ⟨order, hreach, ?_⟩
    rw [complete_remembered hremembered, hresults]

/-- While the text of a question is embedded others may act on the same session, and tables may be
dropped besides. -/
def OthersAct (e : Engine σ) (past : List Action) (interrupt : Moment → Engine σ → Engine σ)
    (q : Query) : Prop :=
  ∃ more, ∀ name rows,
    (atEmbedding interrupt (Session.after e past).engine q).database.rows? name = some rows →
      (Session.after e (more ++ past)).engine.database.rows? name = some rows

/-- A question that is answered by vectors is given the embedded chunks of the kind in the order of
their distances, those whose similarity reaches the threshold, up to the limit. So the results do
not become more similar, no chunk comes twice, and a chunk that reaches the threshold is among them
unless as many that are at least as similar are. -/
theorem answered_eq_vectorAnswers (hfresh : e.holder = {})
    (hunowned : ∀ name, e.owns name = true → e.database.rows? name = none) (past : List Action)
    (hvalid : q.objection? = none) (hready : (Session.after e past).engine.ready = .ok g)
    (hids : (g.chunks.map (·.id)).Nodup) (hothers : OthersAct e past interrupt q)
    (hvectors : AnsweredByVectors interrupt (Session.after e past).engine g q far) :
    ∃ order results, InReach far g.chunks q order ∧
      ((Session.after e past).engine.answered interrupt q).1 = .ok (g, results) ∧
      results = vectorAnswers far q order ∧
      results.Pairwise (fun r s => s.similarity ≤ r.similarity) ∧
      (results.map (·.chunk.id)).Nodup ∧
      ∀ c ∈ g.chunks, c.isEmbedded = true → OfKind q c → q.threshold.value ≤ likeness far c →
        vectorAnswer far c ∈ results ∨
          (results.length : Int) = q.limit ∧ ∀ r ∈ results, likeness far c ≤ r.similarity := by
  have hheld : ∀ index stored, g.vector = some index →
      (atEmbedding interrupt (Session.after e past).engine q).database.rows? index.collection =
        some stored → stored = chunkRows g.chunks := by
    intro index stored hvector hstored
    obtain ⟨more, hkept⟩ := hothers
    exact Session.rows_of_current hfresh hunowned (current_of_ready hready) more hvector
      (hkept _ _ hstored)
  obtain ⟨order, hreach, hcomplete⟩ := exists_complete_inReach hvalid hids hheld hvectors
  let kept := order.filter fun c => q.threshold.value ≤ likeness far c
  have hdescending : kept.Pairwise fun c d => likeness far d ≤ likeness far c :=
    hreach.descending.sublist List.filter_sublist
  refine ⟨order, vectorAnswers far q order, hreach, ?_, rfl, ?_, ?_, ?_⟩
  · obtain ⟨hanswer, -⟩ := answered_of_ask interrupt (ask_of_ready hvalid hready)
    exact (hanswer _).mpr hcomplete
  · exact List.pairwise_map.mpr (hdescending.sublist (List.take_sublist _ _))
  · have hnodup : (order.map (·.id)).Nodup := by
      rw [(hreach.perm.map (·.id)).nodup_iff]
      exact hids.sublist (List.filter_sublist.map _)
    unfold vectorAnswers
    rw [List.map_map]
    exact hnodup.sublist (((List.take_sublist _ _).trans List.filter_sublist).map _)
  · intro c hc hembedded hkind hreached
    have hmem : c ∈ kept :=
      List.mem_filter.mpr ⟨hreach.mem_iff.mpr ⟨hc, hembedded, hkind⟩, decide_eq_true hreached⟩
    have hlimit : 0 < q.limit := (valid_inv hvalid).2.1
    rcases mem_take_of_pairwise hdescending q.limit.toNat hmem with hthere | ⟨hfull, hbetter⟩
    · exact Or.inl (List.mem_map_of_mem hthere)
    · refine Or.inr ⟨?_, ?_⟩
      · have hlength : (vectorAnswers far q order).length = q.limit.toNat := by
          rw [vectorAnswers, List.length_map]
          exact hfull
        omega
      · intro r hr
        obtain ⟨d, hd, rfl⟩ := List.mem_map.mp hr
        exact hbetter d hd

end Answered

/-- An embedder that tells texts apart by whether they name the module y. -/
def telling : Embedding.Embedder Unit where
  key := "telling"
  dimension := 2
  embed text world :=
    (.vector (if Text.contains "'y'".toList text.toList then [0.0, 1.0] else [1.0, 0.0]), world)

/-- The two imports, with a store and this embedder. -/
def toldApart : Engine Unit :=
  Session.importing "import 'y';\n\n\n\n\nimport 'x';"
    [Session.importNode 0 11, Session.importNode 16 27] (some telling)

/-- They are indexed, the second one embedded after the first. -/
def bothEmbedded : List Action :=
  List.replicate 5 (.build 0 0) ++ List.replicate 5 (.build 0 1) ++
    List.replicate 7 (.build 0 0) ++ [.index "/"]

/-- The engine that has indexed them. -/
def indexedBoth : Engine Unit :=
  (Session.after toldApart bothEmbedded).engine

/-- A question for one of the two. -/
def aboutOneOf : Query := { aboutImport with limit := 1 }

/-- What is computed of the engine. -/
theorem exists_indexedBoth :
    ∃ g y x stored, indexedBoth.ready = .ok g ∧
      g.vector = some ⟨"codebase_embeddings_session_1", 2⟩ ∧ g.chunks = [y, x] ∧
      (y.id = "a.js:1:y" ∧ y.isEmbedded = true ∧ Database.distance [1.0, 0.0] (rowOf y) = 1.0) ∧
      (x.id = "a.js:6:x" ∧ x.isEmbedded = true ∧ Database.distance [1.0, 0.0] (rowOf x) = 0.0) ∧
      indexedBoth.database.rows? "codebase_embeddings_session_1" = some stored ∧
      indexedBoth.results.entries = [] ∧ indexedBoth.monitor.available = true ∧
      indexedBoth.database.failures = [] ∧ indexedBoth.database.answer = none := by
  have hready : indexedBoth.ready.toOption.map (fun g => (g.vector, g.chunks.map fun c =>
      (c.id, c.isEmbedded, Database.distance [1.0, 0.0] (rowOf c)))) =
        some (some ⟨"codebase_embeddings_session_1", 2⟩,
          [("a.js:1:y", true, 1.0), ("a.js:6:x", true, 0.0)]) := by
    decide +kernel
  have hrest : ((indexedBoth.database.rows? "codebase_embeddings_session_1").isSome,
      indexedBoth.results.entries.isEmpty, indexedBoth.monitor.available,
      indexedBoth.database.failures.isEmpty, indexedBoth.database.answer.isNone) =
        (true, true, true, true, true) := by
    decide +kernel
  simp only [Prod.mk.injEq] at hrest
  obtain ⟨hthere, hempty, hserves, hhealthy, hanswer⟩ := hrest
  obtain ⟨g, hg, hpair⟩ := Option.map_eq_some_iff.mp hready
  obtain ⟨hvector, hchunks⟩ := Prod.mk.inj hpair
  obtain ⟨y, rest, hy, hfirst, hothers⟩ := List.map_eq_cons_iff.mp hchunks
  obtain ⟨x, rest', rfl, hsecond, hnone⟩ := List.map_eq_cons_iff.mp hothers
  obtain rfl := List.map_eq_nil_iff.mp hnone
  obtain ⟨stored, hstored⟩ := Option.isSome_iff_exists.mp hthere
  simp only [Prod.mk.injEq] at hfirst hsecond
  exact ⟨g, y, x, stored, eq_ok_of_toOption hg, hvector, hy, hfirst, hsecond, hstored,
    List.isEmpty_iff.mp hempty, hserves, List.isEmpty_iff.mp hhealthy,
    Option.isNone_iff_eq_none.mp hanswer⟩

theorem embedding_indexedBoth : embedding alone indexedBoth aboutOneOf = .vector [1.0, 0.0] := by
  -- no step has changed the embedder, so it need not be computed
  have hembedder : indexedBoth.embedder = some telling :=
    (Session.sameServices_after toldApart bothEmbedded).embedder
  exact embedding_eq (fun _ _ => rfl) hembedder

/-- The nearer one of the two answers the question. -/
theorem answered_eq_vectorAnswers_nearer :
    ∃ g x, indexedBoth.ready = .ok g ∧ x ∈ g.chunks ∧ x.id = "a.js:6:x" ∧
      AnsweredByVectors alone indexedBoth g aboutOneOf (Database.distance [1.0, 0.0]) ∧
      (indexedBoth.answered alone aboutOneOf).1 = .ok (g, [⟨x, 1.0, x.context, .vector⟩]) := by
  obtain ⟨g, y, x, stored, hready, hvector, hchunks, ⟨hy, hyembedded, hfar⟩,
    ⟨hx, hxembedded, hnear⟩, hstored, hempty, hserves, hhealthy, hanswer⟩ := exists_indexedBoth
  have hvalid : aboutOneOf.objection? = none := Option.isNone_iff_eq_none.mp (by decide +kernel)
  have hids : (g.chunks.map (·.id)).Nodup := by
    rw [hchunks, List.map_cons, List.map_singleton, hy, hx]
    decide
  have hunowned : ∀ name, toldApart.owns name = true → toldApart.database.rows? name = none :=
    fun name _ => rfl
  have hothers : OthersAct toldApart bothEmbedded alone aboutOneOf := by
    refine ⟨[], ?_⟩
    intro name rows hthere
    rw [atEmbedding_alone] at hthere
    exact hthere
  -- the distances of what is stored are those of the chunks
  have hrows : stored = [rowOf y, rowOf x] := by
    have hcurrent : (Session.after toldApart bothEmbedded).engine.holder.current = some g :=
      current_of_ready hready
    have hheld := Session.rows_of_current rfl hunowned hcurrent [] hvector hstored
    rw [hheld, chunkRows, hchunks]
    simp [hyembedded, hxembedded]
  have hnumbers : ∀ row ∈ stored, IsNumber (Database.distance [1.0, 0.0] row) := by
    intro row hrow
    rw [hrows, List.mem_pair] at hrow
    rcases hrow with rfl | rfl
    · rw [hfar]
      exact Vector.isNumber_one.1
    · rw [hnear]
      exact Vector.isNumber_zero.1
  have hvectors : AnsweredByVectors alone indexedBoth g aboutOneOf
      (Database.distance [1.0, 0.0]) := by
    have hlimit : (0 : Int) ≤ aboutOneOf.limit := by decide
    obtain ⟨asked, hfound⟩ := Vector.search_own hstored (Database.check_of_healthy hhealthy .open)
      (Database.check_of_healthy hhealthy .search) hanswer [1.0, 0.0] aboutOneOf.limit
      (askedClause aboutOneOf.kind)
    have hforgotten : indexedBoth.results.get? (indexedBoth.resultKey g aboutOneOf) = none := by
      show indexedBoth.results.entries.lookup _ = none
      rw [hempty]
      rfl
    refine .searched _ stored _ _ asked hvector ?_ ?_
      (Vector.nearest_found [1.0, 0.0] hlimit (isOfKind (askedKind aboutOneOf.kind)) hnumbers)
    · rw [atEmbedding_alone]
      exact hstored
    · refine ⟨hforgotten, hserves, _, [1.0, 0.0], hvector, embedding_indexedBoth, ?_⟩
      rw [atEmbedding_alone]
      exact hfound
  obtain ⟨order, results, hreach, hanswered, rfl, -⟩ :=
    answered_eq_vectorAnswers (e := toldApart) rfl hunowned bothEmbedded hvalid hready hids hothers
      hvectors
  have horder : order = [x, y] := by
    have hperm := hreach.perm
    have hboth : (g.chunks.filter fun c => c.isEmbedded ∧ OfKind aboutOneOf c) = [y, x] := by
      rw [hchunks]
      have hkind : ∀ c, OfKind aboutOneOf c := by
        intro c kind hgiven
        exact absurd hgiven (by simp [aboutOneOf, aboutImport])
      simp [hyembedded, hxembedded, hkind]
    rw [hboth] at hperm
    rcases List.perm_pair.mp hperm with hkept | hturned
    · have hascending := hreach.ascending
      rw [hkept, List.pairwise_pair, hfar, hnear] at hascending
      exact absurd hascending (by decide +kernel)
    · exact hturned
  have hlike : likeness (Database.distance [1.0, 0.0]) x = 1.0 := by
    unfold likeness
    rw [hnear]
    decide +kernel
  have hreached : aboutOneOf.threshold.value ≤ (1.0 : Float) := by decide +kernel
  refine ⟨g, x, hready, by simp [hchunks], hx, hvectors, hanswered.trans ?_⟩
  rw [horder, vectorAnswers, List.filter_cons_of_pos (by rw [hlike]; exact decide_eq_true hreached)]
  show Except.ok (g, [vectorAnswer (Database.distance [1.0, 0.0]) x]) = _
  rw [vectorAnswer, hlike]

end CodeSearch.Engine

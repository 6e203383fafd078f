import CodeSearch.Proofs.Decimal.Ratio
import CodeSearch.Proofs.Engine.Answers
import CodeSearch.Proofs.Engine.ChunkIds
import CodeSearch.Proofs.Search.Ranking
import Mathlib.Data.List.Permutation

/-!
What questions are answered by words.

A question that is answered by words goes through the chunks twice: the documents made of them are
matched, put in order and cut, and what is left is led back to chunks, held against the threshold
and the kind, put in order and cut once more. With distinct ids the outcome is that of one pass
(`wordAnswers`): every chunk is scored by the share of the words that occur in it, those that
qualify are put in order, and the first ones are taken.
-/
set_option autoImplicit false

namespace CodeSearch.Engine

open CodeSearch.Decimal (IsNumber isNumber_of_le le_iff_place_le lt_iff_of_place_eq
  lt_iff_place_lt place place_eq_of_toBits ratio_le_one ratio_pos)
open CodeSearch.Index (Event Generation)
open CodeSearch.Search

variable {σ : Type}

/-! ## Scores -/

/-- The text of a chunk that words are looked for in. -/
def searchedText (c : Chunk) : String :=
  Text.lower (c.name ++ " " ++ c.text ++ " " ++ c.context)

/-- The words of a question. -/
def wordsOf (q : Query) : List (List Char) :=
  termsOf (q.text.getD "")

/-- How many words of a question occur in a chunk; a word that comes twice counts twice. -/
def wordsIn (q : Query) (c : Chunk) : Nat :=
  (wordsOf q).countP fun word => decide (word <:+: (searchedText c).toList)

/-- The share of the words of a question that occur in a chunk. -/
def share (q : Query) (c : Chunk) : Float :=
  Decimal.ratio (wordsIn q c) (wordsOf q).length

/-- A chunk is of the kind that is asked for, if one is. -/
def OfKind (q : Query) (c : Chunk) : Prop :=
  ∀ kind ∈ q.kind, c.kind = kind

instance (q : Query) (c : Chunk) : Decidable (OfKind q c) :=
  inferInstanceAs (Decidable (∀ kind ∈ q.kind, c.kind = kind))

/-- A chunk as an answer by words. -/
def wordAnswer (q : Query) (c : Chunk) : Result :=
  ⟨c, share q c, c.context, .lexical⟩

/-- The chunks that qualify: some of the words occur in them, their share reaches the threshold, and
they are of the kind. -/
def qualifying (chunks : List Chunk) (q : Query) : List Chunk :=
  chunks.filter fun c => 0 < wordsIn q c ∧ q.threshold.value ≤ share q c ∧ OfKind q c

/-- What answers a question by words, in the order of the chunks. -/
def wordAnswers (chunks : List Chunk) (q : Query) : List Result :=
  (qualifying chunks q).map (wordAnswer q)

theorem wordsIn_le (q : Query) (c : Chunk) : wordsIn q c ≤ (wordsOf q).length :=
  List.countP_le_length

theorem isNumber_share {q : Query} {c : Chunk} (h : 0 < wordsIn q c) : IsNumber (share q c) :=
  (ratio_le_one h (wordsIn_le q c)).1

/-! ## Questions that make sense -/

section Valid

variable {q : Query}

theorem valid_inv (hvalid : q.objection? = none) :
    q.threshold.isValid = true ∧ 0 < q.limit ∧ ∀ kind ∈ q.kind, kind ∈ Chunk.kinds := by
  unfold Query.objection? at hvalid
  split at hvalid
  · exact absurd hvalid (by simp)
  split at hvalid
  · exact absurd hvalid (by simp)
  split at hvalid
  · exact absurd hvalid (by simp)
  rename_i hthreshold hlimit
  refine ⟨by simpa using hthreshold, by omega, ?_⟩
  intro kind hkind
  rw [Option.mem_def.mp hkind] at hvalid
  simpa using hvalid

theorem isEmpty_of_valid (hvalid : q.objection? = none) :
    ∀ kind ∈ q.kind, kind.isEmpty = false := by
  intro kind hkind
  have hkinds : ∀ k ∈ Chunk.kinds, k.isEmpty = false := by decide
  exact hkinds kind ((valid_inv hvalid).2.2 kind hkind)

theorem isNumber_threshold (hvalid : q.objection? = none) : IsNumber q.threshold.value := by
  have hthreshold := (valid_inv hvalid).1
  cases hgiven : q.threshold with
  | whole i =>
    -- only zero and one are whole numbers within the bounds
    rw [hgiven] at hthreshold
    simp only [Threshold.isValid, Bool.and_eq_true, decide_eq_true_eq] at hthreshold
    have hi : i = 0 ∨ i = 1 := by omega
    rcases hi with rfl | rfl
    · exact (isNumber_of_le (x := Float.ofInt 0) (y := 1.0) (by decide +kernel)).1
    · exact (isNumber_of_le (x := Float.ofInt 1) (y := 1.0) (by decide +kernel)).1
  | real x =>
    rw [hgiven] at hthreshold
    simp only [Threshold.isValid, Bool.and_eq_true, decide_eq_true_eq] at hthreshold
    exact (isNumber_of_le hthreshold.1).2

/-- Questions that are remembered alike ask for as many answers, and hold them against thresholds at
one place. -/
theorem resultKey_inv {e : Engine σ} {g : Generation} {q' : Query}
    (hkey : e.resultKey g q' = e.resultKey g q) :
    q'.text = q.text ∧ q'.limit = q.limit ∧ q'.kind = q.kind ∧
      place q'.threshold.value = place q.threshold.value := by
  unfold resultKey at hkey
  obtain ⟨-, htext, hbits, hlimit, hkind, -⟩ := ResultKey.mk.inj hkey
  -- the thresholds may differ in the sign of a zero, and that has no place of its own
  exact ⟨htext, hlimit, hkind, place_eq_of_toBits hbits⟩

/-- Questions that are remembered alike have the same answers out of the same matches. -/
theorem resultsOf_of_resultKey {e : Engine σ} {g : Generation} {q' : Query}
    (hvalid : q.objection? = none) (hvalid' : q'.objection? = none)
    (hkey : e.resultKey g q' = e.resultKey g q) (backend : Backend) (found : List Match) :
    resultsOf g q' backend found = resultsOf g q backend found := by
  obtain ⟨-, hlimit, hkind, hplace⟩ := resultKey_inv hkey
  have hanswers : ∀ c similarity, answers q' c similarity = answers q c similarity := by
    intro c similarity
    have hthreshold := lt_iff_of_place_eq (z := similarity) (isNumber_threshold hvalid')
      (isNumber_threshold hvalid) hplace
    unfold answers
    rw [decide_eq_decide.mpr hthreshold, hkind]
  have hresultOf : resultOf g q' backend = resultOf g q backend := by
    funext m
    unfold resultOf
    simp only [hanswers]
  unfold resultsOf
  rw [hresultOf, hlimit]

end Valid

/-! ## Matches led back to chunks -/

section Matches

variable {g : Generation} {q : Query} {similarity : Chunk → Float} {found : List Chunk}

/-- Each chunk that is found is led back to, and gives a result if it answers. -/
theorem mapM_resultOf (hids : (g.chunks.map (·.id)).Nodup) (backend : Backend)
    (hfound : ∀ c ∈ found, c ∈ g.chunks) :
    (found.map fun c => (⟨.text c.id, similarity c⟩ : Match)).mapM (resultOf g q backend) =
      .ok (found.map fun c => if answers q c (similarity c) then
        some ⟨c, similarity c, c.context, backend⟩ else none) := by
  induction found with
  | nil => rfl
  | cons c found ih =>
    obtain ⟨hc, hrest⟩ := List.forall_mem_cons.mp hfound
    have hnamed : g.chunkNamed (.text c.id) = .ok (some c) :=
      congrArg Except.ok (chunk?_id hids hc)
    have hresult : resultOf g q backend ⟨.text c.id, similarity c⟩ =
        .ok (if answers q c (similarity c) then
          some ⟨c, similarity c, c.context, backend⟩ else none) := by
      unfold resultOf
      rw [hnamed]
      rfl
    rw [List.map_cons, List.mapM_cons, hresult, ih hrest]
    rfl

theorem filterMap_id_ite {α β : Type} (p : α → Bool) (f : α → β) (xs : List α) :
    (xs.map fun x => if p x then some (f x) else none).filterMap id = (xs.filter p).map f := by
  rw [List.filterMap_map]
  induction xs with
  | nil => rfl
  | cons x xs ih =>
    by_cases hx : p x = true
    · rw [List.filter_cons_of_pos hx, List.map_cons, ← ih]
      simp [hx]
    · rw [List.filter_cons_of_neg hx, ← ih]
      simp [hx]

/-- A chunk of the kind answers exactly if it reaches the threshold. -/
theorem answers_of_ofKind {c : Chunk} (hkind : OfKind q c) (similarity : Float) :
    answers q c similarity = !decide (similarity < q.threshold.value) := by
  unfold answers
  cases hgiven : q.kind with
  | none => simp
  | some kind =>
    have hsame : c.kind = kind := hkind kind hgiven
    simp [hsame]

/-- Chunks that are found in the order of their similarities make results in that order, those that
answer up to the limit. -/
theorem resultsOf_of_pairwise (hids : (g.chunks.map (·.id)).Nodup) (hlimit : 0 ≤ q.limit)
    (backend : Backend) (hfound : ∀ c ∈ found, c ∈ g.chunks)
    (hnumbers : ∀ c ∈ found, IsNumber (similarity c))
    (hsorted : found.Pairwise fun c d => similarity d ≤ similarity c) :
    resultsOf g q backend (found.map fun c => ⟨.text c.id, similarity c⟩) =
      .ok (((found.filter fun c => answers q c (similarity c)).take q.limit.toNat).map fun c =>
        ⟨c, similarity c, c.context, backend⟩) := by
  let kept := found.filter fun c => answers q c (similarity c)
  have hkept : ∀ c ∈ kept, IsNumber (similarity c) :=
    fun c hc => hnumbers c (List.mem_of_mem_filter hc)
  -- what is in its order already stays in it
  have hagain : bestFirst similarity kept = kept :=
    bestFirst_of_pairwise hkept (hsorted.sublist List.filter_sublist)
  unfold resultsOf
  rw [mapM_resultOf hids backend hfound]
  apply congrArg Except.ok
  rw [filterMap_id_ite, bestFirst_map, upTo_eq_take hlimit, ← List.map_take, hagain]

end Matches

/-! ## One pass for two -/

section Passes

variable {q : Query} {chunks : List Chunk}

/-- A chunk as it is found by words. -/
def wordMatch (q : Query) (c : Chunk) : Match :=
  ⟨.text c.id, share q c⟩

/-- The chunks that the documents match. -/
def candidates (chunks : List Chunk) (q : Query) : List Chunk :=
  chunks.filter fun c => OfKind q c ∧ 0 < wordsIn q c

theorem hits_ofChunk (q : Query) (c : Chunk) :
    (Document.ofChunk c).hits (wordsOf q) = wordsIn q c := by
  have htext : (Document.ofChunk c).text = (searchedText c).toList := by
    rw [searchedText, Text.lower, String.toList_ofList]
    rfl
  unfold Document.hits wordsIn
  apply List.countP_congr
  intro word hword
  rw [htext, Text.contains_iff_infix, decide_eq_true_iff]

theorem match?_ofChunk (q : Query) (c : Chunk) :
    (Document.ofChunk c).match? (wordsOf q) =
      if 0 < wordsIn q c then some (wordMatch q c) else none := by
  unfold Document.match?
  rw [hits_ofChunk]
  by_cases hnone : wordsIn q c = 0
  · rw [hnone]
    rfl
  · have hpos : 0 < wordsIn q c := Nat.pos_of_ne_zero hnone
    rw [if_pos hpos]
    split
    · rename_i hzero
      exact absurd hzero hnone
    · rfl

theorem isOfKind_ofChunk (hkinds : ∀ kind ∈ q.kind, kind.isEmpty = false) (c : Chunk) :
    (Document.ofChunk c).isOfKind q.kind = decide (OfKind q c) := by
  rw [Bool.eq_iff_iff, decide_eq_true_iff]
  unfold Document.isOfKind OfKind
  cases hkind : q.kind with
  | none => simp
  | some kind =>
    have hnonempty : kind.isEmpty = false := hkinds kind hkind
    simp [hnonempty, Document.ofChunk]

/-- The matches in the documents of some chunks are those of the candidates. -/
theorem matches_ofChunks (hkinds : ∀ kind ∈ q.kind, kind.isEmpty = false) (chunks : List Chunk) :
    ((chunks.map Document.ofChunk).filter (Document.isOfKind q.kind)).filterMap
        (Document.match? (wordsOf q)) =
      (candidates chunks q).map (wordMatch q) := by
  induction chunks with
  | nil => rfl
  | cons c chunks ih =>
    unfold candidates at ih ⊢
    rw [List.map_cons, List.filter_cons, List.filter_cons, isOfKind_ofChunk hkinds]
    by_cases hkind : OfKind q c
    · rw [if_pos (decide_eq_true hkind), List.filterMap_cons, match?_ofChunk, ih]
      by_cases hhit : 0 < wordsIn q c
      · simp only [hhit, hkind, if_true, and_self, decide_true, List.map_cons]
      · simp only [hhit, if_false, and_false, decide_false, Bool.false_eq_true]
    · simp only [hkind, false_and, decide_false, Bool.false_eq_true, if_false, ih]

/-- What the store of documents finds is led back to the best candidates. -/
theorem query_ofChunks (hvalid : q.objection? = none) (chunks : List Chunk) :
    (Lexical.ofChunks chunks).query (q.text.getD "") q.kind q.limit =
      ((bestFirst (share q) (candidates chunks q)).take q.limit.toNat).map (wordMatch q) := by
  have hlimit := (valid_inv hvalid).2.1
  have hfound := matches_ofChunks (isEmpty_of_valid hvalid) chunks
  unfold Lexical.query
  dsimp only [Lexical.ofChunks]
  rw [show termsOf (q.text.getD "") = wordsOf q from rfl, hfound, upTo_eq_take (Int.le_of_lt hlimit),
    bestFirst_map, List.map_take]
  rfl

/-- The candidates that reach the threshold are those that answer. -/
theorem filter_candidates (hvalid : q.objection? = none) (chunks : List Chunk) :
    (candidates chunks q).filter (fun c => !decide (share q c < q.threshold.value)) =
      qualifying chunks q := by
  unfold candidates qualifying
  rw [List.filter_filter]
  apply List.filter_congr
  intro c hc
  rw [Bool.eq_iff_iff, Bool.and_eq_true, Bool.not_eq_true', decide_eq_false_iff_not,
    decide_eq_true_iff, decide_eq_true_iff]
  by_cases hhit : 0 < wordsIn q c
  · have hshare := isNumber_share hhit
    have hthreshold := isNumber_threshold hvalid
    rw [lt_iff_place_lt hshare hthreshold, le_iff_place_le hthreshold hshare, Int.not_lt]
    tauto
  · tauto

theorem isNumber_candidates {c : Chunk} (hc : c ∈ candidates chunks q) :
    IsNumber (share q c) :=
  isNumber_share (of_decide_eq_true (List.mem_filter.mp hc).2).2

/-- The candidates are cut before the threshold is looked at, and nothing is lost by that. -/
theorem filter_take_candidates (hvalid : q.objection? = none) (chunks : List Chunk) (n : Nat) :
    ((bestFirst (share q) (candidates chunks q)).take n).filter
        (fun c => answers q c (share q c)) =
      (bestFirst (share q) (qualifying chunks q)).take n := by
  have hperm := bestFirst_perm (share q) (candidates chunks q)
  have hsame : ∀ c ∈ (bestFirst (share q) (candidates chunks q)).take n,
      answers q c (share q c) = !decide (share q c < q.threshold.value) := by
    intro c hc
    have hcandidate := hperm.mem_iff.mp (List.mem_of_mem_take hc)
    exact answers_of_ofKind (of_decide_eq_true (List.mem_filter.mp hcandidate).2).1 _
  rw [List.filter_congr hsame, ← filter_candidates hvalid]
  apply bestFirst_take_filter
  · intro c hc
    exact isNumber_candidates hc
  · exact isNumber_threshold hvalid

/-- What the words of a generation answer is what one pass through its chunks gives. -/
theorem byWords_iff {g : Generation} (hvalid : q.objection? = none)
    (hlexical : g.lexical = .ofChunks g.chunks) (hids : (g.chunks.map (·.id)).Nodup)
    (results : List Result) :
    ByWords g q results ↔
      results = (bestFirst Result.similarity (wordAnswers g.chunks q)).take q.limit.toNat := by
  let n := q.limit.toNat
  have hlimit : 0 < q.limit := (valid_inv hvalid).2.1
  have hnumbers : ∀ c ∈ candidates g.chunks q, IsNumber (share q c) :=
    fun c hc => isNumber_candidates hc
  have hperm := bestFirst_perm (share q) (candidates g.chunks q)
  have hfound : ∀ c ∈ (bestFirst (share q) (candidates g.chunks q)).take n,
      c ∈ candidates g.chunks q := fun c hc => hperm.mem_iff.mp (List.mem_of_mem_take hc)
  have hsorted := (pairwise_bestFirst hnumbers).sublist (List.take_sublist n _)
  have hsimilarity : (fun c => (wordAnswer q c).similarity) = share q := rfl
  have hresults : resultsOf g q .lexical (g.lexical.query (q.text.getD "") q.kind q.limit) =
      .ok ((bestFirst Result.similarity (wordAnswers g.chunks q)).take n) := by
    rw [hlexical, query_ofChunks hvalid]
    refine (resultsOf_of_pairwise hids (Int.le_of_lt hlimit) .lexical
      (fun c hc => List.mem_of_mem_filter (hfound c hc))
      (fun c hc => hnumbers c (hfound c hc)) hsorted).trans ?_
    rw [filter_take_candidates hvalid, List.take_take, Nat.min_self, wordAnswers, bestFirst_map,
      ← List.map_take, hsimilarity]
    rfl
  unfold ByWords
  rw [hresults, Except.ok.injEq]
  exact eq_comm

end Passes

/-! ## Generations and their documents -/

/-- What a build has made holds the documents of its chunks. -/
def Build.Documents (b : Build σ) : Prop :=
  ∀ g, b.stage.made? = some g → g.lexical = .ofChunks g.chunks

theorem documents_stepAt (e : Engine σ) (b : Build σ) (place : Nat) (h : b.Documents) :
    (b.stepAt e place).1.Documents := by
  intro g hg
  cases stepAt_move e b place with
  | idle hquiet hnext =>
    rw [hnext] at hg
    exact h g hg
  | made extract chunks embedded after hstage hafter hnext =>
    rw [hnext] at hg
    rcases hafter with ⟨rfl, -⟩ | rfl
    · obtain rfl := Option.some.inj hg
      rfl
    · obtain rfl := Option.some.inj hg
      rfl
  | store g' embedded hstage hnext =>
    have hbefore : g'.lexical = .ofChunks g'.chunks := h g' (by rw [hstage]; rfl)
    rw [hnext] at hg
    rcases store_stage e b g' embedded with ⟨vector, hafter⟩ | ⟨fault, hafter⟩
    · rw [hafter] at hg
      obtain rfl := Option.some.inj hg
      exact hbefore
    · rw [hafter] at hg
      exact absurd hg (by simp [Stage.made?])
  -- no other step makes a generation
  | _ => simp_all [Stage.made?, Build.publish]

theorem current_of_ready {e : Engine σ} {g : Generation} (hready : e.ready = .ok g) :
    e.holder.current = some g := by
  unfold Engine.ready Index.Holder.await Index.Holder.arrive at hready
  cases hcurrent : e.holder.current with
  | none =>
    by_cases hquiet : e.holder.underWay = 0
    · simp [hcurrent, hquiet] at hready
    · simp [hcurrent, hquiet] at hready
  | some g' =>
    by_cases hquiet : e.holder.underWay = 0
    · simpa [hcurrent, hquiet, Index.Holder.outcome] using hready
    · simp [hcurrent, hquiet] at hready

namespace Session

/-- A generation that was published holds the documents of its chunks. -/
theorem lexical_of_publish {e : Engine σ} {past : List Action} {g : Generation}
    (hg : Event.publish g ∈ trace e past) : g.lexical = .ofChunks g.chunks := by
  induction past with
  | nil => exact absurd hg List.not_mem_nil
  | cons a past ih =>
    rw [trace, List.mem_append, Option.mem_toList] at hg
    rcases hg with hnow | hbefore
    · obtain ⟨call, place, b, embedded, -, hb, hstage⟩ := exists_build_of_event hnow
      have hbegins : ∀ (e : Engine σ) path b engine, e.begin path = .ok (b, engine) →
          b.Documents := by
        intro e path b engine hbegin g' hg'
        rw [stage_begin hbegin] at hg'
        exact absurd hg' (by simp [Stage.made?])
      have hdocuments : b.Documents := forall_builds hbegins documents_stepAt e past b
        (List.mem_of_getElem? hb)
      exact hdocuments g (by rw [hstage]; rfl)
    · exact ih hbefore

theorem lexical_of_ready {e : Engine σ} (hfresh : e.holder = {}) {past : List Action}
    {g : Generation} (hready : (after e past).engine.ready = .ok g) :
    g.lexical = .ofChunks g.chunks :=
  lexical_of_publish (publish_mem_of_current hfresh (current_of_ready hready))

end Session

/-! ## Questions answered by words -/

section Answered

variable {interrupt : Moment → Engine σ → Engine σ} {e : Engine σ} {g : Generation} {q : Query}

/-- The ways in which a question comes to be answered by words. -/
inductive AnsweredByWords (interrupt : Moment → Engine σ → Engine σ) (e : Engine σ)
    (g : Generation) (q : Query) : Prop where
  /-- There are no vectors, or their store is given up. -/
  | noStore (hforgotten : e.results.get? (e.resultKey g q) = none)
      (hnone : g.vector = none ∨ e.monitor.available = false)
  | notEmbedded (hforgotten : e.results.get? (e.resultKey g q) = none)
      (reason : Embedding.Failure) (hfailure : embedding interrupt e q = .failure reason)
  | searchFailed (reason : String) (hsearch : Searches interrupt e g q (.error reason))
  /-- An answer is remembered that was found by words. -/
  | remembered (results : List Result) (q' : Query)
      (hremembered : e.results.get? (e.resultKey g q) = some results)
      (hvalid : q'.objection? = none) (hkey : e.resultKey g q' = e.resultKey g q)
      (hwords : ByWords g q' results)

/-- What is given is what the words of the generation answer. -/
theorem exists_complete_byWords (hvalid : q.objection? = none)
    (hwords : AnsweredByWords interrupt e g q) :
    ∃ results, ByWords g q results ∧
      ((⟨g, q, .opened⟩ : Inquiry).complete interrupt e).1 = .ok results := by
  cases hwords with
  | noStore hforgotten hnone =>
    obtain ⟨results, hresults, hcomplete⟩ :=
      complete_byWords interrupt e g q (e.resultKey g q)
    have hchoose : (⟨g, q, .choosing (e.resultKey g q)⟩ : Inquiry).choose e (e.resultKey g q) =
        .byWords (e.resultKey g q) := by
      unfold Inquiry.choose
      dsimp only
      rcases hnone with hnone | hdown
      · rw [hnone]
      · cases g.vector with
        | none => rfl
        | some index => exact if_neg (by simp [hdown])
    refine ⟨results, hresults, ?_⟩
    rw [complete_forgotten hforgotten, hchoose]
    exact congrArg Prod.fst hcomplete
  | notEmbedded hforgotten reason hfailure =>
    have hnever : ∀ outcome, ¬ Searches interrupt e g q outcome := by
      rintro outcome ⟨-, -, index, v, -, hvector, -⟩
      rw [hfailure] at hvector
      exact absurd hvector (by simp)
    have hembed : ∀ fault, embedding interrupt e q ≠ .crash fault := by
      intro fault
      rw [hfailure]
      simp
    obtain ⟨results, hresults, hfrom⟩ := complete_of_not_searches hnever hembed
    rcases hfrom with hremembered | hbywords
    · rw [hforgotten] at hremembered
      exact absurd hremembered (by simp)
    · exact ⟨results, hbywords, hresults⟩
  | searchFailed reason hsearch =>
    obtain ⟨after, key, index, v, hfails, hcomplete⟩ := complete_of_searches hsearch
    obtain ⟨results, hbywords, hresults, -⟩ :=
      complete_searching_unavailable interrupt g key hfails
    exact ⟨results, hbywords, by rw [hcomplete, hresults]⟩
  | remembered results q' hremembered hvalid' hkey hbywords =>
    -- the answer is to a question that is remembered alike, and so to this one
    obtain ⟨htext, hlimit, hkind, -⟩ := resultKey_inv hkey
    refine ⟨results, ?_, complete_remembered hremembered⟩
    unfold ByWords at hbywords ⊢
    rw [← resultsOf_of_resultKey hvalid hvalid' hkey, ← htext, ← hlimit, ← hkind]
    exact hbywords

/-- A question that is answered by words is given the chunks that qualify, scored by the share of
its words that occur in them, in their order and up to the limit. A share is positive unless the
question has more words than floating point can divide by. -/
theorem answered_eq_wordAnswers (hvalid : q.objection? = none) (hready : e.ready = .ok g)
    (hlexical : g.lexical = .ofChunks g.chunks) (hids : (g.chunks.map (·.id)).Nodup)
    (hwords : AnsweredByWords interrupt e g q) :
    ∃ ranked, Ranks Result.similarity (wordAnswers g.chunks q) ranked ∧
      (e.answered interrupt q).1 = .ok (g, ranked.take q.limit.toNat) ∧
      ∀ r ∈ ranked, r.backend = .lexical ∧ r.similarity ≤ 1.0 ∧
        ((wordsOf q).length < 2 ^ 1022 → 0.0 < r.similarity) := by
  have hask : e.ask q = .ok ⟨g, q, .opened⟩ := by
    unfold Engine.ask
    rw [hvalid, hready]
  have hshares : ∀ r ∈ wordAnswers g.chunks q,
      ∃ c, 0 < wordsIn q c ∧ r = wordAnswer q c := by
    intro r hr
    obtain ⟨c, hc, rfl⟩ := List.mem_map.mp hr
    exact ⟨c, (of_decide_eq_true (List.mem_filter.mp hc).2).1, rfl⟩
  have hnumbers : ∀ r ∈ wordAnswers g.chunks q, IsNumber r.similarity := by
    intro r hr
    obtain ⟨c, hhit, rfl⟩ := hshares r hr
    exact isNumber_share hhit
  have hranks := ranks_bestFirst hnumbers
  obtain ⟨results, hbywords, hcomplete⟩ := exists_complete_byWords hvalid hwords
  have hresults := (byWords_iff hvalid hlexical hids results).mp hbywords
  refine ⟨bestFirst Result.similarity (wordAnswers g.chunks q), hranks, ?_, ?_⟩
  · rw [← hresults]
    exact ((answered_of_ask interrupt hask).1 results).mpr hcomplete
  · intro r hr
    obtain ⟨c, hhit, rfl⟩ := hshares r (hranks.perm.mem_iff.mp hr)
    have hle := wordsIn_le q c
    have hnonzero : (wordsOf q).length ≠ 0 := by
      omega
    have hlog : ∀ k, (wordsOf q).length < 2 ^ k → (wordsOf q).length.log2 < k :=
      fun k => (Nat.log2_lt hnonzero).mpr
    refine ⟨rfl, (ratio_le_one hhit hle).2, ?_⟩
    intro hfew
    exact ratio_pos hhit hle (hlog 1022 hfew)

end Answered

/-- Two imports with some lines between them. -/
def twoImports : Engine Unit :=
  Session.importing "import 'y';\n\n\n\n\nimport 'x';"
    [Session.importNode 0 11, Session.importNode 16 27] none

/-- An engine without a store that has indexed the two imports. -/
def indexedTwo : Engine Unit :=
  (Session.after twoImports (Session.indexing 0 5)).engine

/-- A question for the better one of the two. -/
def aboutOne : Query := { text := some "Import x", threshold := .whole 0, limit := 1 }

/-- What is computed of the engine and of what the words of its chunks answer. -/
theorem exists_indexedTwo :
    ∃ g first second, indexedTwo.ready = .ok g ∧ g.vector = none ∧
      (g.chunks.map (·.id)).Nodup ∧ wordAnswers g.chunks aboutOne = [first, second] ∧
        first.chunk.id = "a.js:1:y" ∧ first.similarity = 0.5 ∧
          second.chunk.id = "a.js:6:x" ∧ second.similarity = 1.0 := by
  have hfound : indexedTwo.ready.toOption.map (fun g => (g.vector.isNone, g.chunks.map (·.id),
      (wordAnswers g.chunks aboutOne).map fun r => (r.chunk.id, r.similarity))) =
        some (true, ["a.js:1:y", "a.js:6:x"], [("a.js:1:y", 0.5), ("a.js:6:x", 1.0)]) := by
    decide +kernel
  obtain ⟨g, hg, hpair⟩ := Option.map_eq_some_iff.mp hfound
  obtain ⟨hvector, hpair⟩ := Prod.mk.inj hpair
  obtain ⟨hids, hanswers⟩ := Prod.mk.inj hpair
  obtain ⟨first, rest, hfirst, h₁, hanswers⟩ := List.map_eq_cons_iff.mp hanswers
  obtain ⟨second, rest', rfl, h₂, hanswers⟩ := List.map_eq_cons_iff.mp hanswers
  obtain rfl := List.map_eq_nil_iff.mp hanswers
  have hready := eq_ok_of_toOption hg
  obtain ⟨hid₁, hshare₁⟩ := Prod.mk.inj h₁
  obtain ⟨hid₂, hshare₂⟩ := Prod.mk.inj h₂
  refine ⟨g, first, second, hready, Option.isNone_iff_eq_none.mp hvector, ?_, hfirst, hid₁,
    hshare₁, hid₂, hshare₂⟩
  rw [hids]
  decide

/-- Of the two imports the second one is given, as it holds both words. -/
theorem answered_eq_wordAnswers_twoImports :
    ∃ g first second, indexedTwo.ready = .ok g ∧ AnsweredByWords alone indexedTwo g aboutOne ∧
      wordAnswers g.chunks aboutOne = [first, second] ∧ first.chunk.id = "a.js:1:y" ∧
        first.similarity = 0.5 ∧ second.chunk.id = "a.js:6:x" ∧ second.similarity = 1.0 ∧
          (indexedTwo.answered alone aboutOne).1 = .ok (g, [second]) := by
  obtain ⟨g, first, second, hready, hvector, hids, hfound, hid₁, hshare₁, hid₂, hshare₂⟩ :=
    exists_indexedTwo
  have hvalid : aboutOne.objection? = none := Option.isNone_iff_eq_none.mp (by decide +kernel)
  have hempty : indexedTwo.results.entries.isEmpty = true := by
    decide +kernel
  have hforgotten : indexedTwo.results.get? (indexedTwo.resultKey g aboutOne) = none := by
    show indexedTwo.results.entries.lookup _ = none
    rw [List.isEmpty_iff.mp hempty]
    rfl
  have hwords : AnsweredByWords alone indexedTwo g aboutOne :=
    .noStore hforgotten (Or.inl hvector)
  have hlexical : g.lexical = .ofChunks g.chunks := Session.lexical_of_ready rfl hready
  obtain ⟨ranked, hranks, hanswered, -⟩ :=
    answered_eq_wordAnswers hvalid hready hlexical hids hwords
  -- the better one comes first
  have horder : ranked = [second, first] := by
    rw [hfound] at hranks
    rcases List.perm_pair.mp hranks.perm with hkept | hturned
    · have hle := hranks.sorted
      rw [hkept, List.pairwise_pair, hshare₁, hshare₂] at hle
      exact absurd hle (by decide +kernel)
    · exact hturned
  refine ⟨g, first, second, hready, hwords, hfound, hid₁, hshare₁, hid₂, hshare₂, ?_⟩
  rw [hanswered, horder]
  rfl

end CodeSearch.Engine

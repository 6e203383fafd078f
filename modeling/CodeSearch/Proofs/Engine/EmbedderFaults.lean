import CodeSearch.Proofs.Embedding.Coherence
import CodeSearch.Proofs.Embedding.Contract
import CodeSearch.Proofs.Engine.Indexing
import CodeSearch.Proofs.Engine.Provenance

/-!
What becomes of a call when the embedder breaks.

A text on which the embedder breaks costs the whole call: no second attempt is made, and nothing else is
done instead. For a question that is settled by one text, its own. For a directory it depends on the
texts of its chunks: if the embedder never breaks on any of them the directory is indexed, and if it
always breaks on one of them, of which no vector is kept either, it is not. In between slots take turns
with the vectors that are kept, and what is said of a text is kept by each of their steps
(`Slot.tried_step`), by each step of the build (`Build.Bearing.stepAt`), and so at its end
(`ends_index`).

Which texts these are is known for what can be chosen (`Embedding.Served`), and altogether that makes
out when an embedder lives up to what the rest of the library expects of it
(`embedded_properly_iff`).
-/
set_option autoImplicit false

namespace CodeSearch

open CodeSearch.Embedding (Embedder Outcome Slot Vectors vectorKey vectorKey_inj firstCrash)

variable {σ : Type}

/-! ## Slots -/

namespace Embedding

/-- What is known of an embedder: it never breaks on a text that is safe, and always on one that is
lost. -/
structure Known (embedder : Embedder σ) (safe lost : String → Prop) : Prop where
  safe : ∀ text, safe text → ∀ world fault, (embedder.embed text world).1 ≠ .crash fault
  lost : ∀ text, lost text → ∀ world, ∃ fault, (embedder.embed text world).1 = .crash fault

/-- No vector is kept for a text that is lost. -/
def Unlost (embedder : Embedder σ) (lost : String → Prop) (vectors : Vectors) : Prop :=
  ∀ text v, vectors.get? (vectorKey embedder text) = some v → ¬ lost text

/-- What a slot has come to so far, if the work is never to stop. -/
def Slot.Tried (safe lost : String → Prop) (s : Slot) : Prop :=
  match s.progress with
  | .waiting | .admitted | .calling _ => True
  | .received _ | .embedded _ | .failed => ¬ lost s.chunk.canonicalText
  | .skipped => False
  | .crashed _ => ¬ safe s.chunk.canonicalText

variable {embedder : Embedder σ} {safe lost : String → Prop} {vectors : Vectors}

theorem Unlost.put (h : Unlost embedder lost vectors) {text : String} (htext : ¬ lost text)
    (v : List Float) : Unlost embedder lost (vectors.put (vectorKey embedder text) v) := by
  intro other found hfound
  rcases Lru.get?_put hfound with ⟨hkey, -⟩ | hold
  · rw [vectorKey_inj.mp hkey]
    exact htext
  · exact h other found hold

theorem Unlost.touch (h : Unlost embedder lost vectors) (key : String) :
    Unlost embedder lost (vectors.touch key) :=
  fun other found hfound => h other found (Lru.get?_touch hfound)

/-- A step of a slot keeps what is known, in the slot and among the vectors. -/
theorem Slot.tried_step (hknown : Known embedder safe lost) (hvectors : Unlost embedder lost vectors)
    {s : Slot} (h : s.Tried safe lost) (retries : Nat) (backoff : Float) (world : σ) :
    (s.step embedder retries backoff false vectors world).slot.Tried safe lost ∧
      Unlost embedder lost (s.step embedder retries backoff false vectors world).vectors := by
  cases s.step_move embedder retries backoff false vectors world with
  | polled hprogress hnext =>
    rw [hnext]
    exact ⟨trivial, hvectors⟩
  | kept v hprogress hget hnext =>
    rw [hnext]
    exact ⟨hvectors _ v hget, hvectors.touch _⟩
  | missed hprogress hget hnext =>
    rw [hnext]
    exact ⟨trivial, hvectors⟩
  | asked attempt hprogress hnext =>
    rw [hnext]
    refine ⟨?_, hvectors⟩
    dsimp only
    -- on a text that is lost the embedder would have broken, so any other word of it clears the text
    have hlost : ∀ {came : Outcome}, (embedder.embed s.chunk.canonicalText world).1 = came →
        (∀ fault, came ≠ .crash fault) → ¬ lost s.chunk.canonicalText := by
      intro came hcame hwhole hlost
      obtain ⟨fault, hfault⟩ := hknown.lost _ hlost world
      exact hwhole fault (hcame.symm.trans hfault)
    cases hsaid : (embedder.embed s.chunk.canonicalText world).1 with
    | vector v => exact hlost hsaid fun fault => by simp
    | failure reason =>
      rw [attemptOutcome]
      split
      · trivial
      · exact hlost hsaid fun fault => by simp
    | crash fault => exact fun hsafe => hknown.safe _ hsafe world fault hsaid
  | stored v hprogress hnext =>
    have hunlost : ¬ lost s.chunk.canonicalText := by
      rwa [Slot.Tried, hprogress] at h
    rw [hnext]
    exact ⟨hunlost, hvectors.put hunlost v⟩
  | settled hsettled hnext =>
    rw [hnext]
    exact ⟨h, hvectors⟩

/-- With nothing more to be done and no crash, a text that was tried is not lost. -/
theorem Slot.Tried.not_lost {s : Slot} (h : s.Tried safe lost) (hsettled : s.isSettled = true)
    (hwhole : ∀ fault, s.progress ≠ .crashed fault) : ¬ lost s.chunk.canonicalText := by
  unfold Slot.Tried at h
  unfold Slot.isSettled at hsettled
  cases hprogress : s.progress with
  | embedded v => rwa [hprogress] at h
  | failed => rwa [hprogress] at h
  | skipped => rw [hprogress] at h; exact h.elim
  | crashed fault => exact absurd hprogress (hwhole fault)
  | _ => rw [hprogress] at hsettled; cases hsettled

end Embedding

/-! ## Builds -/

namespace Engine

open CodeSearch.Embedding (Known Unlost Served)
open CodeSearch.Index (Generation)
open CodeSearch.Search (Query Result)
open CodeSearch.Service (Choice Exchange)
open CodeSearch.Vector (Typed Unreadable)

section Builds

variable {begun e : Engine σ} {b : Build σ} {embedder : Embedder σ} {safe lost : String → Prop}
  {chunks : List Chunk}

/-- What a build ends with: a summary, and then no text was lost, or what broke, and then some text was
not safe. -/
def Ends (safe lost : String → Prop) (chunks : List Chunk) : Except IndexFault Summary → Prop
  | .ok _ => ∀ c ∈ chunks, ¬ lost c.canonicalText
  | .error fault => (∃ broken, fault = .broken broken) ∧ ∃ c ∈ chunks, ¬ safe c.canonicalText

/-- How far a build has come that nobody overtakes, in a directory with these chunks. -/
def Build.Bears (begun : Engine σ) (root : Path) (safe lost : String → Prop)
    (chunks : List Chunk) : Stage → Prop
  | .walking => True
  | .reading readings => ∃ files, begun.filesIn root = .ok files ∧
    List.Forall₂ (ReadsAs begun root) files readings
  | .embedding _ slots =>
    (slots.map (·.chunk)).map Chunk.bare = chunks ∧ ∀ s ∈ slots, s.Tried safe lost
  | .gathered .. | .storing .. | .publishing .. | .retiring .. =>
    ∀ c ∈ chunks, ¬ lost c.canonicalText
  | .aborting result | .ended result => Ends safe lost chunks result

/-- A build that nobody overtakes, with the engine as it finds it. -/
structure Build.Bearing (embedder : Embedder σ) (safe lost : String → Prop) (begun : Engine σ)
    (chunks : List Chunk) (e : Engine σ) (b : Build σ) : Prop where
  leaves : Leaves begun e
  newest : e.holder.isStale b.number = false
  pipeline : b.pipeline.embedder = some embedder
  vectors : Unlost embedder lost e.vectors
  bears : Build.Bears begun b.root safe lost chunks b.stage

/-- When nothing more is done for any chunk, the build ends as its texts are. -/
theorem bears_afterEmbedding {root : Path} (extract : Extract) {slots : List Slot}
    (hslots : (slots.map (·.chunk)).map Chunk.bare = chunks)
    (htried : ∀ s ∈ slots, s.Tried safe lost)
    (hsettled : ∀ s ∈ slots, s.isSettled = true) :
    Build.Bears begun root safe lost chunks (afterEmbedding extract slots) := by
  unfold afterEmbedding
  cases hcrash : firstCrash slots with
  | some fault =>
    obtain ⟨s, hs, hprogress⟩ := Embedding.exists_of_firstCrash hcrash
    have hunsafe := htried s hs
    rw [Slot.Tried, hprogress] at hunsafe
    refine ⟨⟨fault, rfl⟩, s.chunk.bare, ?_, hunsafe⟩
    rw [← hslots]
    exact List.mem_map_of_mem (List.mem_map_of_mem hs)
  | none =>
    intro c hc
    rw [← hslots, List.map_map] at hc
    obtain ⟨s, hs, rfl⟩ := List.mem_map.mp hc
    exact (htried s hs).not_lost (hsettled s hs) (Embedding.firstCrash_eq_none_iff.mp hcrash s hs)

namespace Build.Bearing

variable (hknown : Known embedder safe lost)

include hknown in
/-- While the chunks are embedded, what is known of their texts is kept. -/
theorem embedding (h : b.Bearing embedder safe lost begun chunks e) {extract : Extract}
    {slots : List Slot} (hstage : b.stage = .embedding extract slots) (place : Nat) :
    Build.Bears begun b.root safe lost chunks (b.stepAt e place).1.stage ∧
      Unlost embedder lost (b.stepAt e place).2.vectors := by
  have hbears := h.bears
  rw [hstage] at hbears
  obtain ⟨hslots, htried⟩ := hbears
  rcases stepAt_embedding hstage e place with ⟨hnone, -⟩ | ⟨found, hfound, hrest⟩
  · rw [h.pipeline] at hnone
    cases hnone
  obtain rfl : embedder = found := Option.some.inj (h.pipeline.symm.trans hfound)
  rcases hrest with ⟨hsettled, hnext⟩ | hnext
  · rw [hnext]
    exact ⟨bears_afterEmbedding extract hslots htried hsettled, h.vectors⟩
  rw [hnext, Build.embedAt]
  cases hplace : slots[place]? with
  | none =>
    refine ⟨?_, h.vectors⟩
    rw [hstage]
    exact ⟨hslots, htried⟩
  | some slot =>
    dsimp only
    rw [h.newest]
    obtain ⟨hslot, hkept⟩ := Slot.tried_step hknown h.vectors
      (htried slot (List.mem_of_getElem? hplace)) b.pipeline.retries b.pipeline.backoff e.world
    refine ⟨⟨?_, ?_⟩, hkept⟩
    · rw [map_chunk_set hplace (Slot.chunk_step embedder b.pipeline.retries b.pipeline.backoff false
        e.vectors e.world slot)]
      exact hslots
    · intro s hs
      rcases List.mem_or_eq_of_mem_set hs with hold | rfl
      · exact htried s hold
      · exact hslot

include hknown in
/-- A step leads on from how far the build has come. -/
theorem bears_stepAt (h : b.Bearing embedder safe lost begun chunks e)
    (hchunks : begun.chunksIn b.root = .ok chunks) (place : Nat) :
    Build.Bears begun b.root safe lost chunks (b.stepAt e place).1.stage ∧
      Unlost embedder lost (b.stepAt e place).2.vectors := by
  by_cases hembedding : ∃ extract slots, b.stage = .embedding extract slots
  · obtain ⟨extract, slots, hstage⟩ := hembedding
    exact h.embedding hknown hstage place
  have hbears := h.bears
  have hvectors := h.vectors
  cases stepAt_move e b place with
  | idle hquiet hnext => rw [hnext]; exact ⟨hbears, hvectors⟩
  | walked files hstage hwalk hfiles hnext =>
    rw [hnext]
    exact ⟨⟨files, filesIn_of_walked h.leaves.ground hwalk hfiles,
      readsAs_pending begun b.root files⟩, hvectors⟩
  | stopped obstacle hstage hwalk hnext =>
    -- the chunks of the directory are known, so the walk is not stopped
    rw [chunksIn_of_stopped h.leaves.ground hwalk] at hchunks
    cases hchunks
  | read readings p r hstage hplace hread hnext =>
    obtain ⟨reported, notices, hengine⟩ := readFile_eq_with e b.root p
    rw [hstage] at hbears
    obtain ⟨files, hfiles, hreadings⟩ := hbears
    rw [hnext, hengine]
    exact ⟨⟨files, hfiles, readsAs_set h.leaves.ground hreadings hplace hread⟩, hvectors⟩
  | unread readings p fault hstage hplace hread hnext =>
    -- and all files can be read
    rw [hstage] at hbears
    obtain ⟨files, hfiles, hreadings⟩ := hbears
    obtain ⟨broken, hbroken⟩ :=
      chunksIn_of_unread h.leaves.ground hfiles hreadings hplace hread
    rw [hchunks] at hbroken
    cases hbroken
  | overtaken extract embedded hstage hstale hnext =>
    -- no other build has begun
    rw [h.newest] at hstale
    cases hstale
  | readAll readings hstage hdone hnext =>
    rw [hstage] at hbears
    obtain ⟨files, hfiles, hreadings⟩ := hbears
    rw [hnext]
    refine ⟨⟨?_, ?_⟩, hvectors⟩
    · have hholds : begun.chunksIn b.root = _ := holds_of_read hfiles hreadings hdone
      rw [hchunks] at hholds
      rw [Except.ok.inj hholds, List.map_map, List.map_map]
      rfl
    · intro s hs
      obtain ⟨c, -, rfl⟩ := List.mem_map.mp hs
      exact trivial
  | embed extract slots slot found hstage hplace hfound hnext =>
    exact absurd ⟨extract, slots, hstage⟩ hembedding
  | crashed extract slots fault hstage hnext => exact absurd ⟨extract, slots, hstage⟩ hembedding
  | gathered extract slots found embedded hstage hfound hnext =>
    exact absurd ⟨extract, slots, hstage⟩ hembedding
  | made extract found embedded after hstage hafter hnext =>
    rw [hstage] at hbears
    rw [hnext]
    refine ⟨?_, hvectors⟩
    rcases hafter with ⟨rfl, -⟩ | rfl
    · exact hbears
    · exact hbears
  | store g embedded hstage hnext =>
    rw [hstage] at hbears
    rw [hnext, Build.store]
    cases hbuild : Vector.VectorIndex.build e.database (e.tableName b.number) g.chunks with
    | ok made => exact ⟨hbears, hvectors⟩
    | error fault =>
      cases fault with
      | unavailable u => exact ⟨hbears, hvectors⟩
      | data fault => exact absurd hbuild (Vector.build_ne_data _ _ _ _)
  | publish g embedded hstage hnext =>
    rw [hstage] at hbears
    rw [hnext]
    exact ⟨hbears, hvectors⟩
  | abort result hstage hnext =>
    rw [hstage] at hbears
    rw [hnext]
    exact ⟨hbears, hvectors⟩
  | retire g old summary hstage hnext =>
    obtain ⟨database, notices, hengine⟩ := retire_eq_with e g
    rw [hstage] at hbears
    rw [hnext, hengine]
    exact ⟨hbears, hvectors⟩
  | retired summary hstage hnext =>
    rw [hstage] at hbears
    rw [hnext]
    exact ⟨hbears, hvectors⟩

include hknown in
theorem stepAt (h : b.Bearing embedder safe lost begun chunks e)
    (hchunks : begun.chunksIn b.root = .ok chunks) (place : Nat) :
    (b.stepAt e place).1.Bearing embedder safe lost begun chunks (b.stepAt e place).2 where
  leaves := h.leaves.trans (leaves_stepAt e b place)
  newest := by
    have hnewest := h.newest
    unfold Index.Holder.isStale at hnewest ⊢
    rw [stepAt_number, latest_stepAt, hnewest]
  pipeline := by rw [stepAt_pipeline, h.pipeline]
  vectors := (h.bears_stepAt hknown hchunks place).2
  bears := by
    rw [stepAt_root]
    exact (h.bears_stepAt hknown hchunks place).1

end Build.Bearing

/-- A directory whose files can be read is indexed or not as its texts are. -/
theorem ends_index (hknown : Known embedder safe lost) (hembedder : e.embedder = some embedder)
    (hvectors : Unlost embedder lost e.vectors) {path : String} {root : Path}
    (hroot : e.rootOf path = .ok root) (hchunks : e.chunksIn root = .ok chunks) :
    Ends safe lost chunks (e.index undisturbed path).1 := by
  unfold Engine.index
  cases hbegin : e.begin path with
  | error fault =>
    simp [Engine.begin, hroot, bind, Except.bind, pure, Except.pure] at hbegin
  | ok started =>
    obtain ⟨b, begun⟩ := started
    obtain ⟨hfound, hb, rfl⟩ := Session.begin_ok hbegin
    obtain rfl : root = b.root := Except.ok.inj (hroot.symm.trans hfound)
    let begun : Engine σ := { e with holder := e.holder.start.2 }
    have hbearing : b.Bearing embedder safe lost begun chunks begun := by
      refine ⟨.refl _, ?_, ?_, hvectors, ?_⟩
      · rw [hb]
        exact bne_self_eq_false _
      · rw [hb]
        exact hembedder
      · rw [Session.stage_begin hbegin]
        exact trivial
    have hground : SameGround e begun := ⟨rfl, rfl, rfl, rfl⟩
    obtain ⟨b', hended, hbearing', -⟩ := Build.complete_keeps undisturbed
      (P := fun e b' => b'.Bearing embedder safe lost begun chunks e ∧ b'.root = b.root)
      (fun _ _ _ h => h)
      (fun e b' h _ => by
        obtain ⟨hbears, hsame⟩ := h
        refine ⟨hbears.stepAt hknown ?_ b'.place, (stepAt_root e b' b'.place).trans hsame⟩
        rw [hsame, hground.chunksIn, hchunks]) begun b ⟨hbearing, rfl⟩
    have hends := hbearing'.bears
    rw [hended] at hends
    exact hends

end Builds

/-! ## Questions -/

section Questions

variable {interrupt : Moment → Engine σ → Engine σ} {e : Engine σ} {q : Query} {g : Generation}

/-- If the embedder breaks on the text of a question that comes to it, the question breaks. -/
theorem answered_of_crash (hvalid : q.objection? = none) (hready : e.ready = .ok g)
    (hembeds : Embeds e g q) {fault : Fault} (hcrash : embedding interrupt e q = .crash fault) :
    (e.answered interrupt q).1 = .error (.broken fault) := by
  have hbroken : ((⟨g, q, .opened⟩ : Inquiry).complete interrupt e).1 = .error fault := by
    obtain ⟨index, -, hcomplete⟩ := complete_of_embeds interrupt hembeds
    rw [hcomplete]
    exact complete_embedding_crash g _ index hcrash
  unfold answered
  rw [ask_of_ready hvalid hready]
  dsimp only
  split
  · rename_i results after hcame
    rw [hcame] at hbroken
    cases hbroken
  · rename_i broken after hcame
    rw [hcame] at hbroken
    rw [Except.error.inj hbroken]

/-- A question whose search returns nothing that cannot be read is answered exactly if it does not come
to embedding its text or the embedder does not break on that. -/
theorem answered_iff_unbroken (hvalid : q.objection? = none) (hready : e.ready = .ok g)
    (hreadable : ∀ rows asked, Searches interrupt e g q (.ok (rows, asked)) →
      ∀ row ∈ rows, Typed row ∧ ¬ Unreadable row) :
    (∃ results, (e.answered interrupt q).1 = .ok (g, results)) ↔
      (Embeds e g q → ∀ fault, embedding interrupt e q ≠ .crash fault) := by
  constructor
  · rintro ⟨results, hresults⟩ hembeds fault hcrash
    rw [answered_of_crash hvalid hready hembeds hcrash] at hresults
    cases hresults
  · intro hunbroken
    by_cases hembeds : Embeds e g q
    · obtain ⟨hanswered, -⟩ := answered_iff_readable hvalid hready (hunbroken hembeds)
        fun rows asked hsearches row hrow => (hreadable rows asked hsearches row hrow).1
      exact hanswered.mpr fun rows asked hsearches row hrow =>
        (hreadable rows asked hsearches row hrow).2
    · -- the embedder is not asked, so what it would say does not matter
      obtain ⟨results, hresults, -⟩ := complete_of_not_embeds interrupt hembeds
      obtain ⟨hanswer, -⟩ := answered_of_ask interrupt (ask_of_ready hvalid hready)
      exact ⟨results, (hanswer results).mpr hresults⟩

end Questions

/-- What a choice of an embedder gives for a text is a vector that is not empty or a refusal exactly if
the text is served, whatever is chosen and whatever comes back from a service. So a directory is indexed
if the texts of its chunks are served whenever they are asked for, and it is not if one of them, of which
no vector is kept, never is. And a question is answered exactly if its text is served when it comes to
embedding that, as far as the store of vectors returns what can be read. -/
theorem embedded_properly_iff {c : Choice} {s : Embedding.Selection}
    (hselect : Embedding.select c = .ok (some s)) (exchange : Exchange σ) :
    (∀ text world,
      ((s.embedder exchange).embed text world).1.Proper ↔ Served c exchange text world) ∧
    ∀ e : Engine σ, e.embedder = some (s.embedder exchange) →
      (∀ path root chunks, e.rootOf path = .ok root → e.chunksIn root = .ok chunks →
        ((∀ found ∈ chunks, ∀ world, Served c exchange found.canonicalText world) →
          ∃ summary, (e.index undisturbed path).1 = .ok summary) ∧
        ((∃ found ∈ chunks,
            e.vectors.get? (vectorKey (s.embedder exchange) found.canonicalText) = none ∧
              ∀ world, ¬ Served c exchange found.canonicalText world) →
          ∃ fault, (e.index undisturbed path).1 = .error (.broken fault))) ∧
      ∀ interrupt q g, (∀ moment e, (interrupt moment e : Engine σ).embedder = e.embedder) →
        q.objection? = none → e.ready = .ok g →
        (∀ rows asked, Searches interrupt e g q (.ok (rows, asked)) →
          ∀ row ∈ rows, Typed row ∧ ¬ Unreadable row) →
        ((∃ results, (e.answered interrupt q).1 = .ok (g, results)) ↔
          (Embeds e g q →
            Served c exchange (q.text.getD "") (atEmbedding interrupt e q).world)) := by
  have hserved := Embedding.unbroken_embed_iff hselect exchange
  refine ⟨Embedding.proper_embed_iff hselect exchange, fun e hembedder => ⟨?_, ?_⟩⟩
  · intro path root chunks hroot hchunks
    -- in between there are texts that are served at times, and those that are kept from before
    let safe : String → Prop := fun text => ∀ world, Served c exchange text world
    let lost : String → Prop := fun text =>
      e.vectors.get? (vectorKey (s.embedder exchange) text) = none ∧
        ∀ world, ¬ Served c exchange text world
    have hknown : Known (s.embedder exchange) safe lost := by
      refine ⟨fun text hsafe world => (hserved text world).mpr (hsafe world), ?_⟩
      intro text hlost world
      by_contra hnone
      exact hlost.2 world ((hserved text world).mp (not_exists.mp hnone))
    have hvectors : Unlost (s.embedder exchange) lost e.vectors := by
      intro text v hkept hlost
      rw [hlost.1] at hkept
      cases hkept
    have hends := ends_index hknown hembedder hvectors hroot hchunks
    cases hresult : (e.index undisturbed path).1 with
    | ok summary =>
      rw [hresult] at hends
      refine ⟨fun _ => ⟨summary, rfl⟩, ?_⟩
      rintro ⟨found, hfound, hlost⟩
      exact absurd hlost (hends found hfound)
    | error fault =>
      rw [hresult] at hends
      obtain ⟨⟨broken, rfl⟩, found, hfound, hunsafe⟩ := hends
      exact ⟨fun hall => absurd (hall found hfound) hunsafe, fun _ => ⟨broken, rfl⟩⟩
  · intro interrupt q g hinterrupt hvalid hready hreadable
    rw [answered_iff_unbroken hvalid hready hreadable, embedding_eq hinterrupt hembedder, hserved]

/-! ### A service that sends one answer -/

/-- The choice of a service, with a key. -/
def choosing : Choice := { provider := "openai", apiKey := "k" }

/-- The embedder that was chosen, with a service that always sends an answer with this in the place of
the vector. -/
def chosen (found : Value) : Embedder Unit :=
  (Embedding.Selection.remote (Embedding.serviceOf choosing)).embedder
    (replying (.table [("data", .list [.table [("embedding", found)]])]))

/-- An engine that has indexed one import, whose embedder asks that service, and whose store returns a
row of which hardly anything is there. -/
def indexedChoosing (found : Value) : Engine Unit :=
  { returning [[("id", .text "a.js:1:x")]] with embedder := some (chosen found) }

/-- A dimension below one breaks the counting of words, and with it the indexing of a directory. A number
in the place of the vector breaks the service, and with it a question that makes sense when the index is
ready. -/
theorem not_proper_of_number :
    let counting : Engine Unit := Session.importing "import 'x';" [Session.importNode 0 11]
      (some (Embedding.hashEmbedder 0))
    Embedding.select { provider := "hash", dimension := 0 } = .ok (some (.hash 0)) ∧
      ¬ (Embedding.hashEmbed 0 "alpha").Proper ∧ ¬ (Embedding.hashEmbed (-1) "alpha").Proper ∧
      (∀ summary, (counting.index undisturbed "/").1 ≠ .ok summary) ∧
      Embedding.select choosing = .ok (some (.remote (Embedding.serviceOf choosing))) ∧
      ¬ ((chosen (.int 5)).embed "alpha" ()).1.Proper ∧
      (indexedChoosing (.int 5)).ready.toOption.isSome = true ∧
      ∀ found, ((indexedChoosing (.int 5)).answered alone aboutImport).1 ≠ .ok found := by
  refine ⟨rfl, id, id, ?_, rfl, id, by decide +kernel, ?_⟩
  · have hends : (Engine.begin (Session.importing "import 'x';" [Session.importNode 0 11]
        (some (Embedding.hashEmbedder 0))) "/").toOption.bind (fun started =>
          (started.1.steps started.2 8).1.ending?.map fun result => result.toOption.isNone) =
            some true := by
      decide +kernel
    obtain ⟨⟨b, begun⟩, hbegin, hended⟩ := Option.bind_eq_some_iff.mp hends
    obtain ⟨result, hresult, hnone⟩ := Option.map_eq_some_iff.mp hended
    intro summary hsummary
    unfold Engine.index at hsummary
    rw [eq_ok_of_toOption hbegin] at hsummary
    dsimp only at hsummary
    rw [Build.complete_of_steps 8 hresult] at hsummary
    dsimp only at hsummary
    rw [hsummary] at hnone
    cases hnone
  · have hbroken :
        ((indexedChoosing (.int 5)).answered alone aboutImport).1.toOption.isNone = true := by
      decide +kernel
    intro found hfound
    rw [hfound] at hbroken
    cases hbroken

/-- With a list of one number in the place of the vector the directory is indexed and the question is
answered. -/
theorem embedded_properly_iff_list :
    let e := indexedChoosing (.list [.float 1.0])
    ((chosen (.list [.float 1.0])).embed "alpha" ()).1.Proper ∧
      (∃ summary, (e.index undisturbed "/").1 = .ok summary) ∧
      ∃ g results, e.ready = .ok g ∧ (e.answered alone aboutImport).1 = .ok (g, results) := by
  let row : Vector.Row := [("id", .text "a.js:1:x")]
  let answer : Value := .table [("data", .list [.table [("embedding", .list [.float 1.0])]])]
  have hserved : ∀ text world, Served choosing (replying answer) text world := by
    refine fun text world => ⟨fun hhash => absurd hhash (by decide +kernel), ?_⟩
    intro _ answer' hanswer found hfound _
    obtain rfl : answer = answer' := Except.ok.inj hanswer
    obtain rfl := Option.some.inj hfound
    exact .list fun item hitem => List.mem_singleton.mp hitem ▸ .float 1.0
  obtain ⟨hproper, hcalls⟩ := embedded_properly_iff (c := choosing)
    (s := .remote (Embedding.serviceOf choosing)) rfl (replying answer)
  obtain ⟨hindex, hquestion⟩ := hcalls (indexedChoosing (.list [.float 1.0])) rfl
  refine ⟨(hproper "alpha" ()).mpr (hserved "alpha" ()), ?_, ?_⟩
  · have hread : (((indexedChoosing (.list [.float 1.0])).rootOf "/").toOption.bind fun root =>
        ((indexedChoosing (.list [.float 1.0])).chunksIn root).toOption).isSome = true := by
      decide +kernel
    obtain ⟨chunks, hchunks⟩ := Option.isSome_iff_exists.mp hread
    obtain ⟨root, hroot, hchunks⟩ := Option.bind_eq_some_iff.mp hchunks
    exact (hindex "/" root chunks (eq_ok_of_toOption hroot) (eq_ok_of_toOption hchunks)).1
      fun found _ => hserved found.canonicalText
  · obtain ⟨g, -, hready, -⟩ := searches_returning [row]
    have hreadable : ∀ rows asked,
        Searches alone (indexedChoosing (.list [.float 1.0])) g aboutImport (.ok (rows, asked)) →
          ∀ row ∈ rows, Typed row ∧ ¬ Unreadable row := by
      rintro rows asked ⟨-, -, index, v, -, -, hsearch⟩ found hfound
      rw [atEmbedding_alone] at hsearch
      obtain rfl : rows = [row] := Vector.rows_of_answer rfl hsearch
      obtain rfl : found = row := List.mem_singleton.mp hfound
      refine ⟨⟨?_, ?_, ?_⟩, ?_⟩
      · intro v hv
        exact Or.inr ⟨_, (Option.some.inj hv).symm⟩
      · intro v hv
        exact absurd hv (by simp [row, Value.find?])
      · intro v hv
        exact absurd hv (by simp [row, Value.find?])
      · rintro (hnull | ⟨s, htext, -⟩)
        · exact absurd hnull (by simp [row, Value.find?])
        · exact absurd htext (by simp [row, Value.find?])
    obtain ⟨results, hresults⟩ := (hquestion alone aboutImport g (fun _ _ => rfl) valid_aboutImport
      hready hreadable).mpr fun _ => hserved _ _
    exact ⟨g, results, hready, hresults⟩

end Engine

end CodeSearch

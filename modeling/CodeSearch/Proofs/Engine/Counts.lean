import CodeSearch.Proofs.Engine.Lengths

/-!
How many chunks of a build are embedded.

The number in a summary is that of the slots that have come to a vector, and a generation counts its
chunks that have one. An empty vector is counted by the first and not by the second. From an embedder
that gives no such vector the two are the same (`Stage.Counted`). Only a build that has counted some
stores vectors, so a summary that tells of vectors tells of at least one chunk that has one.
-/
set_option autoImplicit false

namespace CodeSearch

/-- The numbers of a summary fit together. -/
structure Summary.Fits (summary : Summary) : Prop where
  embedded_le : summary.embedded ≤ summary.chunks
  lexical : summary.embedded = 0 → summary.backend = .lexical

namespace Engine

open CodeSearch.Embedding (Slot Embedder)
open CodeSearch.Index (Generation)

variable {σ : Type}

/-! ## Slots -/

/-- A slot of a chunk without a vector, which has come to none or to one that is not empty. -/
structure SlotFilled (s : Slot) : Prop where
  bare : s.chunk.embedding = none
  holds : s.Holds (· ≠ [])

theorem SlotFilled.ofChunk {c : Chunk} (h : c.embedding = none) : SlotFilled (Slot.ofChunk c) where
  bare := h
  holds := Slot.holds_ofChunk _ c

/-- A slot counts if its chunk does. -/
theorem SlotFilled.isEmbedded_result {s : Slot} (h : SlotFilled s) :
    s.result.isEmbedded = s.isEmbedded := by
  obtain ⟨chunk, progress⟩ := s
  have hbare : chunk.isEmbedded = false := by rw [Chunk.isEmbedded, h.bare]
  cases progress with
  | embedded v =>
    cases v with
    | nil => exact absurd rfl (h.holds [] (Or.inr rfl))
    | cons x rest => rfl
  | _ => exact hbare

theorem countP_result {slots : List Slot} (h : ∀ s ∈ slots, SlotFilled s) :
    (slots.map (·.result)).countP (·.isEmbedded) = slots.countP (·.isEmbedded) := by
  rw [List.countP_map]
  apply List.countP_congr
  intro s hs
  rw [Function.comp_apply, (h s hs).isEmbedded_result]

/-! ## Builds -/

/-- What a build has counted so far is right. -/
def Stage.Counted : Stage → Prop
  | .reading readings => Bare readings
  | .embedding extract slots =>
    (∀ c ∈ extract.chunks, c.embedding = none) ∧ slots.length = extract.chunks.length ∧
      ∀ s ∈ slots, SlotFilled s
  | .gathered extract chunks embedded =>
    chunks.length = extract.chunks.length ∧ embedded = chunks.countP (·.isEmbedded)
  | .storing g embedded => g.vector = none ∧ embedded = g.embedded ∧ embedded ≠ 0
  | .publishing g embedded => embedded = g.embedded ∧ (g.vector ≠ none → embedded ≠ 0)
  | _ => True

/-- A build that counts right, and gives its own number to what it makes. -/
structure Build.Counted (b : Build σ) : Prop where
  stage : b.stage.Counted
  made : ∀ g, b.stage.made? = some g → g.number = b.number
  summary : ∀ summary, b.stage.summary? = some summary →
    summary.generation = b.number.toNat ∧ summary.Fits

/-- While a build has neither made a generation nor found a summary, only its stage counts. -/
theorem Build.Counted.of_stage {b : Build σ} (h : b.stage.Counted) (hmade : b.stage.made? = none)
    (hsummary : b.stage.summary? = none) : b.Counted where
  stage := h
  made g hg := by simp [hmade] at hg
  summary summary hfound := by simp [hsummary] at hfound

/-- A summary that is found is handed on until the build ends. -/
theorem Build.Counted.of_summary {b b' : Build σ} (h : b.Counted) (hnumber : b'.number = b.number)
    (hstage : b'.stage.Counted) (hmade : b'.stage.made? = none)
    (hsame : ∀ summary, b'.stage.summary? = some summary → b.stage.summary? = some summary) :
    b'.Counted where
  stage := hstage
  made g hg := by simp [hmade] at hg
  summary summary hfound := by
    rw [hnumber]
    exact h.summary summary (hsame summary hfound)

theorem fits_abandoned (b : Build σ) {extract : Extract} {embedded : Nat}
    (h : embedded ≤ extract.chunks.length) : (b.abandoned extract embedded).Fits where
  embedded_le := h
  lexical _ := rfl

theorem fits_summaryOf {g : Generation} {embedded : Nat} (h : (Stage.publishing g embedded).Counted)
    (published : Bool) : (summaryOf g embedded published).Fits where
  embedded_le := by
    show embedded ≤ g.chunks.length
    rw [h.1]
    exact List.countP_le_length
  lexical hnone := by
    -- a generation with vectors has chunks that are embedded
    have hplain : g.vector = none := by
      by_contra hvector
      exact h.2 hvector hnone
    show g.backend = .lexical
    rw [Generation.backend, hplain]
    rfl

/-- With all chunks gone through, the number of slots is that of the embedded chunks. -/
theorem counted_gathered {extract : Extract} {slots : List Slot} {chunks : List Chunk}
    {embedded : Nat} (h : (Stage.embedding extract slots).Counted)
    (hchunks : chunks = extract.chunks ∧ embedded = 0 ∨
      chunks = slots.map (·.result) ∧ embedded = slots.countP (·.isEmbedded)) :
    (Stage.gathered extract chunks embedded).Counted := by
  obtain ⟨hbare, hlength, hfilled⟩ := h
  rcases hchunks with ⟨rfl, rfl⟩ | ⟨rfl, rfl⟩
  · refine ⟨rfl, ?_⟩
    symm
    rw [List.countP_eq_zero]
    intro c hc
    rw [Chunk.isEmbedded, hbare c hc]
    exact Bool.false_ne_true
  · exact ⟨by rw [List.length_map, hlength], (countP_result hfilled).symm⟩

/-- Storing the vectors of a generation leaves the count as it is. -/
theorem Build.Counted.store {b : Build σ} (h : b.Counted) {g : Generation} {embedded : Nat}
    (hstoring : b.stage = .storing g embedded) (e : Engine σ) :
    (b.store e g embedded).1.Counted := by
  have hstage := h.stage
  rw [hstoring] at hstage
  obtain ⟨-, hcount, hsome⟩ := hstage
  have hmade : g.number = b.number := h.made g (by rw [hstoring]; rfl)
  have hnumber : (b.store e g embedded).1.number = b.number := by
    have hsame := stepAt_number e b 0
    rwa [Build.stepAt, hstoring] at hsame
  rcases store_stage e b g embedded with ⟨vector, hafter⟩ | ⟨fault, hafter⟩
  · refine ⟨?_, ?_, by simp [hafter, Stage.summary?]⟩
    · rw [hafter]
      exact ⟨hcount, fun _ => hsome⟩
    · rw [hafter]
      intro g' hg'
      obtain rfl := Option.some.inj hg'
      exact hmade.trans hnumber.symm
  · exact .of_stage (by rw [hafter]; trivial) (by rw [hafter]; rfl) (by rw [hafter]; rfl)

/-- A step keeps the count, and no vector that is kept becomes empty. -/
theorem Build.Counted.stepAt {e : Engine σ} {b : Build σ}
    (hgives : ∀ embedder, b.pipeline.embedder = some embedder →
      ∀ text world v, (embedder.embed text world).1 = .vector v → v ≠ [])
    (hkept : ∀ entry ∈ e.vectors.entries, entry.2 ≠ []) (h : b.Counted) (place : Nat) :
    (b.stepAt e place).1.Counted ∧ ∀ entry ∈ (b.stepAt e place).2.vectors.entries, entry.2 ≠ [] := by
  have hstage := h.stage
  cases stepAt_move e b place with
  | idle hquiet hnext => rw [hnext]; exact ⟨h, hkept⟩
  | walked files hwalking hwalk hfiles hnext =>
    rw [hnext]
    refine ⟨.of_stage ?_ rfl rfl, hkept⟩
    intro found hfound
    simp at hfound
  | stopped obstacle hwalking hwalk hnext =>
    rw [hnext]
    exact ⟨.of_stage trivial rfl rfl, hkept⟩
  | read readings p r hreading hplace hread hnext =>
    obtain ⟨reported, notices, hengine⟩ := readFile_eq_with e b.root p
    rw [hreading] at hstage
    rw [hnext, hengine]
    exact ⟨.of_stage (hstage.set hread place) rfl rfl, hkept⟩
  | unread readings p fault hreading hplace hread hnext =>
    obtain ⟨reported, notices, hengine⟩ := readFile_eq_with e b.root p
    rw [hnext, hengine]
    exact ⟨.of_stage trivial rfl rfl, hkept⟩
  | overtaken extract embedded hfound hstale hnext =>
    have hle : embedded ≤ extract.chunks.length := by
      rcases hfound with ⟨-, rfl⟩ | ⟨chunks, hgathered⟩
      · exact Nat.zero_le _
      · rw [hgathered] at hstage
        rw [hstage.2, ← hstage.1]
        exact List.countP_le_length
    rw [hnext]
    refine ⟨⟨trivial, by simp [Stage.made?], ?_⟩, hkept⟩
    intro summary hsummary
    obtain rfl := Option.some.inj hsummary
    exact ⟨rfl, fits_abandoned b hle⟩
  | readAll readings hreading hdone hnext =>
    rw [hreading] at hstage
    rw [hnext]
    refine ⟨.of_stage ⟨hstage.extract, by rw [List.length_map], ?_⟩ rfl rfl, hkept⟩
    intro s hs
    obtain ⟨c, hc, rfl⟩ := List.mem_map.mp hs
    exact .ofChunk (hstage.extract c hc)
  | embed extract slots slot embedder hembedding hplace hembedder hnext =>
    rw [hembedding] at hstage
    obtain ⟨hbare, hlength, hfilled⟩ := hstage
    have hslot := hfilled slot (List.mem_of_getElem? hplace)
    obtain ⟨hholds, hkept'⟩ := hslot.holds.step embedder b.pipeline.retries b.pipeline.backoff
      (e.holder.isStale b.number) e.vectors e.world (hgives embedder hembedder) hkept
    rw [hnext]
    refine ⟨.of_stage ⟨hbare, by rw [List.length_set, hlength], ?_⟩ rfl rfl, hkept'⟩
    intro s hs
    rcases List.mem_or_eq_of_mem_set hs with hold | rfl
    · exact hfilled s hold
    · exact ⟨by rw [Slot.chunk_step]; exact hslot.bare, hholds⟩
  | crashed extract slots fault hembedding hnext =>
    rw [hnext]
    exact ⟨.of_stage trivial rfl rfl, hkept⟩
  | gathered extract slots chunks embedded hembedding hchunks hnext =>
    rw [hembedding] at hstage
    rw [hnext]
    exact ⟨.of_stage (counted_gathered hstage hchunks) rfl rfl, hkept⟩
  | made extract chunks embedded after hgathered hafter hnext =>
    rw [hgathered] at hstage
    rw [hnext]
    -- stored first or not, the generation has the number of the build
    rcases hafter with ⟨rfl, hsome, -⟩ | rfl
    · refine ⟨⟨⟨rfl, hstage.2, hsome⟩, ?_, by simp [Stage.summary?]⟩, hkept⟩
      intro g hg
      obtain rfl := Option.some.inj hg
      rfl
    · refine ⟨⟨⟨hstage.2, fun hvector => absurd rfl hvector⟩, ?_, by simp [Stage.summary?]⟩, hkept⟩
      intro g hg
      obtain rfl := Option.some.inj hg
      rfl
  | store g embedded hstoring hnext =>
    obtain ⟨database, monitor, notices, hengine⟩ := store_eq_with e b g embedded
    have hstored := h.store hstoring e
    rw [hnext]
    refine ⟨hstored, ?_⟩
    rw [hengine]
    exact hkept
  | publish g embedded hpublishing hnext =>
    rw [hpublishing] at hstage
    rw [hnext]
    refine ⟨⟨trivial, by simp [Build.publish, Stage.made?], ?_⟩, hkept⟩
    intro summary hsummary
    rw [publish_stage] at hsummary
    obtain rfl := Option.some.inj hsummary
    refine ⟨?_, fits_summaryOf hstage _⟩
    show g.number.toNat = b.number.toNat
    rw [h.made g (by rw [hpublishing]; rfl)]
  | abort result haborting hnext =>
    rw [hnext]
    refine ⟨h.of_summary rfl trivial rfl ?_, hkept⟩
    intro summary hsummary
    rw [haborting]
    cases result with
    | ok found => exact hsummary
    | error fault => simp [Stage.summary?] at hsummary
  | retire g old summary hretiring hnext =>
    obtain ⟨database, notices, hengine⟩ := retire_eq_with e g
    rw [hnext, hengine]
    exact ⟨h.of_summary rfl trivial rfl fun found hfound => by rw [hretiring]; exact hfound, hkept⟩
  | retired summary hretiring hnext =>
    rw [hnext]
    exact ⟨h.of_summary rfl trivial rfl fun found hfound => by rw [hretiring]; exact hfound, hkept⟩

namespace Session

/-- An engine that nothing has been asked of yet, and whose embedder gives no empty vector. -/
structure Giving (e : Engine σ) : Prop where
  fresh : e.holder = {}
  gives : ∀ embedder, e.embedder = some embedder →
    ∀ text world v, (embedder.embed text world).1 = .vector v → v ≠ []
  kept : ∀ entry ∈ e.vectors.entries, entry.2 ≠ []

/-- All builds of a session count right. -/
theorem counted_after {e : Engine σ} (h : Giving e) (past : List Action) :
    ∀ b ∈ (after e past).builds, b.Counted := by
  have hall := forall_builds_of_vectors (P := Build.Counted)
    (Q := fun vectors => ∀ entry ∈ vectors.entries, entry.2 ≠ []) h.kept ?_ ?_ past
  · exact fun b hb => (hall.2 b hb).2
  · intro b hstage
    refine ⟨?_, by simp [hstage, Stage.made?], by simp [hstage, Stage.summary?]⟩
    rw [hstage]
    exact trivial
  · intro e' b place hembedder hkept hb
    apply hb.stepAt _ hkept place
    exact fun embedder hsome => h.gives embedder (hembedder ▸ hsome)

end Session

end Engine

end CodeSearch

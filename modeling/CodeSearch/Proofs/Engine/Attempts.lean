import CodeSearch.Proofs.Embedding.Attempts
import CodeSearch.Proofs.Engine.Lengths

/-!
Builds that are cut short, and chunks of published generations.

The workers of a build ask before each chunk whether a later build has begun, in any order and with
other builds beginning in between. A later build stays later, so once one chunk was skipped the build
is overtaken for good (`isStale_of_polled`) and stops before it makes a generation. Hence every chunk
of a generation that was published has been attempted, and what is said of it is read off the signs
of its slot (`signs`).
-/
set_option autoImplicit false

namespace CodeSearch.Engine

open CodeSearch.Embedding (Slot Sign Attempted Tells refusals)
open CodeSearch.Index (Generation Event Traffic)

variable {σ : Type}

/-! ## Signs of a build -/

/-- What the step of a build on the chunk at a place learns, if anything. -/
def Build.sign? (e : Engine σ) (b : Build σ) (place : Nat) : Option Sign :=
  match b.stage, b.pipeline.embedder with
  | .embedding _ slots, some embedder =>
    slots[place]?.bind fun slot => slot.sign? embedder (e.holder.isStale b.number) e.vectors e.world
  | _, _ => none

/-- What was done for a chunk, by its signs: it was attempted, if there is an embedder. -/
def Treated (p : Embedding.Pipeline σ) (signs : List Sign) (c : Chunk) : Prop :=
  match p.embedder with
  | some _ => Attempted p.retries c.canonicalText signs c.embedding
  | none => signs = [] ∧ c.embedding = none

/-- A slot with the signs of how far it has come. -/
structure Signed (retries : Nat) (signs : List Sign) (s : Slot) : Prop where
  bare : s.chunk.embedding = none
  tells : Tells retries s.chunk.canonicalText s.progress signs

/-- What the signs at all places say of a build. As long as it may still be stopped some chunks may
have been skipped. -/
def Build.Told (signs : Nat → List Sign) (b : Build σ) : Prop :=
  match b.stage with
  | .walking => ∀ place, signs place = []
  | .reading readings => Bare readings ∧ ∀ place, signs place = []
  | .embedding extract slots =>
    (∀ c ∈ extract.chunks, c.embedding = none) ∧
      match b.pipeline.embedder with
      | some _ => ∀ place s, slots[place]? = some s → Signed b.pipeline.retries (signs place) s
      | none => ∀ place, signs place = []
  | .gathered _ chunks _ => ∀ place c, chunks[place]? = some c →
      signs place = [.polled true] ∨ Treated b.pipeline (signs place) c
  | .storing g _ | .publishing g _ => (∀ place, .polled true ∉ signs place) ∧
      ∀ place c, g.chunks[place]? = some c → Treated b.pipeline (signs place) c
  | _ => True

theorem sign?_eq_none {b : Build σ} (h : ∀ extract slots, b.stage ≠ .embedding extract slots)
    (e : Engine σ) (place : Nat) : b.sign? e place = none := by
  unfold Build.sign?
  split
  · rename_i extract slots embedder hstage hembedder
    exact absurd hstage (h extract slots)
  · rfl

/-- A step that tells of the work being stopped is one of a build that is overtaken. -/
theorem isStale_of_sign? {e : Engine σ} {b : Build σ} {place : Nat}
    (h : b.sign? e place = some (.polled true)) : e.holder.isStale b.number = true := by
  unfold Build.sign? at h
  split at h
  · obtain ⟨slot, -, hsign⟩ := Option.bind_eq_some_iff.mp h
    unfold Slot.sign? at hsign
    dsimp only at hsign
    split at hsign
    · simpa using hsign
    · simp at hsign
    · simp at hsign
    · simp at hsign
  · simp at h

/-- What a step of a build does while its chunks are embedded. -/
theorem stepAt_embedding {b : Build σ} {extract : Extract} {slots : List Slot}
    (hstage : b.stage = .embedding extract slots) (e : Engine σ) (place : Nat) :
    b.pipeline.embedder = none ∧
        b.stepAt e place = ({ b with stage := .gathered extract extract.chunks 0 }, e) ∨
      ∃ embedder, b.pipeline.embedder = some embedder ∧
        ((∀ s ∈ slots, s.isSettled = true) ∧
            b.stepAt e place = ({ b with stage := afterEmbedding extract slots }, e) ∨
          b.stepAt e place = b.embedAt e embedder extract slots place) := by
  unfold Build.stepAt
  rw [hstage]
  dsimp only
  cases b.pipeline.embedder with
  | none => exact Or.inl ⟨rfl, rfl⟩
  | some embedder =>
    refine Or.inr ⟨embedder, rfl, ?_⟩
    dsimp only
    by_cases hall : slots.all (·.isSettled) = true
    · rw [if_pos hall]
      exact Or.inl ⟨List.all_eq_true.mp hall, rfl⟩
    · rw [if_neg hall]
      exact Or.inr rfl

/-- A build that makes a generation is not overtaken. -/
theorem isStale_of_made {b : Build σ} {extract : Extract} {chunks : List Chunk} {embedded : Nat}
    (hstage : b.stage = .gathered extract chunks embedded) {e : Engine σ} {place : Nat}
    {g : Generation} (hmade : (b.stepAt e place).1.stage.made? = some g) :
    e.holder.isStale b.number = false := by
  unfold Build.stepAt Build.afterGathering at hmade
  rw [hstage] at hmade
  dsimp only at hmade
  cases hstale : e.holder.isStale b.number with
  | false => rfl
  | true =>
    rw [if_pos hstale] at hmade
    simp [Stage.made?] at hmade

/-- With no slot crashed all chunks were skipped or treated. -/
theorem told_afterEmbedding {b : Build σ} {embedder : Embedding.Embedder σ}
    (hembedder : b.pipeline.embedder = some embedder) {signs : Nat → List Sign} {extract : Extract}
    {slots : List Slot} (hall : ∀ s ∈ slots, s.isSettled = true)
    (hsigned : ∀ place s, slots[place]? = some s → Signed b.pipeline.retries (signs place) s) :
    ({ b with stage := afterEmbedding extract slots } : Build σ).Told signs := by
  unfold afterEmbedding Build.Told
  cases hcrash : Embedding.firstCrash slots with
  | some fault => exact trivial
  | none =>
    intro place c hc
    rw [List.getElem?_map] at hc
    obtain ⟨s, hs, rfl⟩ := Option.map_eq_some_iff.mp hc
    have hmem : s ∈ slots := List.mem_of_getElem? hs
    obtain ⟨hbare, htells⟩ := hsigned place s hs
    rcases htells.settled hbare (hall s hmem) with hskipped | ⟨fault, hfault⟩ | hattempted
    · exact Or.inl hskipped
    · exact absurd hfault (Embedding.firstCrash_eq_none_iff.mp hcrash s hmem fault)
    · refine Or.inr ?_
      rw [Treated, hembedder]
      exact hattempted

/-- Every step of a build that embeds its chunks adds the sign of the chunk at its place. -/
theorem Build.Told.embedding {b : Build σ} {signs signs' : Nat → List Sign} (h : b.Told signs)
    {extract : Extract} {slots : List Slot} (hstage : b.stage = .embedding extract slots)
    (e : Engine σ) (place : Nat) (hhere : signs' place = (b.sign? e place).toList ++ signs place)
    (hthere : ∀ p, p ≠ place → signs' p = signs p) : (b.stepAt e place).1.Told signs' := by
  have hsame : b.sign? e place = none → signs' = signs := by
    intro hnone
    refine funext fun p => ?_
    by_cases hp : p = place
    · rw [hp, hhere, hnone]; rfl
    · exact hthere p hp
  rw [Build.Told, hstage] at h
  obtain ⟨hbare, hsigned⟩ := h
  rcases stepAt_embedding hstage e place with ⟨hnone, hnext⟩ | ⟨embedder, hsome, hnext⟩
  · -- without an embedder there is nothing to learn
    have hsign : b.sign? e place = none := by rw [Build.sign?, hstage, hnone]
    rw [hnone] at hsigned
    rw [hnext, hsame hsign]
    intro p c hc
    refine Or.inr ?_
    rw [Treated, hnone]
    exact ⟨hsigned p, hbare c (List.mem_of_getElem? hc)⟩
  · rw [hsome] at hsigned
    have hsign : b.sign? e place = slots[place]?.bind fun slot =>
        slot.sign? embedder (e.holder.isStale b.number) e.vectors e.world := by
      rw [Build.sign?, hstage, hsome]
    rcases hnext with ⟨hall, hnext⟩ | hnext
    · have hquiet : b.sign? e place = none := by
        rw [hsign, Option.bind_eq_none_iff]
        intro s hs
        have hsettled := hall s (List.mem_of_getElem? hs)
        unfold Slot.isSettled at hsettled
        unfold Slot.sign?
        split at hsettled <;> simp_all
      rw [hnext, hsame hquiet]
      exact told_afterEmbedding hsome hall hsigned
    · rw [hnext, Build.embedAt]
      cases hslot : slots[place]? with
      | none =>
        have hquiet : b.sign? e place = none := by rw [hsign, hslot]; rfl
        rw [hsame hquiet]
        dsimp only
        rw [Build.Told, hstage, hsome]
        exact ⟨hbare, hsigned⟩
      | some s =>
        dsimp only
        rw [Build.Told]
        dsimp only
        rw [hsome]
        refine ⟨hbare, ?_⟩
        intro p s' hs'
        rw [List.getElem?_set] at hs'
        split at hs'
        · rename_i hp
          subst hp
          rw [if_pos (List.getElem?_eq_some_iff.mp hslot).1] at hs'
          obtain rfl := Option.some.inj hs'
          obtain ⟨hempty, htells⟩ := hsigned place s hslot
          rw [hhere, hsign, hslot]
          refine ⟨?_, ?_⟩
          · rw [Slot.chunk_step]; exact hempty
          · rw [Slot.chunk_step]
            exact htells.step embedder b.pipeline.backoff _ e.vectors e.world
        · rename_i hp
          rw [hthere p (Ne.symm hp)]
          exact hsigned p s' hs'

/-- Every step of a build keeps what the signs say of it, if chunks are skipped only by builds that are
overtaken. -/
theorem Build.Told.stepAt {b : Build σ} {signs signs' : Nat → List Sign} (h : b.Told signs)
    (e : Engine σ) (place : Nat) (hhere : signs' place = (b.sign? e place).toList ++ signs place)
    (hthere : ∀ p, p ≠ place → signs' p = signs p)
    (hstale : ∀ p, .polled true ∈ signs p → e.holder.isStale b.number = true) :
    (b.stepAt e place).1.Told signs' := by
  by_cases hembedding : ∃ extract slots, b.stage = .embedding extract slots
  · obtain ⟨extract, slots, hstage⟩ := hembedding
    exact h.embedding hstage e place hhere hthere
  -- in all other parts nothing is learnt
  have hsigns : signs' = signs := by
    refine funext fun p => ?_
    by_cases hp : p = place
    · rw [hp, hhere, sign?_eq_none (fun extract slots hstage => hembedding ⟨extract, slots, hstage⟩)]
      rfl
    · exact hthere p hp
  rw [hsigns]
  unfold Build.Told at h
  cases stepAt_move e b place with
  | idle hquiet hnext => rw [hnext]; exact h
  | walked files hstage hwalk hfiles hnext =>
    rw [hstage] at h
    rw [hnext]
    refine ⟨?_, h⟩
    intro found hfound
    simp at hfound
  | stopped obstacle hstage hwalk hnext => rw [hnext]; exact trivial
  | read readings p r hstage hplace hread hnext =>
    rw [hstage] at h
    rw [hnext]
    refine ⟨?_, h.2⟩
    intro found hfound
    rcases List.mem_or_eq_of_mem_set hfound with hold | hnew
    · exact h.1 found hold
    · rw [← hnew] at hread
      exact embedding_readFile hread
  | unread readings p fault hstage hplace hread hnext => rw [hnext]; exact trivial
  | overtaken extract embedded hstage hstale hnext => rw [hnext]; exact trivial
  | readAll readings hstage hdone hnext =>
    rw [hstage] at h
    rw [hnext]
    refine ⟨h.1.extract, ?_⟩
    dsimp only
    split
    · intro p s hs
      rw [List.getElem?_map] at hs
      obtain ⟨c, hc, rfl⟩ := Option.map_eq_some_iff.mp hs
      refine ⟨h.1.extract c (List.mem_of_getElem? hc), ?_⟩
      rw [h.2 p]
      exact .waiting
    · exact h.2
  | embed extract slots slot embedder hstage hplace hembedder hnext =>
    exact absurd ⟨extract, slots, hstage⟩ hembedding
  | crashed extract slots fault hstage hnext => exact absurd ⟨extract, slots, hstage⟩ hembedding
  | gathered extract slots chunks embedded hstage hchunks hnext =>
    exact absurd ⟨extract, slots, hstage⟩ hembedding
  | made extract chunks embedded after hstage hafter hnext =>
    have hmade : (b.stepAt e place).1.stage.made? = some (b.generation extract chunks) := by
      rw [hnext]
      rcases hafter with ⟨rfl, -⟩ | rfl <;> rfl
    have hunskipped : ∀ p, .polled true ∉ signs p := by
      intro p hskipped
      have hovertaken := hstale p hskipped
      rw [isStale_of_made hstage hmade] at hovertaken
      exact absurd hovertaken Bool.false_ne_true
    have htreated : ∀ p c, chunks[p]? = some c → Treated b.pipeline (signs p) c := by
      rw [hstage] at h
      intro p c hc
      refine (h p c hc).resolve_left fun hskipped => hunskipped p ?_
      rw [hskipped]
      exact List.mem_singleton_self _
    rw [hnext]
    rcases hafter with ⟨rfl, -⟩ | rfl
    · exact ⟨hunskipped, htreated⟩
    · exact ⟨hunskipped, htreated⟩
  | store g embedded hstage hnext =>
    have hpipeline := stepAt_pipeline e b place
    rw [hnext] at hpipeline ⊢
    rw [hstage] at h
    rcases store_stage e b g embedded with ⟨vector, hafter⟩ | ⟨fault, hafter⟩
    · rw [Build.Told, hafter, hpipeline]
      exact h
    · rw [Build.Told, hafter]
      exact trivial
  | publish g embedded hstage hnext => rw [hnext]; exact trivial
  | abort result hstage hnext => rw [hnext]; exact trivial
  | retire g old summary hstage hnext => rw [hnext]; exact trivial
  | retired summary hstage hnext => rw [hnext]; exact trivial

namespace Session

/-! ## Signs of a session -/

/-- What an action learns about the chunk at a place of a build, if anything. -/
def sign? (s : Session σ) (call place : Nat) : Action → Option Sign
  | .build call' place' =>
    if call' = call ∧ place' = place then s.builds[call]?.bind (·.sign? s.engine place) else none
  | _ => none

/-- The signs of the chunk at a place of a build, the latest one first. -/
def signs (e : Engine σ) (call place : Nat) : List Action → List Sign
  | [] => []
  | a :: past => ((after e past).sign? call place a).toList ++ signs e call place past

section Signs

variable {e : Engine σ} {past : List Action} {call : Nat} {b : Build σ}

theorem signs_suffix (e : Engine σ) (call place : Nat) (later past : List Action) :
    signs e call place past <:+ signs e call place (later ++ past) := by
  induction later with
  | nil => exact List.suffix_rfl
  | cons a later ih => exact ih.trans (List.suffix_append _ _)

theorem signs_of_other {a : Action} (h : ∀ place, a ≠ .build call place) (place : Nat) :
    signs e call place (a :: past) = signs e call place past := by
  rw [signs]
  unfold sign?
  split
  · rename_i call' place'
    rw [if_neg (fun hsame => h place' (by rw [hsame.1]))]
    rfl
  · rfl

theorem signs_here (hb : (after e past).builds[call]? = some b) (place : Nat) :
    signs e call place (.build call place :: past) =
      (b.sign? (after e past).engine place).toList ++ signs e call place past := by
  rw [signs, sign?, if_pos ⟨rfl, rfl⟩, hb]
  rfl

theorem signs_there {place p : Nat} (hp : p ≠ place) :
    signs e call p (.build call place :: past) = signs e call p past := by
  rw [signs, sign?, if_neg (fun hsame => hp hsame.2.symm)]
  rfl

/-- A build that has not begun has learnt nothing. -/
theorem signs_eq_nil (hlen : (after e past).builds.length ≤ call) (place : Nat) :
    signs e call place past = [] := by
  induction past with
  | nil => rfl
  | cons a past ih =>
    have hbefore := Nat.le_trans (length_builds_le e past a) hlen
    rw [signs, ih hbefore, List.append_nil]
    unfold sign?
    split
    · rw [List.getElem?_eq_none hbefore, Option.bind_none, ite_self]
      rfl
    · rfl

/-- A build that has ended its part with the chunks learns nothing more. -/
theorem signs_of_quiet (hb : (after e past).builds[call]? = some b)
    (hquiet : ∀ extract slots, b.stage ≠ .embedding extract slots) (a : Action) (place : Nat) :
    signs e call place (a :: past) = signs e call place past := by
  rcases build_next hb a with ⟨p, rfl, -⟩ | ⟨hother, -⟩
  · by_cases hp : place = p
    · subst hp
      rw [signs_here hb, sign?_eq_none hquiet]
      rfl
    · exact signs_there hp
  · exact signs_of_other hother place

/-! ## Overtaken builds -/

/-- A build that is overtaken stays overtaken. -/
theorem isStale_append (hfresh : e.holder = {}) (hb : b ∈ (after e past).builds)
    (hstale : (after e past).engine.holder.isStale b.number = true) (later : List Action) :
    (after e (later ++ past)).engine.holder.isStale b.number = true := by
  obtain ⟨new, hgrown⟩ := exists_trace_append e later past
  have hacc := accounted hfresh past
  have hhanded : b.number ∈ Traffic.handed (trace e past) := by
    obtain ⟨i, hi⟩ := List.mem_iff_getElem?.mp hb
    have hnumber := hacc.number_eq i b hi
    have hlatest := hacc.latest_eq
    have hlt := (List.getElem?_eq_some_iff.mp hi).1
    rw [holder_after hfresh] at hlatest
    rw [(Traffic.consistent hacc.proper).handed_iff]
    omega
  rw [holder_after hfresh] at hstale ⊢
  rw [hgrown]
  exact Traffic.isStale_append hacc.proper hhanded hstale

/-- A build of which a chunk was skipped is overtaken, now and for good. -/
theorem isStale_of_polled (hfresh : e.holder = {}) {place : Nat}
    (hb : (after e past).builds[call]? = some b)
    (hpolled : .polled true ∈ signs e call place past) :
    (after e past).engine.holder.isStale b.number = true := by
  induction past generalizing b with
  | nil => simp [signs] at hpolled
  | cons a past ih =>
    -- the chunk was skipped before, or is skipped now since the build is overtaken now
    have hbefore : ∀ before, (after e past).builds[call]? = some before →
        before.number = b.number → (after e past).engine.holder.isStale b.number = true →
          (after e (a :: past)).engine.holder.isStale b.number = true := by
      intro before hbefore hnumber hstale
      rw [← hnumber] at hstale ⊢
      exact isStale_append hfresh (List.mem_of_getElem? hbefore) hstale [a]
    rcases build_cases hb with ⟨hnew, path, engine, rfl, -⟩ | ⟨p, before, rfl, hstepped, rfl⟩ |
      ⟨hother, hsame⟩
    · rw [signs_of_other (by simp), signs_eq_nil (Nat.le_of_eq hnew)] at hpolled
      simp at hpolled
    · have hnumber := stepAt_number (after e past).engine before p
      refine hbefore before hstepped hnumber.symm ?_
      rw [hnumber]
      by_cases hp : place = p
      · subst hp
        rw [signs_here hstepped, List.mem_append, Option.mem_toList] at hpolled
        rcases hpolled with hnow | hearlier
        · exact isStale_of_sign? hnow
        · exact ih hstepped hearlier
      · rw [signs_there hp] at hpolled
        exact ih hstepped hpolled
    · rw [signs_of_other hother] at hpolled
      exact hbefore b hsame rfl (ih hsame hpolled)

/-! ## Chunks of published generations -/

/-- Every build embeds the way the engine does, and is told by its signs. -/
theorem told_after (hfresh : e.holder = {}) (hb : (after e past).builds[call]? = some b) :
    b.pipeline = e.pipeline ∧ b.Told fun place => signs e call place past := by
  induction past generalizing b with
  | nil => simp [after] at hb
  | cons a past ih =>
    rcases build_cases hb with ⟨hnew, path, engine, rfl, hbegin⟩ | ⟨p, before, rfl, hstepped, rfl⟩ |
      ⟨hother, hsame⟩
    · have hpipeline : b.pipeline = (after e past).engine.pipeline :=
        congrArg Build.pipeline (begin_ok hbegin).2.1
      obtain ⟨hsettings, -, hembedder, -⟩ := sameServices_after e past
      refine ⟨by rw [hpipeline, pipeline, pipeline, hsettings, hembedder], ?_⟩
      rw [Build.Told, stage_begin hbegin]
      intro place
      rw [signs_of_other (by simp), signs_eq_nil (Nat.le_of_eq hnew)]
    · obtain ⟨hpipeline, htold⟩ := ih hstepped
      refine ⟨(stepAt_pipeline _ before p).trans hpipeline, ?_⟩
      exact htold.stepAt _ p (signs_here hstepped p) (fun q hq => signs_there hq)
        (fun q hpolled => isStale_of_polled hfresh hstepped hpolled)
    · obtain ⟨hpipeline, htold⟩ := ih hsame
      refine ⟨hpipeline, ?_⟩
      have hsigns : (fun place => signs e call place (a :: past)) =
          fun place => signs e call place past := funext fun place => signs_of_other hother place
      rw [hsigns]
      exact htold

/-- A generation that was published belongs to a build that has skipped none of its chunks, and each
of them was treated. -/
theorem exists_treated (hfresh : e.holder = {}) {g : Generation}
    (hg : Event.publish g ∈ trace e past) :
    ∃ call b, (after e past).builds[call]? = some b ∧ b.number = g.number ∧
      b.stage.isOpen = false ∧ (∀ place, .polled true ∉ signs e call place past) ∧
        ∀ place c, g.chunks[place]? = some c → Treated e.pipeline (signs e call place past) c := by
  induction past with
  | nil => simp [trace] at hg
  | cons a past ih =>
    rw [trace, List.mem_append, Option.mem_toList] at hg
    rcases hg with hnow | hbefore
    · obtain ⟨call, place, b, embedded, rfl, hb, hstage⟩ := exists_build_of_event hnow
      have hnumber : g.number = b.number :=
        (accounted hfresh past).made_number b (List.mem_of_getElem? hb) g (by rw [hstage]; rfl)
      obtain ⟨hpipeline, htold⟩ := told_after hfresh hb
      rw [Build.Told, hstage, hpipeline] at htold
      have hnext : (after e (.build call place :: past)).builds[call]? =
          some (b.stepAt (after e past).engine place).1 := by
        rw [after_build hb, List.getElem?_set_self (List.getElem?_eq_some_iff.mp hb).1]
      have hstep : b.stepAt (after e past).engine place =
          b.publish (after e past).engine g embedded := by
        rw [Build.stepAt, hstage]
      have hsigns := signs_of_quiet hb (by simp [hstage]) (.build call place)
      refine ⟨call, _, hnext, ?_, ?_, ?_, ?_⟩
      · rw [stepAt_number, hnumber]
      · rw [hstep, publish_stage]; rfl
      · intro p
        rw [hsigns p]
        exact htold.1 p
      · intro p c hc
        rw [hsigns p]
        exact htold.2 p c hc
    · obtain ⟨call, b, hb, hnumber, hclosed, hunskipped, htreated⟩ := ih hbefore
      have hquiet : ∀ extract slots, b.stage ≠ .embedding extract slots := by
        intro extract slots hstage
        rw [hstage] at hclosed
        exact absurd hclosed (by simp [Stage.isOpen])
      have hsigns := signs_of_quiet hb hquiet a
      have hkept : (∀ place, .polled true ∉ signs e call place (a :: past)) ∧ ∀ place c,
          g.chunks[place]? = some c → Treated e.pipeline (signs e call place (a :: past)) c := by
        refine ⟨?_, ?_⟩
        · intro place
          rw [hsigns place]
          exact hunskipped place
        · intro place c hc
          rw [hsigns place]
          exact htreated place c hc
      rcases build_next hb a with ⟨place, rfl, hnext⟩ | ⟨-, hsame⟩
      · exact ⟨call, _, hnext, (stepAt_number _ b place).trans hnumber, isOpen_stepAt hclosed _ place, hkept⟩
      · exact ⟨call, b, hsame, hnumber, hclosed, hkept⟩

end Signs

/-! ## Only whole builds are published -/

/-- However builds and their workers take turns, a build that has skipped a chunk since the work was to
stop is never published. So in a generation that was swapped in every chunk was attempted, if there
is an embedder: its vector was kept or given, and it has none only if none was kept for its text and
the embedder refused the text at the first attempt and all further ones. -/
theorem attempted_of_swapped {e : Engine σ} (hfresh : e.holder = {}) (past : List Action) :
    (∀ call place, .polled true ∈ signs e call place past →
      ∀ later g, Event.publish g ∈ trace e (later ++ past) → g.number ≠ call + 1) ∧
    ∀ g ∈ Traffic.swapped (trace e past), ∃ call : Nat, g.number = call + 1 ∧
      ∀ place c, g.chunks[place]? = some c →
        match e.embedder with
        | some _ =>
          Attempted e.settings.embedRetries.toNat c.canonicalText (signs e call place past)
            c.embedding ∧
          (c.embedding = none → ∃ reasons : List Embedding.Failure,
            reasons.length = e.settings.embedRetries.toNat + 1 ∧
              signs e call place past = refusals c.canonicalText reasons)
        | none => signs e call place past = [] ∧ c.embedding = none := by
  refine ⟨?_, ?_⟩
  · intro call place hpolled later g hg hnumber
    obtain ⟨call', b, hb, hsame, -, hunskipped, -⟩ := exists_treated hfresh hg
    have hplace := (accounted hfresh (later ++ past)).number_eq call' b hb
    obtain rfl : call' = call := by omega
    exact hunskipped place ((signs_suffix e call' place later past).subset hpolled)
  · intro g hg
    obtain ⟨call, b, hb, hsame, -, -, htreated⟩ :=
      exists_treated hfresh (Traffic.publish_mem_of_mem_swapped hg)
    have hplace := (accounted hfresh past).number_eq call b hb
    refine ⟨call, by omega, ?_⟩
    intro place c hc
    have hdone := htreated place c hc
    unfold Treated pipeline Embedding.Pipeline.new at hdone
    dsimp only at hdone
    cases hembedder : e.embedder with
    | none =>
      rw [hembedder] at hdone
      exact hdone
    | some embedder =>
      rw [hembedder] at hdone
      refine ⟨hdone, ?_⟩
      intro hnone
      rw [hnone] at hdone
      exact hdone.of_none

/-- Two builds of which the second begins when the first is about to embed its chunk. -/
def cutShort : List Action :=
  List.replicate 12 (.build 1 0) ++
    [.build 0 0, .index "/", .build 0 0, .build 0 0, .build 0 0, .index "/"]

/-- The first build has skipped its chunk and is never published, the chunk of the second was
attempted. -/
theorem attempted_of_swapped_cutShort :
    .polled true ∈ signs oneImport 0 0 cutShort ∧
      (∀ later g, Event.publish g ∈ trace oneImport (later ++ cutShort) → g.number ≠ 1) ∧
        ∃ g c, g ∈ Traffic.swapped (trace oneImport cutShort) ∧ g.number = 2 ∧ g.chunks = [c] ∧
          c.embedding.isSome = true ∧
            Attempted 2 c.canonicalText (signs oneImport 1 0 cutShort) c.embedding := by
  obtain ⟨hnever, hattempted⟩ := attempted_of_swapped (e := oneImport) rfl cutShort
  -- the two builds are carried out
  have hfirst : (signs oneImport 0 0 cutShort).any (fun sign =>
      match sign with
      | .polled stop => stop
      | _ => false) = true := by
    decide +kernel
  have hsecond : (Traffic.swapped (trace oneImport cutShort)).map
      (fun g => (g.number, g.chunks.map (·.embedding.isSome))) = [(2, [true])] := by
    decide +kernel
  obtain ⟨sign, hsign, hstop⟩ := List.any_eq_true.mp hfirst
  have hpolled : .polled true ∈ signs oneImport 0 0 cutShort := by
    cases sign with
    | polled stop => rwa [show stop = true from hstop] at hsign
    | looked text kept => exact absurd hstop Bool.false_ne_true
    | said text outcome => exact absurd hstop Bool.false_ne_true
  refine ⟨hpolled, ?_, ?_⟩
  · intro later g hg
    exact hnever 0 0 hpolled later g hg
  · obtain ⟨g, rest, hswapped, hfound, -⟩ := List.map_eq_cons_iff.mp hsecond
    obtain ⟨hnumber, hchunks⟩ := Prod.mk.inj hfound
    obtain ⟨c, others, hchunk, hsome, hnone⟩ := List.map_eq_cons_iff.mp hchunks
    obtain rfl := List.map_eq_nil_iff.mp hnone
    have hmem : g ∈ Traffic.swapped (trace oneImport cutShort) := by
      rw [hswapped]
      exact List.mem_cons_self
    obtain ⟨call, hcall, hall⟩ := hattempted g hmem
    obtain rfl : call = 1 := by omega
    exact ⟨g, c, hmem, hnumber, hchunk, hsome, (hall 0 c (by rw [hchunk]; rfl)).1⟩

end Session

end CodeSearch.Engine

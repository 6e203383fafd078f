import CodeSearch.Proofs.Embedding.Workbench
import CodeSearch.Proofs.Lru.Recent

/-!
Embedding again what was embedded just now.

While a run is at work, only its own texts are looked up and put, so if there is room for as many
vectors as it has texts, none of them loses its place to another: what goes is what was kept before the
run (`Filled`). So a run that gave a vector to each chunk leaves one for each text. A run that follows
directly finds all of its texts then. It uses what is kept and puts nothing, so what it finds is the
same from its beginning to its end (`Served`), and the embedder is not asked at all
(`asks_nothing_again`).
-/
set_option autoImplicit false

namespace CodeSearch.Embedding

variable {σ : Type} {embedder : Embedder σ}

/-! ## What a first run leaves -/

/-- A step of a slot uses its own key only, and a slot has used it when it comes to a vector. -/
theorem Slot.recent_step (retries : Nat) (backoff : Float) (stop : Bool) {vectors : Vectors} (world : σ)
    {s : Slot} {keys used : List String} (hrecent : Lru.Recent keys used vectors)
    (hkey : vectorKey embedder s.chunk.canonicalText ∈ keys)
    (hroom : keys.toFinset.card ≤ vectors.room)
    (hused : s.isEmbedded = true → vectorKey embedder s.chunk.canonicalText ∈ used) :
    ∃ used', used ⊆ used' ∧
      Lru.Recent keys used' (s.step embedder retries backoff stop vectors world).vectors ∧
      ((s.step embedder retries backoff stop vectors world).slot.isEmbedded = true →
        vectorKey embedder s.chunk.canonicalText ∈ used') := by
  cases s.step_move embedder retries backoff stop vectors world with
  | polled hprogress hnext =>
    rw [hnext]
    refine ⟨used, List.Subset.refl _, hrecent, fun h => ?_⟩
    cases stop <;> simp [isEmbedded] at h
  | kept v hprogress hget hnext =>
    rw [hnext]
    exact ⟨_, List.subset_cons_self _ _, hrecent.touch hkey hroom hget, fun _ => List.mem_cons_self⟩
  | missed hprogress hget hnext =>
    rw [hnext]
    exact ⟨used, List.Subset.refl _, hrecent, fun h => by simp [isEmbedded] at h⟩
  | asked attempt hprogress hnext =>
    rw [hnext]
    refine ⟨used, List.Subset.refl _, hrecent, fun h => ?_⟩
    dsimp only at h
    unfold attemptOutcome at h
    split at h
    · simp [isEmbedded] at h
    · split at h <;> simp [isEmbedded] at h
    · simp [isEmbedded] at h
  | stored v hprogress hnext =>
    rw [hnext]
    exact ⟨_, List.subset_cons_self _ _, hrecent.put hkey hroom v, fun _ => List.mem_cons_self⟩
  | settled hsettled hnext =>
    rw [hnext]
    exact ⟨used, List.Subset.refl _, hrecent, hused⟩

namespace Workbench

variable {p : Pipeline σ} {w : Workbench σ}

/-- There is room for as many vectors as at first. -/
theorem room_after (p : Pipeline σ) (embedder : Embedder σ) (world : σ) (acts : List Act) :
    (after p embedder world acts).vectors.room = p.room := by
  induction acts with
  | nil => rfl
  | cons a past ih =>
    rw [after]
    cases step_move p embedder (after p embedder world past) a with
    | idle hask hnext => rw [hnext, ih]
    | begins chunks ha hask hnext => rw [hnext, ← ih]
    | turns run place stop s ha hslot hask hnext =>
      rw [hnext, ← ih]
      cases s.step_move embedder p.retries p.backoff stop (after p embedder world past).vectors
        (after p embedder world past).world with
      | polled hprogress hnext => rw [hnext]
      | kept v hprogress hget hnext => rw [hnext]; exact Lru.room_touch _ _
      | missed hprogress hget hnext => rw [hnext]
      | asked attempt hprogress hnext => rw [hnext]
      | stored v hprogress hnext => rw [hnext]; exact Lru.room_put _ _ _
      | settled hsettled hnext => rw [hnext]
    | queries text ha hask hnext => rw [hnext, ← ih]
    | clears ha hask hnext => rw [hnext, ← ih]; rfl

/-- Of the texts of a run, the ones for which it has come to a vector are among those whose vectors
were used last. -/
def Filled (embedder : Embedder σ) (texts : List String) (run : Nat) (w : Workbench σ) : Prop :=
  ∃ used, Lru.Recent (texts.map (vectorKey embedder)) used w.vectors ∧
    ∀ place s, w.slot? run place = some s → s.chunk.canonicalText ∈ texts ∧
      (s.isEmbedded = true → vectorKey embedder s.chunk.canonicalText ∈ used)

theorem Filled.step {texts : List String} {run : Nat} (h : Filled embedder texts run w)
    (hroom : texts.toFinset.card ≤ w.vectors.room) (place : Nat) (stop : Bool) :
    Filled embedder texts run (w.step p embedder (.turn run place stop)) := by
  obtain ⟨used, hrecent, hslots⟩ := h
  cases hslot : w.slot? run place with
  | none => exact ⟨used, by rw [Workbench.step, hslot]; exact ⟨hrecent, hslots⟩⟩
  | some s =>
    obtain ⟨htext, hused⟩ := hslots place s hslot
    have hkeys : (texts.map (vectorKey embedder)).toFinset.card ≤ w.vectors.room := by
      have himage : (texts.map (vectorKey embedder)).toFinset =
          texts.toFinset.image (vectorKey embedder) := by
        ext key
        simp
      rw [himage]
      exact Finset.card_image_le.trans hroom
    obtain ⟨used', hmore, hrecent', hused'⟩ := Slot.recent_step p.retries p.backoff stop w.world hrecent
      (List.mem_map_of_mem htext) hkeys hused
    refine ⟨used', ?_⟩
    rw [Workbench.step, hslot]
    refine ⟨hrecent', fun place' s' hslot' => ?_⟩
    rw [slot?_modify w hslot] at hslot'
    split at hslot'
    · obtain rfl := Option.some.inj hslot'
      rw [Slot.chunk_step]
      exact ⟨htext, hused'⟩
    · obtain ⟨htext', hused⟩ := hslots place' s' hslot'
      exact ⟨htext', fun hembedded => hmore (hused hembedded)⟩

/-- A run that has room for all of its texts leaves a vector for each text that it came to one for. -/
theorem filled_after (world : σ) {past first : List Act} {chunks : List Chunk}
    (hroom : (chunks.map (·.canonicalText)).toFinset.card ≤ p.room)
    (hfirst : ∀ a ∈ first, ∃ place stop,
      a = .turn (after p embedder world past).runs.length place stop) :
    Filled embedder (chunks.map (·.canonicalText)) (after p embedder world past).runs.length
      (after p embedder world (first ++ .begin chunks :: past)) := by
  induction first with
  | nil =>
    refine ⟨[], .nil _ _, fun place s hslot => ?_⟩
    rw [List.nil_append, after, Workbench.step, slot?, List.getElem?_concat_length, Option.bind_some,
      List.getElem?_map] at hslot
    obtain ⟨c, hplace, rfl⟩ := Option.map_eq_some_iff.mp hslot
    exact ⟨List.mem_map_of_mem (List.mem_of_getElem? hplace), fun h => by
      simp [Slot.ofChunk, Slot.isEmbedded] at h⟩
  | cons a first ih =>
    obtain ⟨place, stop, rfl⟩ := hfirst a List.mem_cons_self
    rw [List.cons_append, after]
    refine (ih fun a ha => hfirst a (List.mem_cons_of_mem _ ha)).step ?_ place stop
    rwa [room_after]

/-- After a run that gave a vector to each chunk, one is kept for each of its texts. -/
theorem exists_kept (world : σ) {past first : List Act} {chunks : List Chunk} {found : List Chunk}
    (hroom : (chunks.map (·.canonicalText)).toFinset.card ≤ p.room)
    (hfirst : ∀ a ∈ first, ∃ place stop,
      a = .turn (after p embedder world past).runs.length place stop)
    (hembedded : (after p embedder world (first ++ .begin chunks :: past)).ending?
      (after p embedder world past).runs.length = some (.ok (found, chunks.length)))
    {text : String} (htext : text ∈ chunks.map (·.canonicalText)) :
    ∃ v, (after p embedder world (first ++ .begin chunks :: past)).vectors.get?
      (vectorKey embedder text) = some v := by
  obtain ⟨slots, hrun, hchunks⟩ := exists_slots p embedder world past chunks first
  obtain ⟨used, hrecent, hslots⟩ := filled_after world hroom hfirst
  have hall : ∀ s ∈ slots, s.isEmbedded = true := by
    rw [ending?, hrun] at hembedded
    dsimp only at hembedded
    split at hembedded
    · split at hembedded
      · cases hembedded
      · have hcount : slots.countP (·.isEmbedded) = slots.length := by
          have hnumber := congrArg Prod.snd (Except.ok.inj (Option.some.inj hembedded))
          rw [← List.length_map (f := (·.chunk)), hchunks]
          exact hnumber
        exact List.countP_eq_length.mp hcount
    · cases hembedded
  obtain ⟨c, hc, rfl⟩ := List.mem_map.mp htext
  rw [← hchunks] at hc
  obtain ⟨s, hs, rfl⟩ := List.mem_map.mp hc
  obtain ⟨place, hplace⟩ := List.getElem?_of_mem hs
  exact hrecent.exists_get?
    ((hslots place s (by rw [slot?, hrun]; exact hplace)).2 (hall s hs))

end Workbench

/-! ## What a second run finds -/

/-- A slot has asked for nothing, and has come to what is kept if it came to anything. -/
def Slot.Served (embedder : Embedder σ) (kept : Vectors) (s : Slot) : Prop :=
  match s.progress with
  | .waiting | .admitted | .skipped => True
  | .embedded v => kept.get? (vectorKey embedder s.chunk.canonicalText) = some v
  | _ => False

/-- A slot whose text is kept asks for nothing, and changes nothing of what is found. -/
theorem Slot.served_step (retries : Nat) (backoff : Float) (stop : Bool) {vectors kept : Vectors}
    (world : σ) {s : Slot} (hs : s.Served embedder kept)
    (hsame : ∀ key, vectors.get? key = kept.get? key)
    (hkept : ∃ v, kept.get? (vectorKey embedder s.chunk.canonicalText) = some v) :
    let next := s.step embedder retries backoff stop vectors world
    next.slot.Served embedder kept ∧ (∀ key, next.vectors.get? key = kept.get? key) ∧
      next.world = world := by
  intro next
  cases s.step_move embedder retries backoff stop vectors world with
  | polled hprogress hnext =>
    rw [show next = _ from hnext]
    refine ⟨?_, hsame, rfl⟩
    cases stop with
    | true => trivial
    | false => trivial
  | kept v hprogress hget hnext =>
    rw [show next = _ from hnext]
    exact ⟨(hsame _).symm.trans hget, fun key => (Lru.get?_touch_eq _ _ _).trans (hsame key), rfl⟩
  | missed hprogress hget hnext =>
    obtain ⟨v, hv⟩ := hkept
    rw [hsame, hv] at hget
    cases hget
  | asked attempt hprogress hnext =>
    rw [Slot.Served, hprogress] at hs
    exact hs.elim
  | stored v hprogress hnext =>
    rw [Slot.Served, hprogress] at hs
    exact hs.elim
  | settled hsettled hnext =>
    rw [show next = _ from hnext]
    exact ⟨hs, hsame, rfl⟩

theorem Slot.Served.request?_eq_none {kept : Vectors} {s : Slot} (h : s.Served embedder kept) :
    s.request? = none := by
  unfold Slot.Served at h
  unfold Slot.request?
  split
  · rename_i attempt hprogress
    rw [hprogress] at h
    exact h.elim
  · rfl

/-- A slot that nothing more is done for has the vector that is kept for its text, unless it was
skipped. -/
theorem Slot.Served.answers {kept : Vectors} {s : Slot} (h : s.Served embedder kept)
    (hsettled : s.isSettled = true) (hne : s.progress ≠ .skipped) :
    s.Answers fun text => kept.get? (vectorKey embedder text) := by
  unfold Slot.Served at h
  unfold Slot.isSettled at hsettled
  cases hprogress : s.progress with
  | embedded v =>
    rw [hprogress] at h
    exact .vector v hprogress h
  | skipped => exact absurd hprogress hne
  | waiting => simp [hprogress] at hsettled
  | admitted => simp [hprogress] at hsettled
  | calling attempt => simp [hprogress] at hsettled
  | received v => simp [hprogress] at hsettled
  | failed => simp [hprogress] at h
  | crashed fault => simp [hprogress] at h

namespace Workbench

variable {p : Pipeline σ} {w : Workbench σ}

/-- What a run finds is what was kept when it began, and its slots have come to that or are on the way.
-/
structure Served (embedder : Embedder σ) (kept : Vectors) (world : σ) (run : Nat) (w : Workbench σ) :
    Prop where
  vectors : ∀ key, w.vectors.get? key = kept.get? key
  world : w.world = world
  slots : ∀ place s, w.slot? run place = some s → s.Served embedder kept ∧
    ∃ v, kept.get? (vectorKey embedder s.chunk.canonicalText) = some v

/-- A turn of such a run asks for nothing. -/
theorem Served.step {kept : Vectors} {world : σ} {run : Nat} (h : w.Served embedder kept world run)
    (place : Nat) (stop : Bool) :
    (w.step p embedder (.turn run place stop)).Served embedder kept world run ∧
      w.asked? (.turn run place stop) = none := by
  cases hslot : w.slot? run place with
  | none =>
    rw [Workbench.step, asked?, hslot]
    exact ⟨h, rfl⟩
  | some s =>
    obtain ⟨hs, hkept⟩ := h.slots place s hslot
    obtain ⟨hserved, hsame, hworld⟩ :=
      Slot.served_step p.retries p.backoff stop w.world hs h.vectors hkept
    rw [Workbench.step, asked?, hslot, Option.bind_some, hs.request?_eq_none]
    refine ⟨⟨hsame, hworld.trans h.world, fun place' s' hslot' => ?_⟩, rfl⟩
    rw [slot?_modify w hslot] at hslot'
    split at hslot'
    · obtain rfl := Option.some.inj hslot'
      refine ⟨hserved, ?_⟩
      rwa [Slot.chunk_step]
    · exact h.slots place' s' hslot'

/-- A run that begins when all of its texts are kept is served with what is kept, and asks for nothing.
-/
theorem served_after (world : σ) {past second : List Act} {chunks : List Chunk}
    (hkept : ∀ c ∈ chunks, ∃ v, (after p embedder world past).vectors.get?
      (vectorKey embedder c.canonicalText) = some v)
    (hsecond : ∀ a ∈ second, ∃ place stop,
      a = .turn (after p embedder world past).runs.length place stop) :
    (after p embedder world (second ++ .begin chunks :: past)).Served embedder
        (after p embedder world past).vectors (after p embedder world past).world
        (after p embedder world past).runs.length ∧
      asked p embedder world (second ++ .begin chunks :: past) = asked p embedder world past := by
  induction second with
  | nil =>
    refine ⟨⟨fun key => rfl, rfl, fun place s hslot => ?_⟩, rfl⟩
    rw [List.nil_append, after, Workbench.step, slot?, List.getElem?_concat_length, Option.bind_some,
      List.getElem?_map] at hslot
    obtain ⟨c, hplace, rfl⟩ := Option.map_eq_some_iff.mp hslot
    exact ⟨trivial, hkept c (List.mem_of_getElem? hplace)⟩
  | cons a second ih =>
    obtain ⟨place, stop, rfl⟩ := hsecond a List.mem_cons_self
    obtain ⟨hserved, hasked⟩ := ih fun a ha => hsecond a (List.mem_cons_of_mem _ ha)
    obtain ⟨hnext, hnone⟩ := hserved.step (p := p) place stop
    refine ⟨hnext, ?_⟩
    rw [List.cons_append, asked, hnone, hasked]
    rfl

/-- A slot of such a run that nothing more is done for has the vector that is kept for its text, if the
run is not to stop. -/
theorem answers_of_served (world : σ) {past second : List Act} {chunks : List Chunk}
    (hkept : ∀ c ∈ chunks, ∃ v, (after p embedder world past).vectors.get?
      (vectorKey embedder c.canonicalText) = some v)
    (hsecond : ∀ a ∈ second, ∃ place stop,
      a = .turn (after p embedder world past).runs.length place stop)
    (hstop : ∀ place, Act.turn (after p embedder world past).runs.length place true ∉ second)
    {place : Nat} {s : Slot}
    (hslot : (after p embedder world (second ++ .begin chunks :: past)).slot?
      (after p embedder world past).runs.length place = some s)
    (hsettled : s.isSettled = true) :
    s.Answers fun text => (after p embedder world past).vectors.get? (vectorKey embedder text) := by
  obtain ⟨s', hslot', hne⟩ :=
    ne_skipped_of_run p embedder world past (chunk_of_slot? hslot) second (hstop place)
  obtain rfl : s = s' := Option.some.inj (hslot.symm.trans hslot')
  exact ((served_after world hkept hsecond).1.slots place s hslot).1.answers hsettled hne

/-- If a run gave a vector to each of its chunks, and there is room for as many vectors as it has
texts, then a run that follows directly over chunks with such texts does not ask the embedder at all:
nothing is asked, each text has a vector that is kept, and unless the run is to stop, each chunk gets
this vector. This holds in every history and for all schedules of both runs, also if the second one
takes one chunk after the other. -/
theorem asks_nothing_again (hp : p.embedder = some embedder) (world : σ) {past first second : List Act}
    {xs ys found : List Chunk} (hroom : (xs.map (·.canonicalText)).toFinset.card ≤ p.room)
    (hfirst : ∀ a ∈ first, ∃ place stop,
      a = .turn (after p embedder world past).runs.length place stop)
    (hembedded : (after p embedder world (first ++ .begin xs :: past)).ending?
      (after p embedder world past).runs.length = some (.ok (found, xs.length)))
    (htexts : ∀ y ∈ ys, y.canonicalText ∈ xs.map (·.canonicalText))
    (hsecond : ∀ a ∈ second, ∃ place stop,
      a = .turn (after p embedder world (first ++ .begin xs :: past)).runs.length place stop) :
    let before := after p embedder world (first ++ .begin xs :: past)
    let run := before.runs.length
    let w := after p embedder world (second ++ .begin ys :: (first ++ .begin xs :: past))
    let left := fun text => before.vectors.get? (vectorKey embedder text)
    asked p embedder world (second ++ .begin ys :: (first ++ .begin xs :: past)) =
        asked p embedder world (first ++ .begin xs :: past) ∧
      (∀ y ∈ ys, (left y.canonicalText).isSome = true) ∧
      ((∀ place, Act.turn run place true ∉ second) →
        (∀ result, w.ending? run = some result → result = .ok (ys.map (embeddedBy left), ys.length)) ∧
        ((∀ place < ys.length, p.retries + 5 ≤ second.countP (·.isTurn run place)) →
          (w.ending? run).isSome = true)) ∧
      let ran := p.run never before.vectors before.world ys
      ran.chunks = ys.map (embeddedBy left) ∧ ran.embedded = ys.length ∧ ran.fault = none ∧
        ran.world = before.world := by
  intro before run w left
  have hkept : ∀ y ∈ ys, ∃ v, before.vectors.get? (vectorKey embedder y.canonicalText) = some v :=
    fun y hy => exists_kept world hroom hfirst hembedded (htexts y hy)
  have hall : ∀ y ∈ ys, (left y.canonicalText).isSome = true :=
    fun y hy => Option.isSome_iff_exists.mpr (hkept y hy)
  have hnumber : (ys.map (embeddedBy left)).countP (·.embedding.isSome) = ys.length := by
    rw [List.countP_map, List.countP_eq_length]
    exact hall
  refine ⟨(served_after world hkept hsecond).2, hall, fun hstop => ⟨fun result hending => ?_,
    ending?_isSome_of_turns⟩, ?_⟩
  · rw [ending?_eq_of_answers (fun place s hslot hsettled =>
      answers_of_served world hkept hsecond hstop hslot hsettled) hending, hnumber]
  · have hnever : ∀ turns : List Act, (∀ a ∈ turns, ∃ place, a = .turn run place false) →
        (∀ a ∈ turns, ∃ place stop, a = .turn run place stop) ∧
          ∀ place, Act.turn run place true ∉ turns := by
      refine fun turns hturns => ⟨fun a ha => ?_, fun place hmem => ?_⟩
      · obtain ⟨place, rfl⟩ := hturns a ha
        exact ⟨place, false, rfl⟩
      · obtain ⟨other, hother⟩ := hturns _ hmem
        cases hother
    obtain ⟨hchunks, hembedded', hfault⟩ := run_eq_of_answers (g := left) hp
      fun turns hturns place s hslot hsettled =>
        answers_of_served world hkept (hnever turns hturns).1 (hnever turns hturns).2 hslot hsettled
    refine ⟨hchunks, hembedded'.trans hnumber, hfault, ?_⟩
    obtain ⟨turns, hturns, slots, hlast, -⟩ := exists_turns_run p embedder world
      (first ++ .begin xs :: past) ys hp
    have hworld := (served_after world hkept (hnever turns hturns).1).1.world
    rw [hlast] at hworld
    exact hworld

/-! ### A cache that is full of other texts -/

/-- An embedder that gives a longer vector each time it is asked. -/
def growing : Embedder Nat where
  key := "growing"
  dimension := 1
  embed _ n := (.vector (List.replicate n 0.0), n + 1)

/-- Room for two vectors. -/
def tight : Pipeline Nat := ⟨some growing, 0, 0.0, 2⟩

/-- An earlier run has filled the cache with other texts. -/
def earlier : List Act := inTurn 0 5 ++ [.begin [named "c", named "d", named "e"]]

/-- Then comes a run over two texts, one of them twice. -/
def racing : List Act := inTurn 1 5 ++ .begin [named "a", named "b", named "a"] :: earlier

/-- Both slots of one text ask for it, and what the later one puts is what the next run finds. -/
theorem asks_nothing_again_racing :
    let again := [named "b", named "a", named "b"]
    let left := fun text => (after tight growing 0 racing).vectors.get? (vectorKey growing text)
    asked tight growing 0 (inTurn 2 5 ++ .begin again :: racing) = asked tight growing 0 racing ∧
      (after tight growing 0 (inTurn 2 5 ++ .begin again :: racing)).ending? 2 =
        some (.ok (again.map (embeddedBy left), 3)) ∧
      (left (named "a").canonicalText).map (·.length) = some 5 ∧
      (left (named "b").canonicalText).map (·.length) = some 4 := by
  intro again left
  have hearlier : (after tight growing 0 earlier).runs.length = 1 := by decide +kernel
  have hracing : (after tight growing 0 racing).runs.length = 2 := by decide +kernel
  have hnumber : ((after tight growing 0 racing).ending? 1).bind (·.toOption.map (·.2)) = some 3 := by
    decide +kernel
  obtain ⟨result, hresult, hsome⟩ := Option.bind_eq_some_iff.mp hnumber
  cases result with
  | error fault => cases hsome
  | ok came =>
    obtain ⟨found, number⟩ := came
    obtain rfl : number = 3 := Option.some.inj hsome
    have hturns : ∀ run, ∀ a ∈ inTurn run 5, ∃ place stop, a = Act.turn run place stop := by
      intro run a ha
      obtain ⟨place, rfl⟩ := turn_of_mem_inTurn ha
      exact ⟨place, false, rfl⟩
    have hp : tight.embedder = some growing := rfl
    have hfirst : ∀ a ∈ inTurn 1 5, ∃ place stop,
        a = .turn (after tight growing 0 earlier).runs.length place stop := by
      rw [hearlier]
      exact hturns 1
    have hembedded : (after tight growing 0 (inTurn 1 5 ++
        .begin [named "a", named "b", named "a"] :: earlier)).ending?
          (after tight growing 0 earlier).runs.length = some (.ok (found, 3)) := by
      rw [hearlier]
      exact hresult
    have htexts : ∀ y ∈ again, y.canonicalText ∈
        [named "a", named "b", named "a"].map (·.canonicalText) := by
      decide +kernel
    have hsecond : ∀ a ∈ inTurn 2 5, ∃ place stop,
        a = .turn (after tight growing 0 racing).runs.length place stop := by
      rw [hracing]
      exact hturns 2
    obtain ⟨hasked, -, hserved, -⟩ :=
      asks_nothing_again hp 0 (by decide +kernel) hfirst hembedded htexts hsecond
    rw [← racing] at hasked hserved
    rw [hracing] at hserved
    obtain ⟨hall, hended⟩ := hserved fun place hmem => by
      obtain ⟨other, hother⟩ := turn_of_mem_inTurn hmem
      cases hother
    obtain ⟨last, hlast⟩ := Option.isSome_iff_exists.mp (hended (by decide +kernel))
    refine ⟨hasked, ?_, by decide +kernel, by decide +kernel⟩
    rw [hlast, hall last hlast]
    rfl

end Workbench

end CodeSearch.Embedding

import CodeSearch.Proofs.Embedding.Coherence
import CodeSearch.Proofs.Embedding.Course
import CodeSearch.Proofs.Lru.LastUsed

/-!
Which vectors are kept.

A text is served when its vector is found among those that are kept, or when the embedder gives one. Both
make it the text that was used last; everything else that happens to a chunk leaves the vectors alone. So
what has happened since the vectors were cleared tells exactly what is kept: of the texts that were served,
each counted once, the last ones for which there is room, in the order of their last use, each with the
vector that it was given last (`Told`). A chunk passes this on whatever becomes of it (`Told.gone`), so it
holds after every history of runs and clearings.
-/
set_option autoImplicit false

namespace CodeSearch.Embedding

variable {σ : Type}

/-! ## Texts that are served -/

/-- The text that is served where a sign is of that kind: a vector is kept for it, or it is given one. -/
def Sign.served? : Sign → Option String
  | .looked text (some _) => some text
  | .said text (.vector _) => some text
  | _ => none

/-- The vector that a text is given. -/
def Sign.given? (text : String) : Sign → Option (List Float)
  | .said other (.vector v) => if other = text then some v else none
  | _ => none

/-- The texts that were served. -/
def served (signs : List Sign) : List String :=
  signs.filterMap Sign.served?

/-- The vector that a text was given last. -/
def lastGiven? (signs : List Sign) (text : String) : Option (List Float) :=
  signs.reverse.findSome? (Sign.given? text)

theorem served_append (signs more : List Sign) : served (signs ++ more) = served signs ++ served more :=
  List.filterMap_append

/-- Only a text that is served is given a vector. -/
theorem given?_of_served? {sign : Sign} (h : sign.served? = none) (text : String) :
    sign.given? text = none := by
  cases sign with
  | polled stop => rfl
  | looked other kept => rfl
  | said other outcome =>
    cases outcome with
    | vector v => cases h
    | failure reason => rfl
    | crash fault => rfl

theorem lastGiven?_append {more : List Sign} (h : served more = []) (signs : List Sign)
    (text : String) : lastGiven? (signs ++ more) text = lastGiven? signs text := by
  have hnone : more.reverse.findSome? (Sign.given? text) = none :=
    List.findSome?_eq_none_iff.mpr fun sign hsign =>
      given?_of_served? (List.filterMap_eq_nil_iff.mp h sign (List.mem_reverse.mp hsign)) text
  rw [lastGiven?, List.reverse_append, List.findSome?_append, hnone, Option.none_or, lastGiven?]

/-! ## What is told of the vectors -/

/-- What has happened tells what is kept: the keys of the texts that were served last, in the order of
their last use, and under each key the vector that its text was given last. -/
structure Told (key : String → String) (signs : List Sign) (vectors : Vectors) : Prop where
  keys : vectors.Keeps ((served signs).map key)
  given : ∀ text v, (key text, v) ∈ vectors.entries → lastGiven? signs text = some v

namespace Told

variable {key : String → String} {signs : List Sign} {vectors : Vectors} {v : List Float}

theorem empty (key : String → String) (room : Nat) : Told key [] (Lru.empty room) where
  keys := .empty room
  given text v hentry := by cases hentry

/-- What serves no text changes nothing. -/
theorem quiet (h : Told key signs vectors) (more : List Sign) (hquiet : served more = []) :
    Told key (signs ++ more) vectors where
  keys := by
    rw [served_append, hquiet, List.append_nil]
    exact h.keys
  given text v hentry := by
    rw [lastGiven?_append hquiet]
    exact h.given text v hentry

/-- A text whose vector is kept is served with it. -/
theorem touch (h : Told key signs vectors) (text : String)
    (hget : vectors.get? (key text) = some v) :
    Told key (signs ++ [.looked text (some v)]) (vectors.touch (key text)) where
  keys := by
    rw [served_append, List.map_append]
    exact h.keys.touch hget
  given other w hentry := by
    have hlast : lastGiven? (signs ++ [.looked text (some v)]) other = lastGiven? signs other := by
      rw [lastGiven?, List.reverse_append]
      rfl
    rw [hlast]
    exact h.given other w (Lru.mem_of_touch hentry)

/-- A text that is given a vector is kept with it. -/
theorem put (h : Told key signs vectors) (hinjective : Function.Injective key) (text : String)
    (v : List Float) :
    Told key (signs ++ [.said text (.vector v)]) (vectors.put (key text) v) where
  keys := by
    rw [served_append, List.map_append]
    exact h.keys.put (key text) v
  given other w hentry := by
    have hlast : lastGiven? (signs ++ [.said text (.vector v)]) other =
        (if text = other then some v else none).or (lastGiven? signs other) := by
      rw [lastGiven?, List.reverse_append, List.findSome?_append]
      by_cases hsame : text = other <;> simp [Sign.given?, hsame, lastGiven?]
    have hplaced : (key other, w) ∈ Lru.placed vectors.entries (key text) v :=
      List.mem_of_mem_drop hentry
    rw [Lru.placed, List.mem_append, List.mem_singleton] at hplaced
    rcases hplaced with hold | hnew
    · -- an entry from before is under another key
      obtain ⟨hmem, hkey⟩ := List.mem_filter.mp hold
      have hother : text ≠ other := by
        rintro rfl
        simp at hkey
      rw [hlast, if_neg hother, Option.none_or]
      exact h.given other w hmem
    · obtain ⟨hkey, rfl⟩ := Prod.mk.inj hnew
      rw [hlast, if_pos (hinjective hkey).symm, Option.some_or]

end Told

/-! ## What a chunk changes -/

/-- What a slot has learnt, in order. -/
def signsOf (happened : List Happening) : List Sign :=
  happened.filterMap (·.sign?)

theorem signsOf_append (happened more : List Happening) :
    signsOf (happened ++ more) = signsOf happened ++ signsOf more :=
  List.filterMap_append

theorem signsOf_attempts_succ (embedder : Embedder σ) (backoff : Float) (text : String) (world : σ)
    (n : Nat) :
    signsOf (attempts embedder backoff text world (n + 1)) =
      signsOf (attempts embedder backoff text world n) ++
        [.said text (embedder.answer text world n)] := by
  have hpause : signsOf ((pauseBefore backoff n).map .noticed) = [] := by
    rw [signsOf, List.filterMap_map]
    exact List.filterMap_eq_nil_iff.mpr fun _ _ => rfl
  rw [attempts_succ, signsOf_append, signsOf_append, hpause]
  rfl

/-- Attempts that are refused serve no text. -/
theorem served_attempts {embedder : Embedder σ} {backoff : Float} {text : String} {world : σ} {n : Nat}
    (hrefused : ∀ i < n, ∃ reason, embedder.answer text world i = .failure reason) :
    served (signsOf (attempts embedder backoff text world n)) = [] := by
  induction n with
  | zero => rfl
  | succ n ih =>
    obtain ⟨reason, hreason⟩ := hrefused n (Nat.lt_succ_self n)
    rw [signsOf_attempts_succ, served_append, ih fun i hi => hrefused i (Nat.lt_succ_of_lt hi), hreason]
    rfl

section

variable {embedder : Embedder σ} {retries : Nat} {backoff : Float} {stopped : Bool} {c : Chunk}
  {happened : List Happening} {progress : Progress} {vectors vectors' : Vectors} {world world' : σ}

/-- What has happened tells what is kept after a chunk as well. -/
theorem Told.gone {signs : List Sign} (h : Told (vectorKey embedder) signs vectors)
    (hgone : Gone embedder retries backoff stopped vectors world c happened progress vectors' world') :
    Told (vectorKey embedder) (signs ++ signsOf happened) vectors' := by
  -- before the last of its attempts, nothing is served to a chunk for which no vector is kept
  have hbefore : ∀ n, (∀ i < n, ∃ reason, embedder.answer c.canonicalText world i = .failure reason) →
      Told (vectorKey embedder) (signs ++ .polled false :: .looked c.canonicalText none ::
        signsOf (attempts embedder backoff c.canonicalText world n)) vectors :=
    fun n hrefused => h.quiet _ (served_attempts (n := n) hrefused)
  have hlast : ∀ n, signsOf (.learnt (.polled false) :: .learnt (.looked c.canonicalText none) ::
      attempts embedder backoff c.canonicalText world (n + 1)) =
      (.polled false :: .looked c.canonicalText none ::
        signsOf (attempts embedder backoff c.canonicalText world n)) ++
        [.said c.canonicalText (embedder.answer c.canonicalText world n)] :=
    fun n => by
      rw [List.cons_append, List.cons_append, ← signsOf_attempts_succ]
      rfl
  cases hgone with
  | skipped hstop => exact h.quiet _ rfl
  | kept v hstop hget =>
    have htouched := (h.quiet [.polled false] rfl).touch c.canonicalText hget
    rwa [List.append_assoc] at htouched
  | given n v hstop hget henough hrefused hgiven =>
    rw [hlast, hgiven, ← List.append_assoc]
    exact (hbefore n hrefused).put (fun _ _ => vectorKey_inj.mp) c.canonicalText v
  | refused last hstop hget hrefused hlast' =>
    have hall := hbefore (retries + 1) fun i hi => hrefused i (Nat.le_of_lt_succ hi)
    have hwarned := hall.quiet (signsOf [.noticed (.warning
      s!"Embedding failed for {c.id}: {last.message}")]) rfl
    rwa [List.append_assoc, List.cons_append, List.cons_append, ← signsOf_append] at hwarned
  | crashed n fault hstop hget henough hrefused hbroken =>
    rw [hlast, hbroken, ← List.append_assoc]
    exact (hbefore n hrefused).quiet _ rfl

/-- A chunk that comes to no vector changes nothing of those that are kept. -/
theorem Gone.vectors_eq
    (h : Gone embedder retries backoff stopped vectors world c happened progress vectors' world')
    (hnone : (⟨c, progress⟩ : Slot).isEmbedded = false) : vectors' = vectors := by
  cases h with
  | kept v hstop hget => cases hnone
  | given n v hstop hget henough hrefused hgiven => cases hnone
  | _ => rfl

/-- A chunk costs no vector its place but the one that was not used for longest. -/
theorem Gone.head_of_evicted
    (h : Gone embedder retries backoff stopped vectors world c happened progress vectors' world')
    {entry : String × List Float} (hentry : entry ∈ vectors.entries) (hgone : entry ∉ vectors'.entries) :
    vectors.entries.head? = some entry := by
  cases h with
  | kept v hstop hget => exact absurd (Lru.mem_touch_iff.mpr hentry) hgone
  | given n v hstop hget henough hrefused hgiven => exact Lru.head_of_evicted hget v hentry hgone
  | _ => exact absurd hentry hgone

theorem Gone.room_eq
    (h : Gone embedder retries backoff stopped vectors world c happened progress vectors' world') :
    vectors'.room = vectors.room := by
  cases h with
  | kept v hstop hget => exact Lru.room_touch vectors _
  | given n v hstop hget henough hrefused hgiven => exact Lru.room_put vectors _ v
  | _ => rfl

end

/-! ## Histories -/

/-- All that happens to some chunks, one after the other. -/
def courseAll (embedder : Embedder σ) (retries : Nat) (backoff : Float) (stop : StopSignal σ) :
    Vectors → σ → List Chunk → List Happening
  | _, _, [] => []
  | vectors, world, c :: rest =>
    let turn := (Slot.ofChunk c).settle embedder retries backoff stop vectors world []
    (Slot.ofChunk c).course embedder retries backoff stop vectors world ++
      courseAll embedder retries backoff stop turn.vectors turn.world rest

namespace Pipeline

/-- The key of a text among the vectors that are kept. -/
def key (p : Pipeline σ) (text : String) : String :=
  (match p.embedder with
    | some embedder => embedder.key
    | none => "") ++ "||" ++ text

/-- All that happens in a run. -/
def course (p : Pipeline σ) (stop : StopSignal σ) (vectors : Vectors) (world : σ) (chunks : List Chunk) :
    List Happening :=
  match p.embedder with
  | none => []
  | some embedder => courseAll embedder p.retries p.backoff stop vectors world chunks

/-- What can be done with the vectors that are kept: chunks are embedded, in whatever world there is by
then, or all vectors are forgotten. -/
inductive Use (σ : Type) where
  | run (stop : StopSignal σ) (world : σ) (chunks : List Chunk)
  | clear

/-- The vectors that are kept, and what was learnt since they were cleared. -/
structure Ledger where
  vectors : Vectors
  signs : List Sign

/-- What a history leaves, the latest use first. -/
def after (p : Pipeline σ) : List (Use σ) → Ledger
  | [] => ⟨.empty p.room, []⟩
  | .run stop world chunks :: past =>
    let before := p.after past
    ⟨(p.run stop before.vectors world chunks).vectors,
      before.signs ++ signsOf (p.course stop before.vectors world chunks)⟩
  | .clear :: past => ⟨(p.after past).vectors.clear, []⟩

theorem key_eq {p : Pipeline σ} {embedder : Embedder σ} (hp : p.embedder = some embedder) :
    p.key = vectorKey embedder := by
  funext text
  rw [key, hp, vectorKey]

/-- What has happened tells what is kept after a run as well. -/
theorem told_run {p : Pipeline σ} {signs : List Sign} {vectors : Vectors} (stop : StopSignal σ)
    (world : σ) (chunks : List Chunk) (h : Told p.key signs vectors) :
    Told p.key (signs ++ signsOf (p.course stop vectors world chunks))
        (p.run stop vectors world chunks).vectors ∧
      (p.run stop vectors world chunks).vectors.room = vectors.room := by
  rw [course, run]
  cases hp : p.embedder with
  | none => exact ⟨h.quiet _ rfl, rfl⟩
  | some embedder =>
    rw [key_eq hp] at h ⊢
    dsimp only
    -- each chunk begins with what the one before it has left, and with all that has happened by then
    induction chunks generalizing signs vectors world with
    | nil => exact ⟨h.quiet _ rfl, rfl⟩
    | cons c rest ih =>
      obtain ⟨progress, vectors', world', hgone, hsettle⟩ :=
        gone_ofChunk embedder p.retries p.backoff stop vectors world c
      obtain ⟨htold, hroom⟩ := ih world' (h.gone hgone)
      rw [courseAll, signsOf_append, ← List.append_assoc, List.map_cons, settleAll, hsettle]
      exact ⟨htold, hroom.trans hgone.room_eq⟩

/-- In every history, what was learnt since the vectors were cleared tells what is kept. -/
theorem told_after (p : Pipeline σ) (uses : List (Use σ)) :
    Told p.key (p.after uses).signs (p.after uses).vectors ∧ (p.after uses).vectors.room = p.room := by
  induction uses with
  | nil => exact ⟨.empty p.key p.room, rfl⟩
  | cons use past ih =>
    cases use with
    | run stop world chunks =>
      obtain ⟨htold, hroom⟩ := told_run stop world chunks ih.1
      exact ⟨htold, hroom.trans ih.2⟩
    | clear => exact ⟨.empty p.key _, ih.2⟩

/-- After every history of runs and clearings, the vectors that are kept are those of the texts that were
served last since the vectors were cleared, each text once and in the order of its last use, as many as
there is room for, and each is the vector that its text was given last. A chunk that comes to no vector
changes nothing of that, and if another costs a vector its place, that is the one at the head: the one
that was not used for longest. -/
theorem kept_after (p : Pipeline σ) (uses : List (Use σ)) :
    let kept := (p.after uses).vectors
    let signs := (p.after uses).signs
    kept.entries.map (·.1) = ((served signs).dedup.map p.key).rtake p.room ∧
      (∀ text v, (p.key text, v) ∈ kept.entries → lastGiven? signs text = some v) ∧
      kept.entries.length ≤ p.room ∧
      ∀ stop world c, let alone := p.run stop kept world [c]
        (alone.embedded = 0 → alone.vectors = kept) ∧
          ∀ entry ∈ kept.entries, entry ∉ alone.vectors.entries → kept.entries.head? = some entry := by
  intro kept signs
  obtain ⟨htold, hroom⟩ := told_after p uses
  have hinjective : Function.Injective p.key := fun _ _ => (String.append_right_inj _).mp
  refine ⟨?_, htold.given, ?_, fun stop world c => ?_⟩
  · have hkeys : kept.entries.map (·.1) = ((served signs).map p.key).dedup.rtake kept.room := htold.keys
    rw [hkeys, hroom, List.dedup_map_of_injective hinjective]
  · rw [← hroom]
    exact kept.fits
  · cases hp : p.embedder with
    | none =>
      have halone : (p.run stop kept world [c]).vectors = kept := by rw [run, hp]
      dsimp only
      rw [halone]
      exact ⟨fun _ => rfl, fun entry hentry hgone => absurd hentry hgone⟩
    | some embedder =>
      obtain ⟨progress, vectors', world', hgone, hsettle⟩ :=
        gone_ofChunk embedder p.retries p.backoff stop kept world c
      rw [run_singleton hp, hsettle]
      refine ⟨fun hnone => hgone.vectors_eq ?_, fun entry => hgone.head_of_evicted⟩
      dsimp only at hnone
      by_contra hembedded
      rw [if_pos (by simpa using hembedded)] at hnone
      cases hnone

end Pipeline

end CodeSearch.Embedding

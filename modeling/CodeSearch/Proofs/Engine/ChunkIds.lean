import CodeSearch.Proofs.Chunk.Identity
import CodeSearch.Proofs.Embedding.Slots
import CodeSearch.Proofs.Engine.Accounts

/-!
The ids of the chunks of a published generation.

A build takes its files from one walk and reads each of them once, so its chunks are those of files
with the paths of that walk (`Build.Carries`), and embedding a chunk changes nothing of what
identifies it. So when the paths are distinct, the ids are distinct exactly if no bases clash, and
then, and only then, looking up the id of a chunk gives that chunk.
-/
set_option autoImplicit false

namespace CodeSearch.Engine

open CodeSearch.Embedding (Slot)
open CodeSearch.Index (Generation Event Traffic)

variable {σ : Type}

/-! ## Chunks of files -/

/-- Chunks of some of the files with given paths. -/
def OfFiles (paths : List String) (chunks : List Chunk) : Prop :=
  ∃ files : List (String × List String),
    (files.map (·.1)).Sublist paths ∧ chunks.map Chunk.tag = Chunk.tagsIn files

theorem OfFiles.of_map_tag {paths : List String} {chunks chunks' : List Chunk}
    (h : OfFiles paths chunks) (htags : chunks'.map Chunk.tag = chunks.map Chunk.tag) :
    OfFiles paths chunks' := by
  obtain ⟨files, hsub, hfiles⟩ := h
  exact ⟨files, hsub, htags.trans hfiles⟩

/-- What a file with a path may come to. -/
def Reading.Fits (root : Path) (path : String) : Reading → Prop
  | .pending p => Files.relativeText root p = path
  | .chunks found => ∃ bases, found.map Chunk.tag = Chunk.tagsOf path bases
  | .skipped _ => True

/-- What files come to are chunks of these files. -/
theorem ofFiles_extract {root : Path} {paths : List String} {readings : List Reading}
    (hfits : List.Forall₂ (Reading.Fits root) paths readings) :
    OfFiles paths (Extract.of readings).chunks := by
  -- a file adds its chunks in front, or is left out of the files that have any
  induction hfits with
  | nil => exact ⟨[], List.Sublist.refl _, rfl⟩
  | @cons path reading paths readings hfit _ ih =>
    obtain ⟨files, hsub, htags⟩ := ih
    cases reading with
    | pending p => exact ⟨files, hsub.cons path, htags⟩
    | skipped s => exact ⟨files, hsub.cons path, htags⟩
    | chunks found =>
      obtain ⟨bases, hfound⟩ := hfit
      refine ⟨(path, bases) :: files, hsub.cons_cons path, ?_⟩
      show (found ++ (Extract.of readings).chunks).map Chunk.tag = _
      rw [List.map_append, hfound, htags]
      rfl

theorem path_eq_of_outcome {parsers : Tree.Parsers} {path : String} {text : List Char}
    {parsed : Tree.Parsed} (h : parsers.outcome path text = .ok (.ok parsed)) :
    parsed.path = path := by
  unfold Tree.Parsers.outcome at h
  split at h
  · simp at h
  · split at h
    · simp at h
    · simp at h
    · dsimp only at h
      split at h
      · simp at h
      · simp only [Except.ok.injEq] at h
        rw [← h]

/-- The chunks that a file comes to are those of its tree. -/
theorem exists_of_fileOutcome {d : Files.Disk} {parsers : Tree.Parsers} {radius : Int}
    {root p : Path} {found : List Chunk}
    (h : Files.fileOutcome d parsers radius root p = .ok (.ok found)) :
    ∃ parsed : Tree.Parsed,
      parsed.path = Files.relativeText root p ∧ found = Chunk.ofParsed radius parsed := by
  unfold Files.fileOutcome at h
  dsimp only at h
  split at h
  · simp at h
  · rename_i text _
    cases hparsed : parsers.outcome (Files.relativeText root p) text with
    | error fault => simp [hparsed, Except.map] at h
    | ok result =>
      cases result with
      | error s => simp [hparsed, Except.map] at h
      | ok parsed =>
        simp only [hparsed, Except.map, Except.ok.injEq] at h
        exact ⟨parsed, path_eq_of_outcome hparsed, h.symm⟩

theorem fits_readFile {e : Engine σ} {root p : Path} {path : String} {r : Reading}
    (hpath : Files.relativeText root p = path) (hread : (e.readFile root p).1 = .ok r) :
    Reading.Fits root path r := by
  subst hpath
  unfold readFile at hread
  dsimp only at hread
  split at hread
  · simp at hread
  · obtain rfl := Except.ok.inj hread
    exact trivial
  · rename_i found houtcome
    obtain rfl := Except.ok.inj hread
    obtain ⟨parsed, hpath, rfl⟩ := exists_of_fileOutcome houtcome
    rw [← hpath]
    exact Chunk.exists_map_tag_ofParsed _ parsed

theorem tag_result (s : Slot) : s.result.tag = s.chunk.tag := by
  unfold Slot.result
  split <;> rfl

/-- A slot replaced by one of the same chunk. -/
theorem map_chunk_set {slots : List Slot} {place : Nat} {slot next : Slot}
    (hplace : slots[place]? = some slot) (hsame : next.chunk = slot.chunk) :
    (slots.set place next).map (·.chunk) = slots.map (·.chunk) := by
  obtain ⟨hlt, hslot⟩ := List.getElem?_eq_some_iff.mp hplace
  have hlt' : place < (slots.map (·.chunk)).length := by rwa [List.length_map]
  have hthere : slot.chunk = (slots.map (·.chunk))[place] := by
    rw [List.getElem_map, hslot]
  rw [List.map_set, hsame, hthere, List.set_getElem_self]

/-- With distinct ids the id of a chunk leads to that chunk. -/
theorem chunk?_id {g : Generation} (hids : (g.chunks.map (·.id)).Nodup) {c : Chunk}
    (hc : c ∈ g.chunks) : g.chunk? c.id = some c := by
  unfold Generation.chunk?
  -- the search from behind finds some chunk with the id, and with distinct ids there is one
  cases hfound : g.chunks.reverse.find? fun d => d.id == c.id with
  | none =>
    have hnone := List.find?_eq_none.mp hfound c (List.mem_reverse.mpr hc)
    exact absurd (beq_self_eq_true c.id) hnone
  | some d =>
    have hd : d ∈ g.chunks := List.mem_reverse.mp (List.mem_of_find?_eq_some hfound)
    have hid : d.id = c.id :=
      eq_of_beq (List.find?_some (p := fun d : Chunk => d.id == c.id) hfound)
    rw [List.inj_on_of_nodup_map hids hd hc hid]

/-! ## Chunks of builds -/

/-- The paths of the files that a build is to read. -/
def Build.paths (b : Build σ) : List String :=
  match b.stage with
  | .reading readings => readings.filterMap fun r =>
    match r with
    | .pending p => some (Files.relativeText b.root p)
    | _ => none
  | _ => []

/-- What a build that walked to some paths has found: all of it are chunks of these files. -/
def Build.Carries (paths : List String) (b : Build σ) : Prop :=
  match b.stage with
  | .reading readings => List.Forall₂ (Reading.Fits b.root) paths readings
  | .embedding extract slots =>
    OfFiles paths extract.chunks ∧ slots.map (·.chunk) = extract.chunks
  | .gathered _ chunks _ => OfFiles paths chunks
  | .storing g _ | .publishing g _ => OfFiles paths g.chunks
  | _ => True

/-- Setting one place of a list that is related to another keeps the relation, if the place is. -/
theorem forall₂_set {α β : Type} {R : α → β → Prop} {xs : List α} {ys : List β} {i : Nat} {y y' : β}
    (h : List.Forall₂ R xs ys) (hy : ys[i]? = some y) (hnew : ∀ x, R x y → R x y') :
    List.Forall₂ R xs (ys.set i y') := by
  induction h generalizing i with
  | nil => simp at hy
  | cons hhead htail ih =>
    cases i with
    | zero =>
      obtain rfl := Option.some.inj hy
      exact List.Forall₂.cons (hnew _ hhead) htail
    | succ i => exact List.Forall₂.cons hhead (ih hy)

/-- What a build has made are chunks of its files, whatever step it takes. -/
theorem carries_stepAt {paths : List String} {e : Engine σ} {b : Build σ} (place : Nat)
    (hwalked : b.stage ≠ .walking) (h : b.Carries paths) :
    (b.stepAt e place).1.Carries paths := by
  cases stepAt_move e b place with
  | idle hquiet hnext => rw [hnext]; exact h
  | walked files hstage hwalk hfiles hnext => exact absurd hstage hwalked
  | stopped obstacle hstage hwalk hnext => rw [hnext]; exact trivial
  | read readings p r hstage hplace hread hnext =>
    rw [Build.Carries, hstage] at h
    rw [hnext]
    exact forall₂_set h hplace fun path hpath => fits_readFile hpath hread
  | unread readings p fault hstage hplace hread hnext => rw [hnext]; exact trivial
  | overtaken extract embedded hstage hstale hnext => rw [hnext]; exact trivial
  | readAll readings hstage hdone hnext =>
    rw [Build.Carries, hstage] at h
    rw [hnext]
    refine ⟨ofFiles_extract h, ?_⟩
    rw [List.map_map]
    exact List.map_id _
  | embed extract slots slot embedder hstage hplace hembedder hnext =>
    rw [Build.Carries, hstage] at h
    rw [hnext]
    refine ⟨h.1, ?_⟩
    rw [map_chunk_set hplace (Slot.chunk_step embedder _ _ _ _ _ slot), h.2]
  | crashed extract slots fault hstage hnext => rw [hnext]; exact trivial
  | gathered extract slots chunks embedded hstage hchunks hnext =>
    rw [Build.Carries, hstage] at h
    rw [hnext]
    rcases hchunks with ⟨rfl, -⟩ | ⟨rfl, -⟩
    · exact h.1
    · refine h.1.of_map_tag ?_
      rw [← h.2, List.map_map, List.map_map]
      exact List.map_congr_left fun s _ => tag_result s
  | made extract chunks embedded after hstage hafter hnext =>
    rw [Build.Carries, hstage] at h
    rw [hnext]
    rcases hafter with ⟨rfl, -⟩ | rfl
    · exact h
    · exact h
  | store g embedded hstage hnext =>
    rw [Build.Carries, hstage] at h
    rw [hnext]
    rcases store_stage e b g embedded with ⟨vector, hafter⟩ | ⟨fault, hafter⟩
    · rw [Build.Carries, hafter]; exact h
    · rw [Build.Carries, hafter]; exact trivial
  | publish g embedded hstage hnext => rw [hnext]; exact trivial
  | abort result hstage hnext => rw [hnext]; exact trivial
  | retire g old summary hstage hnext => rw [hnext]; exact trivial
  | retired summary hstage hnext => rw [hnext]; exact trivial

/-- What a build has at the end of its walk are the files that it has come to. -/
theorem carries_walk (e : Engine σ) (b : Build σ) : (b.walk e).1.Carries (b.walk e).1.paths := by
  cases hwalk : (Files.walk e.disk e.walkLimits b.root).stopped? with
  | some obstacle => simp only [Build.walk, Build.Carries, hwalk]
  | none =>
    simp only [Build.walk, Build.Carries, Build.paths, hwalk]
    induction (Files.walk e.disk e.walkLimits b.root).files with
    | nil => exact List.Forall₂.nil
    | cons p ps ih => exact List.Forall₂.cons rfl ih

namespace Session

/-- The build that ends its walk with an action, if one does. -/
def walkedBy? (s : Session σ) : Action → Option (Build σ)
  | .build call place =>
    match s.builds[call]? with
    | some b =>
      match b.stage with
      | .walking => some (b.stepAt s.engine place).1
      | _ => none
    | none => none
  | _ => none

/-- The builds of a session as they were when they had walked. -/
def walked (e : Engine σ) : List Action → List (Build σ)
  | [] => []
  | a :: past => ((after e past).walkedBy? a).toList ++ walked e past

theorem walkedBy?_eq_some {s : Session σ} {a : Action} {start : Build σ}
    (h : s.walkedBy? a = some start) : ∃ call place b, a = .build call place ∧
      s.builds[call]? = some b ∧ b.stage = .walking ∧ start = (b.stepAt s.engine place).1 := by
  unfold walkedBy? at h
  split at h
  · rename_i call place
    split at h
    · rename_i b hb
      split at h
      · rename_i hstage
        exact ⟨call, place, b, rfl, hb, hstage, (Option.some.inj h).symm⟩
      · cases h
    · cases h
  · cases h

theorem walkedBy?_of_walking {s : Session σ} {call : Nat} {b : Build σ}
    (hb : s.builds[call]? = some b) (hstage : b.stage = .walking) (place : Nat) :
    s.walkedBy? (.build call place) = some (b.stepAt s.engine place).1 := by
  simp only [walkedBy?, hb, hstage]

/-- Every build of a session that has walked has the number that it walked with, and carries chunks of
the files that it came to then. -/
theorem exists_walked {e : Engine σ} {past : List Action} {b : Build σ}
    (hb : b ∈ (after e past).builds) (hwalked : b.stage ≠ .walking) :
    ∃ start ∈ walked e past, b.number = start.number ∧ b.Carries start.paths := by
  induction past generalizing b with
  | nil => exact absurd hb List.not_mem_nil
  | cons a past ih =>
    obtain ⟨call, hcall⟩ := List.mem_iff_getElem?.mp hb
    rcases build_cases hcall with ⟨-, path, engine, -, hbegin⟩ | ⟨place, before, ha, hbefore, rfl⟩ |
      ⟨-, hsame⟩
    · obtain ⟨-, hbegun, -⟩ := begin_ok hbegin
      exact absurd (congrArg Build.stage hbegun) hwalked
    · by_cases hstage : before.stage = .walking
      · refine ⟨(before.stepAt (after e past).engine place).1, ?_, rfl, ?_⟩
        · rw [walked, ha, walkedBy?_of_walking hbefore hstage]
          exact List.mem_append_left _ List.mem_cons_self
        · rw [stepAt_of_walking hstage]
          exact carries_walk _ before
      · obtain ⟨start, hstart, hnumber, hcarries⟩ := ih (List.mem_of_getElem? hbefore) hstage
        exact ⟨start, List.mem_append_right _ hstart, (stepAt_number _ before place).trans hnumber,
          carries_stepAt place hstage hcarries⟩
    · obtain ⟨start, hstart, hfound⟩ := ih (List.mem_of_getElem? hsame) hwalked
      exact ⟨start, List.mem_append_right _ hstart, hfound⟩

/-- Every walk is that of a build with its number, which does not walk any more. -/
theorem exists_build_of_walked {e : Engine σ} {past : List Action} {start : Build σ}
    (hstart : start ∈ walked e past) : ∃ (call : Nat) (b : Build σ),
      (after e past).builds[call]? = some b ∧ b.number = start.number ∧ b.stage ≠ .walking := by
  induction past with
  | nil => exact absurd hstart List.not_mem_nil
  | cons a past ih =>
    rw [walked, List.mem_append, Option.mem_toList] at hstart
    rcases hstart with hnow | hbefore
    · obtain ⟨call, place, b, rfl, hb, -, rfl⟩ := walkedBy?_eq_some hnow
      rw [after_build hb]
      exact ⟨call, _, List.getElem?_set_self (List.getElem?_eq_some_iff.mp hb).1, rfl,
        stage_stepAt_ne_walking _ b place⟩
    · obtain ⟨call, b, hb, hnumber, hwalked⟩ := ih hbefore
      rcases build_next hb a with ⟨place, -, hnext⟩ | ⟨-, hnext⟩
      · exact ⟨call, _, hnext, (stepAt_number _ b place).trans hnumber,
          stage_stepAt_ne_walking _ b place⟩
      · exact ⟨call, b, hnext, hnumber, hwalked⟩

/-- No two builds have one number, so no two walks have. -/
theorem eq_of_walked {e : Engine σ} (hfresh : e.holder = {}) {past : List Action}
    {start start' : Build σ} (hstart : start ∈ walked e past) (hstart' : start' ∈ walked e past)
    (hnumber : start.number = start'.number) : start = start' := by
  induction past with
  | nil => exact absurd hstart List.not_mem_nil
  | cons a past ih =>
    -- a build that walks now has not walked before
    have hnew : ∀ {now old : Build σ}, (after e past).walkedBy? a = some now → old ∈ walked e past →
        now.number ≠ old.number := by
      intro now old hnow hold hsame
      obtain ⟨call, place, b, -, hb, hstage, rfl⟩ := walkedBy?_eq_some hnow
      obtain ⟨call', b', hb', hnumber', hwalked⟩ := exists_build_of_walked hold
      have hcall : call = call' := by
        have hfirst := (accounted hfresh past).number_eq call b hb
        have hother := (accounted hfresh past).number_eq call' b' hb'
        rw [stepAt_number] at hsame
        omega
      subst hcall
      rw [hb] at hb'
      obtain rfl := Option.some.inj hb'
      exact hwalked hstage
    rw [walked, List.mem_append, Option.mem_toList] at hstart hstart'
    rcases hstart with hnow | hbefore
    · rcases hstart' with hnow' | hbefore'
      · exact Option.some.inj (hnow.symm.trans hnow')
      · exact absurd hnumber (hnew hnow hbefore')
    · rcases hstart' with hnow' | hbefore'
      · exact absurd hnumber.symm (hnew hnow' hbefore)
      · exact ih hbefore hbefore'

/-- The only events that publish are steps of builds. -/
theorem exists_build_of_event {s : Session σ} {a : Action} {g : Generation}
    (hevent : s.event? a = some (.publish g)) :
    ∃ call place b embedded, a = .build call place ∧ s.builds[call]? = some b ∧
      b.stage = .publishing g embedded := by
  cases step_move s a with
  | idle hnone hnext => simp [hnone] at hevent
  | begins path b engine ha hbegin hbegun hnext => simp [hbegun] at hevent
  | builds call place b ha hb hbuild hnext =>
    rw [hbuild, Build.event?] at hevent
    split at hevent
    · rename_i g' embedded hstage
      obtain rfl := Event.publish.inj (Option.some.inj hevent)
      exact ⟨call, place, b, embedded, ha, hb, hstage⟩
    · simp at hevent
    · simp at hevent
  | asks q ha hasked hnext => simp [hasked] at hevent
  | looks asker q r hasker hr hlooked hnext =>
    obtain ⟨event, hsome, hreader⟩ := hlooked
    rw [hsome] at hevent
    obtain rfl := Option.some.inj hevent
    exact absurd hreader (by simp [Event.isReader])
  | answers asker i ha hasker hnone hnext => simp [hnone] at hevent
  | edits disk ha hnone hnext => simp [hnone] at hevent

/-- A generation that was published has chunks of the files of the walk with its number. -/
theorem exists_ofFiles_of_publish {e : Engine σ} (hfresh : e.holder = {}) {past : List Action}
    {g : Generation} (hg : Event.publish g ∈ trace e past) :
    ∃ start ∈ walked e past, start.number = g.number ∧ OfFiles start.paths g.chunks := by
  induction past with
  | nil => simp [trace] at hg
  | cons a past ih =>
    rw [trace, List.mem_append] at hg
    rcases hg with hnow | hbefore
    · rw [Option.mem_toList] at hnow
      obtain ⟨call, place, b, embedded, -, hcall, hstage⟩ := exists_build_of_event hnow
      have hb : b ∈ (after e past).builds := List.mem_of_getElem? hcall
      obtain ⟨start, hstart, hnumber, hcarries⟩ := exists_walked hb (by simp [hstage])
      have hmade : g.number = b.number :=
        (accounted hfresh past).made_number b hb g (by rw [hstage]; rfl)
      rw [Build.Carries, hstage] at hcarries
      exact ⟨start, List.mem_append_right _ hstart, hnumber.symm.trans hmade.symm, hcarries⟩
    · obtain ⟨start, hstart, hrest⟩ := ih hbefore
      exact ⟨start, List.mem_append_right _ hstart, hrest⟩

theorem publish_mem_of_current {e : Engine σ} (hfresh : e.holder = {}) {past : List Action}
    {g : Generation} (hg : (after e past).engine.holder.current = some g) :
    Event.publish g ∈ trace e past := by
  have hholder := holder_after hfresh past
  rw [hholder] at hg
  exact Traffic.publish_mem_of_mem_swapped
    (Traffic.mem_swapped_of_current (accounted hfresh past).proper hg)

/-! ## Distinct ids -/

/-- The ids of the chunks of a published generation are distinct, and each of them leads back to its
chunk, exactly if no bases clash. -/
theorem ids_distinct_iff {e : Engine σ} (hfresh : e.holder = {}) {past : List Action}
    {g : Generation} (hg : Event.publish g ∈ trace e past) {start : Build σ}
    (hstart : start ∈ walked e past) (hnumber : start.number = g.number)
    (hpaths : start.paths.Nodup) :
    ((g.chunks.map (·.id)).Nodup ↔ ¬ Chunk.Clash g.chunks) ∧
      ((∀ c ∈ g.chunks, g.chunk? c.id = some c) ↔ ¬ Chunk.Clash g.chunks) := by
  obtain ⟨start', hstart', hnumber', files, hsub, htags⟩ := exists_ofFiles_of_publish hfresh hg
  obtain rfl := eq_of_walked hfresh hstart' hstart (hnumber'.trans hnumber.symm)
  -- some files may have come to nothing, the paths of the others are still distinct
  have hdistinct : (files.map (·.1)).Nodup := hpaths.sublist hsub
  have hids := Chunk.nodup_ids_iff hdistinct htags
  refine ⟨hids, ?_, ?_⟩
  · intro hfound hclash
    obtain ⟨c, hc, d, hd, hne, hid⟩ := Chunk.exists_same_id_of_clash hdistinct htags hclash
    have hsame : some c = some d := by
      rw [← hfound c hc, ← hfound d hd, hid]
    exact hne (Option.some.inj hsame)
  · intro hclash c hc
    exact chunk?_id (hids.mpr hclash) hc

/-- Three imports on one line. -/
def threeImports : Engine Unit :=
  importing "import 'x';import 'x';import 'x#2';"
    [importNode 0 11, importNode 11 22, importNode 22 35] none

/-- What is indexed of the three imports: the second one is numbered, and the third one is named
like it. -/
theorem exists_indexed_threeImports :
    ∃ g start c₁ c₂ c₃, Event.publish g ∈ trace threeImports (indexing 0 5) ∧
      start ∈ walked threeImports (indexing 0 5) ∧ start.number = g.number ∧ start.paths.Nodup ∧
        g.chunks = [c₁, c₂, c₃] ∧ c₁.tag = ⟨"a.js", "a.js:1:x", "a.js:1:x"⟩ ∧
          c₂.tag = ⟨"a.js", "a.js:1:x", "a.js:1:x#2"⟩ ∧
            c₃.tag = ⟨"a.js", "a.js:1:x#2", "a.js:1:x#2"⟩ := by
  -- the build is carried out, and all that matters of its chunks compared
  have hcurrent : (after threeImports (indexing 0 5)).engine.holder.current.map
      (fun g => (g.number, g.chunks.map Chunk.tag)) =
        some (1, [⟨"a.js", "a.js:1:x", "a.js:1:x"⟩, ⟨"a.js", "a.js:1:x", "a.js:1:x#2"⟩,
          ⟨"a.js", "a.js:1:x#2", "a.js:1:x#2"⟩]) := by
    decide +kernel
  have hwalked : (walked threeImports (indexing 0 5)).map (fun b => (b.number, b.paths)) =
      [(1, ["a.js"])] := by
    decide +kernel
  obtain ⟨g, hg, hfound⟩ := Option.map_eq_some_iff.mp hcurrent
  obtain ⟨hnumber, htags⟩ := Prod.mk.inj hfound
  obtain ⟨start, hstart, hpair⟩ := List.mem_map.mp (hwalked ▸ List.mem_singleton_self _)
  obtain ⟨hstartnumber, hpaths⟩ := Prod.mk.inj hpair
  obtain ⟨c₁, rest₁, hchunks, h₁, htags⟩ := List.map_eq_cons_iff.mp htags
  obtain ⟨c₂, rest₂, rfl, h₂, htags⟩ := List.map_eq_cons_iff.mp htags
  obtain ⟨c₃, rest₃, rfl, h₃, htags⟩ := List.map_eq_cons_iff.mp htags
  obtain rfl := List.map_eq_nil_iff.mp htags
  have hdistinct : start.paths.Nodup := by
    rw [hpaths]
    decide
  exact ⟨g, start, c₁, c₂, c₃, publish_mem_of_current rfl hg, hstart,
    hstartnumber.trans hnumber.symm, hdistinct, hchunks, h₁, h₂, h₃⟩

/-- Two of the three imports have one id, and it does not lead to both. -/
theorem ids_not_distinct_threeImports :
    ∃ g start, Event.publish g ∈ trace threeImports (indexing 0 5) ∧
      start ∈ walked threeImports (indexing 0 5) ∧
      start.number = g.number ∧ start.paths.Nodup ∧ ¬ (g.chunks.map (·.id)).Nodup ∧
        ∃ c ∈ g.chunks, g.chunk? c.id ≠ some c := by
  obtain ⟨g, start, c₁, c₂, c₃, hg, hstart, hnumber, hpaths, hchunks, -, h₂, h₃⟩ :=
    exists_indexed_threeImports
  obtain ⟨-, hbase₂, hid₂⟩ := Chunk.Tag.mk.inj h₂
  obtain ⟨-, hbase₃, hid₃⟩ := Chunk.Tag.mk.inj h₃
  have hsame : c₃.id = c₂.id := hid₃.trans hid₂.symm
  have hne : c₃ ≠ c₂ := by
    rintro rfl
    rw [hbase₂] at hbase₃
    exact absurd hbase₃ (by decide)
  refine ⟨g, start, hg, hstart, hnumber, hpaths, ?_, c₂, by simp [hchunks], ?_⟩
  · simp [hchunks, hsame]
  · -- the last one with an id is found
    rw [Index.Generation.chunk?, hchunks]
    simp [hsame, hne]

/-- The clash of the three imports is that of a name which looks like a numbered one. -/
theorem ids_distinct_iff_threeImports :
    ∃ g start, Event.publish g ∈ trace threeImports (indexing 0 5) ∧
      start ∈ walked threeImports (indexing 0 5) ∧
      start.number = g.number ∧ start.paths.Nodup ∧ Chunk.Clash g.chunks ∧
        ¬ (g.chunks.map (·.id)).Nodup ∧ ¬ ∀ c ∈ g.chunks, g.chunk? c.id = some c := by
  obtain ⟨g, start, c₁, c₂, c₃, hg, hstart, hnumber, hpaths, hchunks, h₁, h₂, h₃⟩ :=
    exists_indexed_threeImports
  obtain ⟨hpath₁, hbase₁, -⟩ := Chunk.Tag.mk.inj h₁
  obtain ⟨hpath₂, hbase₂, -⟩ := Chunk.Tag.mk.inj h₂
  obtain ⟨-, hbase₃, -⟩ := Chunk.Tag.mk.inj h₃
  have htwice : 2 ≤ Chunk.occurrences g.chunks c₁ := by
    rw [Chunk.occurrences, hchunks, List.countP_cons_of_pos (by simp),
      List.countP_cons_of_pos (by simp [hpath₁, hpath₂, hbase₁, hbase₂])]
    omega
  have hclash : Chunk.Clash g.chunks := by
    refine Or.inr ⟨c₁, by simp [hchunks], c₃, by simp [hchunks], 2, Nat.le_refl 2, htwice, ?_⟩
    rw [hbase₁, hbase₃]
    decide
  obtain ⟨hids, hfound⟩ := ids_distinct_iff rfl hg hstart hnumber hpaths
  exact ⟨g, start, hg, hstart, hnumber, hpaths, hclash, fun h => hids.mp h hclash,
    fun h => hfound.mp h hclash⟩

end Session

end CodeSearch.Engine

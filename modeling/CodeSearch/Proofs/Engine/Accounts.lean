import CodeSearch.Proofs.Engine.Session

/-!
Sessions as traffic at the holder.

What a session does to the holder is a run of `Traffic` (`traffic_after`): a build is under way
from its number to its end, and a question is a reader. So what holds of traffic at a holder holds
of sessions too, and here it is only added which build each number belongs to (`Accounted`).
-/
set_option autoImplicit false

namespace CodeSearch.Engine

open CodeSearch.Index (Generation Holder Event Traffic)

variable {σ : Type}

namespace Session

/-! ## A session at its holder -/

theorem stepAt_holder (e : Engine σ) (b : Build σ) (place : Nat) (readers : List Holder.Reader) :
    (⟨(b.stepAt e place).2.holder, readers⟩ : Traffic) =
      b.event?.elim ⟨e.holder, readers⟩ (Traffic.step ⟨e.holder, readers⟩) := by
  cases stepAt_turn e b place with
  | working hopen hevent hnext hholder hmade hsummary => rw [hevent, hholder]; rfl
  | publishing g embedded hstage hnext => rw [hnext, Build.event?, hstage]; rfl
  | aborting result hstage hnext => rw [hnext, Build.event?, hstage]; rfl
  | closed hclosed hevent hnext hholder hsummary => rw [hevent, hholder]; rfl

/-- A question replaced by what has become of it is a reader that has changed. -/
theorem map_reader_set {askers : List Asker} {i : Nat} {old new : Asker}
    {f : Holder.Reader → Holder.Reader} (hold : askers[i]? = some old)
    (hnew : new.reader = f old.reader) :
    (askers.set i new).map Asker.reader = (askers.map Asker.reader).modify i f := by
  have hlt : i < askers.length := (List.getElem?_eq_some_iff.mp hold).1
  refine List.ext_getElem? fun j => ?_
  rw [List.getElem?_map, List.getElem?_set, List.getElem?_modify, List.getElem?_map]
  by_cases hij : i = j
  · subst hij
    rw [if_pos rfl, if_pos hlt, hold]
    simp [hnew]
  · simp [hij]

theorem map_reader_set_same {askers : List Asker} {i : Nat} {old new : Asker}
    (hold : askers[i]? = some old) (hnew : new.reader = old.reader) :
    (askers.set i new).map Asker.reader = askers.map Asker.reader := by
  rw [map_reader_set (f := id) hold hnew, List.modify_id]

/-- An action changes the holder and its readers the way its event does. -/
theorem traffic_step (s : Session σ) (a : Action) :
    (s.step a).traffic = (s.event? a).elim s.traffic s.traffic.step := by
  cases a with
  | index path =>
    cases hbegin : s.engine.begin path with
    | error fault => simp [step, event?, hbegin]
    | ok started =>
      obtain ⟨b, engine⟩ := started
      obtain ⟨-, -, rfl⟩ := begin_ok hbegin
      simp [step, event?, hbegin, traffic, Traffic.step]
  | build call place =>
    cases hbuild : s.builds[call]? with
    | none => simp [step, event?, hbuild]
    | some b =>
      simp only [step, event?, hbuild, traffic]
      exact stepAt_holder s.engine b place (s.askers.map Asker.reader)
  | ask q =>
    cases hq : q.objection? with
    | some objection => simp [step, event?, hq]
    | none => simp [step, event?, hq, traffic, Traffic.step]
  | turn asker =>
    cases hasker : s.askers[asker]? with
    | none => simp [step, event?, hasker]
    | some found =>
      cases found with
      | refused n => simp [step, event?, hasker]
      -- a question that waits looks again, as its reader wakes
      | waiting q =>
        have hreaders := map_reader_set hasker
          (Asker.reader_ofReader q (s.engine.holder.wake (Asker.waiting q).reader))
        rw [Asker.reader] at hreaders
        simp only [step, event?, hasker, traffic, Option.elim, Traffic.step]
        rw [hreaders]
      -- a question that is served has no more to do with the holder
      | served i =>
        obtain ⟨results, monitor, database, world, notices, hengine⟩ := advance_eq_with s.engine i
        have hholder : (i.step s.engine).2.holder = s.engine.holder := by
          rw [Inquiry.step]; dsimp only; rw [hengine]
        have hreader : (Asker.served (i.step s.engine).1).reader = (Asker.served i).reader := rfl
        simp only [step, event?, hasker, traffic, Option.elim]
        rw [map_reader_set_same hasker hreader, hholder]
  | expire asker =>
    cases hasker : s.askers[asker]? with
    | none => simp [step, event?, hasker]
    | some found =>
      cases found with
      | refused n => simp [step, event?, hasker]
      | served i => simp [step, event?, hasker]
      | waiting q =>
        let timeout := s.engine.settings.readyTimeout
        have hreaders := map_reader_set hasker
          (Asker.reader_ofReader q (s.engine.holder.expire timeout (Asker.waiting q).reader))
        rw [Asker.reader] at hreaders
        simp only [step, event?, hasker, traffic, Option.elim, Traffic.step]
        rw [hreaders]
  | edit disk => rfl

/-- A session at its holder is a run of traffic. -/
theorem traffic_after {e : Engine σ} (hfresh : e.holder = {}) (past : List Action) :
    (after e past).traffic = Traffic.after (trace e past) := by
  induction past with
  | nil => rw [after, trace, traffic, hfresh]; rfl
  | cons a past ih =>
    rw [after, traffic_step, trace, ih]
    cases (after e past).event? a <;> rfl

theorem holder_after {e : Engine σ} (hfresh : e.holder = {}) (past : List Action) :
    (after e past).engine.holder = (Traffic.after (trace e past)).holder :=
  congrArg Traffic.holder (traffic_after hfresh past)

/-! ## Which build has which number -/

/-- How the builds of a session belong to its trace. -/
structure Accounted (e : Engine σ) (past : List Action) : Prop where
  proper : Traffic.Proper (trace e past)
  latest_eq : (after e past).engine.holder.latest = (after e past).builds.length
  /-- Builds are numbered from one in the order in which they began. -/
  number_eq : ∀ (i : Nat) (b : Build σ), (after e past).builds[i]? = some b → b.number = i + 1
  unfinished_iff : ∀ n, n ∈ Traffic.unfinished (trace e past) ↔
    ∃ b ∈ (after e past).builds, b.number = n ∧ b.stage.isOpen = true
  made_number : ∀ b ∈ (after e past).builds, ∀ g, b.stage.made? = some g → g.number = b.number
  /-- A summary that is not marked as discarded tells of a generation that was swapped in. -/
  summary_swapped : ∀ b ∈ (after e past).builds, ∀ s, b.stage.summary? = some s →
    s.discarded = false →
      ∃ g embedded, g ∈ Traffic.swapped (trace e past) ∧ g.number = b.number ∧
        s = summaryOf g embedded true

namespace Accounted

variable {e : Engine σ} {past : List Action}

theorem empty (hfresh : e.holder = {}) : Accounted e [] where
  proper := trivial
  latest_eq := by rw [after, hfresh]; rfl
  number_eq i b hb := by simp [after] at hb
  unfinished_iff n := by simp [trace, Traffic.unfinished, after]
  made_number b hb := by simp [after] at hb
  summary_swapped b hb := by simp [after] at hb

theorem eq_of_number (h : Accounted e past) {b b' : Build σ} (hb : b ∈ (after e past).builds)
    (hb' : b' ∈ (after e past).builds) (hnumber : b.number = b'.number) : b = b' := by
  obtain ⟨i, hi⟩ := List.mem_iff_getElem?.mp hb
  obtain ⟨j, hj⟩ := List.mem_iff_getElem?.mp hb'
  have hij : i = j := by
    have := h.number_eq i b hi
    have := h.number_eq j b' hj
    omega
  rw [hij, hj] at hi
  exact (Option.some.inj hi).symm

/-- With one build replaced, the others are those with another number. -/
theorem mem_set_iff (h : Accounted e past) {call : Nat} {b x : Build σ}
    (hb : (after e past).builds[call]? = some b) (b' : Build σ) :
    b' ∈ (after e past).builds.set call x ↔
      b' = x ∨ b' ∈ (after e past).builds ∧ b'.number ≠ b.number := by
  have hlt : call < (after e past).builds.length := (List.getElem?_eq_some_iff.mp hb).1
  have hcall := h.number_eq call b hb
  constructor
  · -- the place of a build is given by its number
    intro hmem
    obtain ⟨j, hj⟩ := List.mem_iff_getElem?.mp hmem
    rw [List.getElem?_set] at hj
    split at hj
    · exact Or.inl (Option.some.inj hj).symm
    · rename_i hne
      refine Or.inr ⟨List.mem_of_getElem? hj, ?_⟩
      have := h.number_eq j b' hj
      omega
  · rintro (rfl | ⟨hmem, hne⟩)
    · exact List.mem_set hlt _
    · obtain ⟨j, hj⟩ := List.mem_iff_getElem?.mp hmem
      have hjcall : call ≠ j := by
        have := h.number_eq j b' hj
        rintro rfl
        omega
      refine List.mem_of_getElem? (i := j) ?_
      rw [List.getElem?_set, if_neg hjcall, hj]

/-- An action that leaves the builds as they are, and is nothing at the holder or that of a
reader. -/
theorem of_same (h : Accounted e past) {a : Action}
    (hreader : ∀ event, (after e past).event? a = some event → event.isReader = true)
    (hbuilds : (after e (a :: past)).builds = (after e past).builds)
    (hholder : (after e (a :: past)).engine.holder = (after e past).engine.holder) :
    Accounted e (a :: past) := by
  have htrace : Traffic.Proper (trace e (a :: past)) ∧
      Traffic.unfinished (trace e (a :: past)) = Traffic.unfinished (trace e past) ∧
      Traffic.swapped (trace e (a :: past)) = Traffic.swapped (trace e past) := by
    rw [trace]
    cases hevent : (after e past).event? a with
    | none => exact ⟨h.proper, rfl, rfl⟩
    | some event =>
      have he := hreader event hevent
      exact ⟨(Traffic.proper_of_reader he).mpr h.proper, Traffic.unfinished_of_reader he,
        Traffic.swapped_of_reader he⟩
  obtain ⟨hproper, hunfinished, hswapped⟩ := htrace
  refine ⟨hproper, ?_, ?_, ?_, ?_, ?_⟩
  · rw [hbuilds, hholder]; exact h.latest_eq
  · rw [hbuilds]; exact h.number_eq
  · rw [hunfinished, hbuilds]; exact h.unfinished_iff
  · rw [hbuilds]; exact h.made_number
  · rw [hswapped, hbuilds]; exact h.summary_swapped

/-- A build that begins has the next number. -/
theorem of_begin (h : Accounted e past) (hfresh : e.holder = {}) {path : String} {b : Build σ}
    {engine : Engine σ} (hbegin : (after e past).engine.begin path = .ok (b, engine)) :
    Accounted e (.index path :: past) := by
  obtain ⟨-, hb, rfl⟩ := begin_ok hbegin
  have hnumber : b.number = (after e past).engine.holder.start.1 := congrArg Build.number hb
  have hstage : b.stage = .walking := congrArg Build.stage hb
  have hholder := holder_after hfresh past
  have htrace : trace e (.index path :: past) = .begin :: trace e past := by
    rw [trace, event?, hbegin]; rfl
  have hbuilds : (after e (.index path :: past)).builds = (after e past).builds ++ [b] := by
    rw [after, step, hbegin]
  have hlatest : (after e (.index path :: past)).engine.holder.latest =
      (after e past).engine.holder.latest + 1 := by
    rw [after, step, hbegin]; rfl
  -- numbers are handed out in the order in which builds begin
  have hnew : b.number = (after e past).builds.length + 1 := by
    rw [hnumber, Holder.start, h.latest_eq]
  refine ⟨?_, ?_, ?_, ?_, ?_, ?_⟩
  · rw [htrace]; exact h.proper
  · rw [hlatest, hbuilds, h.latest_eq, List.length_append, List.length_singleton]; omega
  · intro i b' hb'
    rw [hbuilds] at hb'
    rcases Nat.lt_or_ge i (after e past).builds.length with hlt | hge
    · rw [List.getElem?_append_left hlt] at hb'
      exact h.number_eq i b' hb'
    · have hi : i = (after e past).builds.length := by
        have hlen := (List.getElem?_eq_some_iff.mp hb').1
        rw [List.length_append, List.length_singleton] at hlen
        omega
      rw [hi, List.getElem?_concat_length] at hb'
      obtain rfl := Option.some.inj hb'
      rw [hnew, hi]
  · intro n
    rw [htrace, hbuilds, Traffic.unfinished, List.mem_cons, h.unfinished_iff, ← hholder, ← hnumber]
    constructor
    · rintro (rfl | ⟨b', hmem, hb'⟩)
      · exact ⟨b, List.mem_append_right _ (List.mem_singleton.mpr rfl), rfl, by rw [hstage]; rfl⟩
      · exact ⟨b', List.mem_append_left _ hmem, hb'⟩
    · rintro ⟨b', hmem, hb'⟩
      rcases List.mem_append.mp hmem with hmem | hmem
      · exact Or.inr ⟨b', hmem, hb'⟩
      · rw [List.mem_singleton.mp hmem] at hb'
        exact Or.inl hb'.1.symm
  · intro b' hmem g hg
    rw [hbuilds] at hmem
    rcases List.mem_append.mp hmem with hmem | hmem
    · exact h.made_number b' hmem g hg
    · rw [List.mem_singleton.mp hmem, hstage] at hg
      simp [Stage.made?] at hg
  · intro b' hmem s hs
    rw [hbuilds] at hmem
    rw [htrace]
    rcases List.mem_append.mp hmem with hmem | hmem
    · exact h.summary_swapped b' hmem s hs
    · rw [List.mem_singleton.mp hmem, hstage] at hs
      simp [Stage.summary?] at hs

/-- A build that takes a step changes only what is known of it. What the step has to keep is said of
this build alone. -/
theorem of_build (h : Accounted e past) {call place : Nat} {b : Build σ}
    (hb : (after e past).builds[call]? = some b)
    (hproper : Traffic.Proper (trace e (.build call place :: past)))
    (hlatest : (b.stepAt (after e past).engine place).2.holder.latest =
      (after e past).engine.holder.latest)
    (hunfinished : ∀ n, n ∈ Traffic.unfinished (trace e (.build call place :: past)) ↔
      n = b.number ∧ (b.stepAt (after e past).engine place).1.stage.isOpen = true ∨
        n ≠ b.number ∧ n ∈ Traffic.unfinished (trace e past))
    (hswapped : Traffic.swapped (trace e past) ⊆
      Traffic.swapped (trace e (.build call place :: past)))
    (hmade : ∀ g, (b.stepAt (after e past).engine place).1.stage.made? = some g →
      g.number = b.number)
    (hsummary : ∀ s, (b.stepAt (after e past).engine place).1.stage.summary? = some s →
      s.discarded = false →
        ∃ g embedded, g ∈ Traffic.swapped (trace e (.build call place :: past)) ∧
          g.number = b.number ∧ s = summaryOf g embedded true) :
    Accounted e (.build call place :: past) := by
  have hnumber := stepAt_number (after e past).engine b place
  have hbuilds : (after e (.build call place :: past)).builds =
      (after e past).builds.set call (b.stepAt (after e past).engine place).1 := by
    rw [after_build hb]
  have hengine : (after e (.build call place :: past)).engine =
      (b.stepAt (after e past).engine place).2 := by
    rw [after_build hb]
  -- no two builds have one number, so a build is either this one or has another number and is as it was
  refine ⟨hproper, ?_, ?_, ?_, ?_, ?_⟩
  · rw [hengine, hbuilds, List.length_set, hlatest, h.latest_eq]
  · intro i b' hb'
    rw [hbuilds, List.getElem?_set] at hb'
    split at hb'
    · rename_i hcall
      subst hcall
      rw [if_pos (List.getElem?_eq_some_iff.mp hb).1] at hb'
      rw [← Option.some.inj hb', hnumber]
      exact h.number_eq _ b hb
    · exact h.number_eq i b' hb'
  · intro n
    rw [hunfinished, hbuilds]
    constructor
    · rintro (⟨rfl, hopen⟩ | ⟨hne, hunder⟩)
      · exact ⟨_, (h.mem_set_iff hb _).mpr (Or.inl rfl), hnumber, hopen⟩
      · obtain ⟨b', hmem, rfl, hopen⟩ := (h.unfinished_iff n).mp hunder
        exact ⟨b', (h.mem_set_iff hb _).mpr (Or.inr ⟨hmem, hne⟩), rfl, hopen⟩
    · rintro ⟨b', hmem, rfl, hopen⟩
      rcases (h.mem_set_iff hb _).mp hmem with rfl | ⟨hmem, hne⟩
      · exact Or.inl ⟨hnumber, hopen⟩
      · exact Or.inr ⟨hne, (h.unfinished_iff _).mpr ⟨b', hmem, rfl, hopen⟩⟩
  · intro b' hmem g hg
    rw [hbuilds] at hmem
    rcases (h.mem_set_iff hb _).mp hmem with rfl | ⟨hmem, -⟩
    · rw [hnumber]; exact hmade g hg
    · exact h.made_number b' hmem g hg
  · intro b' hmem s hs hkept
    rw [hbuilds] at hmem
    rcases (h.mem_set_iff hb _).mp hmem with rfl | ⟨hmem, -⟩
    · rw [hnumber]; exact hsummary s hs hkept
    · obtain ⟨g, embedded, hg, hrest⟩ := h.summary_swapped b' hmem s hs hkept
      exact ⟨g, embedded, hswapped hg, hrest⟩

theorem mem_erase_iff (h : Accounted e past) (b : Build σ) {next : Build σ}
    (hnext : next.stage.isOpen = false) (n : Int) :
    n ∈ (Traffic.unfinished (trace e past)).erase b.number ↔
      n = b.number ∧ next.stage.isOpen = true ∨
        n ≠ b.number ∧ n ∈ Traffic.unfinished (trace e past) := by
  rw [(Traffic.consistent h.proper).unfinished_nodup.mem_erase_iff, hnext]
  simp

/-- One step of a build keeps the account. -/
theorem step_build (h : Accounted e past) (hfresh : e.holder = {}) {call : Nat} (place : Nat)
    {b : Build σ} (hb : (after e past).builds[call]? = some b) :
    Accounted e (.build call place :: past) := by
  have hmem : b ∈ (after e past).builds := List.mem_of_getElem? hb
  have hholder := holder_after hfresh past
  have hunder : b.stage.isOpen = true → b.number ∈ Traffic.unfinished (trace e past) :=
    fun hopen => (h.unfinished_iff _).mpr ⟨b, hmem, rfl, hopen⟩
  -- what the step is at the holder decides what the account says of it
  cases stepAt_turn (after e past).engine b place with
  | working hopen hnone hnext hsame hmade hsummary =>
    have htrace : trace e (.build call place :: past) = trace e past := by
      rw [trace_build hb, hnone]; rfl
    refine h.of_build hb (htrace ▸ h.proper) (by rw [hsame]) ?_ (htrace ▸ List.Subset.refl _) ?_ ?_
    · intro n
      rw [htrace, hnext]
      by_cases hn : n = b.number
      · simp [hn, hunder hopen]
      · simp [hn]
    · intro g hg
      rcases hmade g hg with hnumber | ⟨g', hg', hnumber⟩
      · exact hnumber
      · rw [hnumber]; exact h.made_number b hmem g' hg'
    · intro s hs hkept
      rw [hsummary s hs] at hkept
      exact absurd hkept (by decide)
  | publishing g embedded hstage hnext =>
    have hnumber : g.number = b.number := h.made_number b hmem g (by rw [hstage]; rfl)
    have htrace : trace e (.build call place :: past) = .publish g :: trace e past := by
      rw [trace_build hb, Build.event?, hstage]; rfl
    have hopen : g.number ∈ Traffic.unfinished (trace e past) := by
      rw [hnumber]; exact hunder (by rw [hstage]; rfl)
    refine h.of_build hb (htrace ▸ ⟨hopen, h.proper⟩) ?_ ?_ ?_ ?_ ?_
    · rw [hnext]; exact Traffic.publish_latest _ _
    · intro n
      rw [htrace, Traffic.unfinished, hnumber, hnext]
      exact h.mem_erase_iff b rfl n
    · rw [htrace]
      exact (Traffic.swapped_suffix [.publish g] _).subset
    · rw [hnext]; simp [Build.publish, Stage.made?]
    · intro s hs hkept
      rw [hnext, publish_stage] at hs
      obtain rfl := Option.some.inj hs
      have hflag : ((after e past).engine.holder.publish g).1 = true := by
        rw [summaryOf] at hkept
        simpa only [Bool.not_eq_false'] using hkept
      refine ⟨g, embedded, ?_, hnumber, by rw [hflag]⟩
      rw [htrace, Traffic.swapped, ← hholder, if_pos hflag]
      exact List.mem_cons_self
  | aborting result hstage hnext =>
    have htrace : trace e (.build call place :: past) = .abort b.number :: trace e past := by
      rw [trace_build hb, Build.event?, hstage]; rfl
    refine h.of_build hb (htrace ▸ ⟨hunder (by rw [hstage]; rfl), h.proper⟩) ?_ ?_ ?_ ?_ ?_
    · rw [hnext]; rfl
    · intro n
      rw [htrace, Traffic.unfinished, hnext]
      exact h.mem_erase_iff b rfl n
    · rw [htrace]; exact List.Subset.refl _
    · rw [hnext]; simp [Stage.made?]
    · intro s hs hkept
      refine h.summary_swapped b hmem s ?_ hkept |>.imp fun g hg => ?_
      · rw [hnext] at hs
        rw [hstage]
        cases result with
        | ok summary => exact hs
        | error fault => simp [Stage.summary?] at hs
      · rw [htrace]; exact hg
  | closed hclosed hnone hnext hsame hsummary =>
    have htrace : trace e (.build call place :: past) = trace e past := by
      rw [trace_build hb, hnone]; rfl
    -- a build that is closed stays out of the unfinished ones
    have hended : b.number ∉ Traffic.unfinished (trace e past) := by
      intro hunfinished
      obtain ⟨b', hmem', hnumber, hopen⟩ := (h.unfinished_iff _).mp hunfinished
      rw [h.eq_of_number hmem' hmem hnumber, hclosed] at hopen
      exact absurd hopen (by decide)
    refine h.of_build hb (htrace ▸ h.proper) (by rw [hsame]) ?_ (htrace ▸ List.Subset.refl _) ?_ ?_
    · intro n
      rw [htrace, hnext]
      by_cases hn : n = b.number
      · simp [hn, hended]
      · simp [hn]
    · intro g hg
      cases hstage : (b.stepAt (after e past).engine place).1.stage with
      | retiring old summary => simp [hstage, Stage.made?] at hg
      | ended result => simp [hstage, Stage.made?] at hg
      | _ => simp [hstage, Stage.isOpen] at hnext
    · intro s hs hkept
      rw [htrace]
      exact h.summary_swapped b hmem s (hsummary ▸ hs) hkept

end Accounted

/-- Every action keeps the account of the builds. -/
theorem accounted {e : Engine σ} (hfresh : e.holder = {}) (past : List Action) :
    Accounted e past := by
  -- only the beginning of a build and its steps say anything new
  induction past with
  | nil => exact Accounted.empty hfresh
  | cons a past ih =>
    cases step_move (after e past) a with
    | idle hevent hnext =>
      exact ih.of_same (by simp [hevent]) (by rw [after, hnext]) (by rw [after, hnext])
    | begins path b engine ha hbegin hevent hnext =>
      subst ha
      exact ih.of_begin hfresh hbegin
    | builds call place b ha hb hevent hnext =>
      subst ha
      exact ih.step_build hfresh place hb
    | asks q ha hevent hnext =>
      refine ih.of_same ?_ (by rw [after, hnext]) (by rw [after, hnext])
      intro event hsome
      rw [hevent] at hsome
      obtain rfl := Option.some.inj hsome
      rfl
    | looks asker q r hasker hr hevent hnext =>
      refine ih.of_same ?_ (by rw [after, hnext]) (by rw [after, hnext])
      obtain ⟨event, hsome, hreader⟩ := hevent
      intro event' hsome'
      rw [hsome] at hsome'
      obtain rfl := Option.some.inj hsome'
      exact hreader
    | answers asker i ha hasker hevent hnext =>
      obtain ⟨results, monitor, database, world, notices, hengine⟩ :=
        advance_eq_with (after e past).engine i
      refine ih.of_same (by simp [hevent]) (by rw [after, hnext]) ?_
      rw [after, hnext, Inquiry.step]
      dsimp only
      rw [hengine]
    | edits disk ha hevent hnext =>
      exact ih.of_same (by simp [hevent]) (by rw [after, hnext]) (by rw [after, hnext])

/-! ## Questions after builds -/

/-- A summary that was returned and is not marked as discarded tells of a generation that was
swapped in. -/
theorem exists_swapped_of_ended {e : Engine σ} (hfresh : e.holder = {}) {past : List Action}
    {b : Build σ} (hb : b ∈ (after e past).builds) {summary : Summary}
    (hended : b.ending? = some (.ok summary)) (hkept : summary.discarded = false) :
    ∃ g ∈ Traffic.swapped (trace e past), summary.generation = g.number.toNat := by
  have hsummary : b.stage.summary? = some summary := by
    rw [Build.ending?] at hended
    split at hended
    · rename_i hstage
      rw [hstage, Option.some.inj hended]; rfl
    · simp at hended
  obtain ⟨g, embedded, hg, -, rfl⟩ :=
    (accounted hfresh past).summary_swapped b hb summary hsummary hkept
  exact ⟨g, hg, rfl⟩

/-- A question that is put after a build returned is not answered from an older generation. -/
theorem generation_le_of_asked_later {e : Engine σ} (hfresh : e.holder = {})
    {later past : List Action} {b : Build σ} (hb : b ∈ (after e past).builds) {summary : Summary}
    (hended : b.ending? = some (.ok summary)) (hkept : summary.discarded = false) {asker : Nat}
    (hnew : (after e past).askers.length ≤ asker) {i : Inquiry}
    (hserved : (after e (later ++ past)).askers[asker]? = some (.served i)) :
    (summary.generation : Int) ≤ i.generation.number := by
  obtain ⟨g, hg, hsummary⟩ := exists_swapped_of_ended hfresh hb hended hkept
  obtain ⟨new, hgrown⟩ := exists_trace_append e later past
  have hpast := traffic_after hfresh past
  have hlater := traffic_after hfresh (later ++ past)
  rw [hgrown] at hlater
  have hproper : Traffic.Proper (new ++ trace e past) := hgrown ▸ (accounted hfresh _).proper
  have hreaders : (Traffic.after (trace e past)).readers.length ≤ asker := by
    rw [← hpast, traffic, List.length_map]; exact hnew
  -- the question is a reader that came after the generation had been swapped in
  have hreader : (Traffic.after (new ++ trace e past)).readers[asker]? =
      some (.done (.ok i.generation)) := by
    rw [← hlater, traffic, List.getElem?_map, hserved]; rfl
  have hle := Traffic.served_newer hproper hreaders hreader hg
  have hpos := ((Traffic.consistent hproper.of_append).handed_iff _).mp
    ((Traffic.consistent hproper.of_append).ended g hg).1
  omega

end Session

end CodeSearch.Engine

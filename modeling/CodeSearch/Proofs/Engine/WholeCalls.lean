import CodeSearch.Proofs.Engine.Answers
import CodeSearch.Proofs.Engine.Session

/-!
Calls carried out from their beginning to their end.

A build or a question that is carried out takes one step after the other until it has ended. So what
every step keeps, and what others keep that are let in between two steps, holds when the call has ended
(`Build.complete_keeps`, `Inquiry.complete_keeps`). With nobody let in, a whole build is a session in
which only this build takes steps (`Session.exists_places_of_complete`).

What a call sends to the store of vectors is what its steps send (`Build.requests`, `Inquiry.requests`).
-/
set_option autoImplicit false

namespace CodeSearch.Engine

open CodeSearch.Search (Result)

variable {σ : Type}

/-- Nobody else does anything while a question is answered. -/
def undisturbed : Moment → Engine σ → Engine σ := fun _ e => e

/-! ## Builds -/

section Builds

variable {interrupt : Moment → Engine σ → Engine σ} {e : Engine σ} {b : Build σ}

/-- The engine as the next step of a build finds it, when others may take steps of theirs before
that. -/
def Build.shown (interrupt : Moment → Engine σ → Engine σ) (e : Engine σ) (b : Build σ) : Engine σ :=
  match b.moment? e with
  | some moment => interrupt moment e
  | none => e

theorem Build.ending?_eq_some {result : Except IndexFault Summary} :
    b.ending? = some result ↔ b.stage = .ended result := by
  unfold Build.ending?
  cases b.stage with
  | ended found => simp
  | _ => simp

theorem Build.complete_of_ended {result : Except IndexFault Summary} (h : b.ending? = some result) :
    b.complete interrupt e = (result, e) := by
  rw [Build.complete]
  split
  · rename_i other hother
    rw [h] at hother
    rw [Option.some.inj hother]
  · rename_i hnone
    rw [h] at hnone
    exact absurd hnone (by simp)

theorem Build.complete_of_step (h : b.ending? = none) :
    b.complete interrupt e =
      (b.step (b.shown interrupt e)).1.complete interrupt (b.step (b.shown interrupt e)).2 := by
  rw [Build.complete]
  split
  · rename_i result hended
    rw [h] at hended
    exact absurd hended (by simp)
  · rfl

/-- What every step of a build keeps, and all that is let in between two steps, holds at its end. -/
theorem Build.complete_keeps (interrupt : Moment → Engine σ → Engine σ)
    {P : Engine σ → Build σ → Prop}
    (hshown : ∀ e b moment, P e b → P (interrupt moment e) b)
    (hstep : ∀ e b, P e b → b.ending? = none → P (b.step e).2 (b.step e).1) (e : Engine σ)
    (b : Build σ) (h : P e b) :
    ∃ b', b'.stage = .ended (b.complete interrupt e).1 ∧ P (b.complete interrupt e).2 b' := by
  cases hended : b.ending? with
  | some result =>
    rw [Build.complete_of_ended hended]
    exact ⟨b, Build.ending?_eq_some.mp hended, h⟩
  | none =>
    have hready : P (b.shown interrupt e) b := by
      unfold Build.shown
      split
      · exact hshown _ _ _ h
      · exact h
    rw [Build.complete_of_step hended]
    exact Build.complete_keeps interrupt hshown hstep _ _ (hstep _ _ hready hended)
termination_by b.distance
decreasing_by exact b.distance_step_lt _ hended

/-- So many steps of a build with nobody let in. -/
def Build.steps (e : Engine σ) (b : Build σ) : Nat → Build σ × Engine σ
  | 0 => (b, e)
  | n + 1 => (b.step e).1.steps (b.step e).2 n

theorem Build.step_of_ended {result : Except IndexFault Summary} (h : b.ending? = some result) :
    b.step e = (b, e) := by
  unfold Build.step Build.stepAt
  rw [Build.ending?_eq_some.mp h]

/-- A build that has ended after so many steps is carried out by them. -/
theorem Build.complete_of_steps (n : Nat) {result : Except IndexFault Summary}
    (h : (b.steps e n).1.ending? = some result) :
    b.complete undisturbed e = (result, (b.steps e n).2) := by
  induction n generalizing e b with
  | zero => exact Build.complete_of_ended h
  | succ n ih =>
    have hrest := ih (e := (b.step e).2) (b := (b.step e).1) h
    cases hended : b.ending? with
    | some found =>
      rw [Build.step_of_ended hended] at hrest
      rw [hrest, Build.steps, Build.step_of_ended hended]
    | none =>
      have hshown : b.shown undisturbed e = e := by
        unfold Build.shown
        split <;> rfl
      rw [Build.complete_of_step hended, hshown, hrest]
      rfl

end Builds

/-! ## Questions -/

theorem Inquiry.ending?_eq_some {i : Inquiry} {result : Except Fault (List Result)} :
    i.ending? = some result ↔ i.progress = .ended result := by
  unfold Inquiry.ending?
  cases i.progress with
  | ended found => simp
  | _ => simp

/-- What every step of a question keeps, and all that is let in between two steps, holds at its
end. -/
theorem Inquiry.complete_keeps (interrupt : Moment → Engine σ → Engine σ)
    {P : Engine σ → Inquiry → Prop}
    (hshown : ∀ e i moment, P e i → P (interrupt moment e) i)
    (hstep : ∀ e i, P e i → i.ending? = none → P (i.step e).2 (i.step e).1) (e : Engine σ)
    (i : Inquiry) (h : P e i) :
    ∃ i', i'.progress = .ended (i.complete interrupt e).1 ∧ P (i.complete interrupt e).2 i' := by
  cases hended : i.ending? with
  | some result =>
    rw [complete_of_ended (Inquiry.ending?_eq_some.mp hended)]
    exact ⟨i, Inquiry.ending?_eq_some.mp hended, h⟩
  | none =>
    have hready : P (i.shown interrupt e) i := by
      unfold Inquiry.shown
      split
      · exact hshown _ _ _ h
      · exact h
    rw [complete_of_step hended]
    exact Inquiry.complete_keeps interrupt hshown hstep _ _ (hstep _ _ hready hended)
termination_by i.progress.distance
decreasing_by exact i.distance_step_lt _ hended

/-! ## What is sent to the store -/

/-- What a step sends to the store of vectors: the vectors of a generation to be written to a table,
a vector to be searched in one, or the order to drop one. -/
inductive Request where
  | write (table : String)
  | search (table : String)
  | drop (table : String)
deriving DecidableEq, Repr

/-- What the next step of a build sends. -/
def Build.request? (e : Engine σ) (b : Build σ) : Option Request :=
  match b.stage with
  | .storing _ _ => some (.write (e.tableName b.number))
  | .retiring (g :: _) _ => g.vector.map fun index => .drop index.collection
  | _ => none

/-- What the next step of a question sends. -/
def Inquiry.request? (i : Inquiry) : Option Request :=
  match i.progress with
  | .searching _ index _ => some (.search index.collection)
  | _ => none

/-- What all steps of a build send, one after the other. -/
def Build.requests (e : Engine σ) (b : Build σ) : List Request :=
  match _h : b.ending? with
  | some _ => []
  | none => (b.request? e).toList ++ Build.requests (b.step e).2 (b.step e).1
termination_by b.distance
decreasing_by exact b.distance_step_lt _ _h

theorem Build.requests_of_ended {e : Engine σ} {b : Build σ} {result : Except IndexFault Summary}
    (h : b.ending? = some result) : b.requests e = [] := by
  rw [Build.requests]
  split
  · rfl
  · rename_i hnone
    rw [h] at hnone
    exact absurd hnone (by simp)

theorem Build.requests_of_step {e : Engine σ} {b : Build σ} (h : b.ending? = none) :
    b.requests e = (b.request? e).toList ++ (b.step e).1.requests (b.step e).2 := by
  rw [Build.requests]
  split
  · rename_i result hended
    rw [h] at hended
    exact absurd hended (by simp)
  · rfl

/-- What all steps of a question send. -/
def Inquiry.requests (e : Engine σ) (i : Inquiry) : List Request :=
  match _h : i.ending? with
  | some _ => []
  | none => i.request?.toList ++ Inquiry.requests (i.step e).2 (i.step e).1
termination_by i.progress.distance
decreasing_by exact i.distance_step_lt _ _h

theorem Inquiry.requests_of_ended {e : Engine σ} {i : Inquiry} {result : Except Fault (List Result)}
    (h : i.ending? = some result) : i.requests e = [] := by
  rw [Inquiry.requests]
  split
  · rfl
  · rename_i hnone
    rw [h] at hnone
    exact absurd hnone (by simp)

theorem Inquiry.requests_of_step {e : Engine σ} {i : Inquiry} (h : i.ending? = none) :
    i.requests e = i.request?.toList ++ (i.step e).1.requests (i.step e).2 := by
  rw [Inquiry.requests]
  split
  · rename_i result hended
    rw [h] at hended
    exact absurd hended (by simp)
  · rfl

section Requests

variable {Q : Request → Prop}

/-- What every step of a build keeps tells what the build sends. -/
theorem Build.requests_keep {P : Engine σ → Build σ → Prop}
    (hstep : ∀ e b, P e b → P (b.step e).2 (b.step e).1)
    (hrequest : ∀ e b, P e b → ∀ r ∈ b.request? e, Q r) (e : Engine σ) (b : Build σ) (h : P e b) :
    ∀ r ∈ b.requests e, Q r := by
  cases hended : b.ending? with
  | some result =>
    rw [Build.requests_of_ended hended]
    exact fun r hr => absurd hr List.not_mem_nil
  | none =>
    rw [Build.requests_of_step hended]
    intro r hr
    rcases List.mem_append.mp hr with hnow | hlater
    · exact hrequest e b h r (Option.mem_toList.mp hnow)
    · exact Build.requests_keep hstep hrequest _ _ (hstep e b h) r hlater
termination_by b.distance
decreasing_by exact b.distance_step_lt _ hended

/-- What every step of a question keeps tells what the question sends. -/
theorem Inquiry.requests_keep {P : Engine σ → Inquiry → Prop}
    (hstep : ∀ e i, P e i → P (i.step e).2 (i.step e).1)
    (hrequest : ∀ e i, P e i → ∀ r ∈ i.request?, Q r) (e : Engine σ) (i : Inquiry) (h : P e i) :
    ∀ r ∈ i.requests e, Q r := by
  cases hended : i.ending? with
  | some result =>
    rw [Inquiry.requests_of_ended hended]
    exact fun r hr => absurd hr List.not_mem_nil
  | none =>
    rw [Inquiry.requests_of_step hended]
    intro r hr
    rcases List.mem_append.mp hr with hnow | hlater
    · exact hrequest e i h r (Option.mem_toList.mp hnow)
    · exact Inquiry.requests_keep hstep hrequest _ _ (hstep e i h) r hlater
termination_by i.progress.distance
decreasing_by exact i.distance_step_lt _ hended

end Requests

/-! ## Whole builds in sessions -/

namespace Session

/-- A build that is carried out with nobody let in is a session in which it alone takes steps. -/
theorem exists_places_of_complete {e : Engine σ} {past : List Action} {call : Nat} {b : Build σ}
    (hb : (after e past).builds[call]? = some b) :
    ∃ (places : List Nat) (b' : Build σ),
      b'.stage = .ended (b.complete undisturbed (after e past).engine).1 ∧
      (after e (places.map (.build call) ++ past)).engine =
        (b.complete undisturbed (after e past).engine).2 ∧
      (after e (places.map (.build call) ++ past)).builds = (after e past).builds.set call b' := by
  obtain ⟨hlt, hbuild⟩ := List.getElem?_eq_some_iff.mp hb
  let P (e' : Engine σ) (b' : Build σ) : Prop := ∃ places : List Nat,
    (after e (places.map (.build call) ++ past)).engine = e' ∧
      (after e (places.map (.build call) ++ past)).builds = (after e past).builds.set call b'
  have hbegins : P (after e past).engine b :=
    ⟨[], rfl, by rw [← hbuild, List.set_getElem_self]; rfl⟩
  have hkeeps : ∀ e' b', P e' b' → b'.ending? = none → P (b'.step e').2 (b'.step e').1 := by
    rintro e' b' ⟨places, hengine, hbuilds⟩ -
    have hthere : (after e (places.map (.build call) ++ past)).builds[call]? = some b' := by
      rw [hbuilds, List.getElem?_set_self hlt]
    refine ⟨b'.place :: places, ?_, ?_⟩
    · rw [List.map_cons, List.cons_append, after_build hthere, hengine]
      rfl
    · rw [List.map_cons, List.cons_append, after_build hthere, hengine, hbuilds, List.set_set]
      rfl
  obtain ⟨b', hended, places, hengine, hbuilds⟩ :=
    Build.complete_keeps undisturbed (fun _ _ _ h => h) hkeeps (after e past).engine b hbegins
  exact ⟨places, b', hended, hengine, hbuilds⟩

end Session

end CodeSearch.Engine

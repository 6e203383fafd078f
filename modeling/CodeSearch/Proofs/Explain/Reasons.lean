import CodeSearch.Explain.Assistant
import CodeSearch.Service.Script

/-!
Which reason is given for a failure.

An assistant keeps the reason of a failure and replaces it when the next failure has one. A silent
reply, in which nothing stands in the place of the text, has none of its own: the failure is put down to
the last reason kept, from however long ago. So what a question comes to depends on the questions
before it exactly in this case, and then on the last reason among them (`ends_alike_iff`).
-/
set_option autoImplicit false

namespace CodeSearch.Explain

open CodeSearch.Service

/-- Two ways to end are the same for whoever asked: the same explanation, or failures with the same
wording, or the same crash. -/
def Outcome.Alike : Outcome → Outcome → Prop
  | .answer v, .answer w => v = w
  | .failure f, .failure g => f.message = g.message
  | .crash f, .crash g => f = g
  | _, _ => False

theorem Outcome.Alike.refl (o : Outcome) : o.Alike o := by
  cases o <;> rfl

/-- The wording of a failure of one provider tells its reason. -/
theorem message_provider_inj {name reason reason' : String} :
    (Failure.provider name reason).message = (Failure.provider name reason').message ↔
      reason = reason' := by
  refine ⟨fun h => ?_, congrArg fun reason => (Failure.provider name reason).message⟩
  have hlist := congrArg String.toList h
  simp only [Failure.message, String.toList_append] at hlist
  exact String.toList_inj.mp (List.append_cancel_left hlist)

namespace Assistant

variable (a : Assistant)

/-! ## One call -/

/-- What a call comes to in itself, if a reply is what would come back. -/
def attemptWith (reply : Reply) : Attempt :=
  if a.provider.needsKey && a.apiKey.isEmpty then .nothing "no API key configured"
  else attemptOf a.provider reply

/-- The reason that an attempt has of its own. -/
def Attempt.reason? : Attempt → Option String
  | .nothing reason => some reason
  | _ => none

/-- A reply is silent: it is asked for and brings data, and in the place of the text there is nothing
that counts. -/
def Silent (reply : Reply) : Prop :=
  (a.provider.needsKey && a.apiKey.isEmpty) = false ∧ ∃ answer, reply.data = .ok answer ∧
    (answer = .null ∨ ∃ v, textIn a.provider answer = .ok v ∧ v.holds = false)

/-- The reason that is given for a failure without one, when a reason was kept. -/
def reasonFor (kept : String) : String :=
  orElse kept "empty response"

theorem attemptOf_eq_found_iff {provider : Provider} {reply : Reply} {v : Value} :
    attemptOf provider reply = .found v ↔ ∃ answer, reply.data = .ok answer ∧
      (answer = .null ∧ v = .null ∨ answer ≠ .null ∧ textIn provider answer = .ok v) := by
  unfold attemptOf
  split
  · rename_i problem hdata
    simp [hdata]
  · rename_i hdata
    simp [hdata, eq_comm]
  · rename_i answer hnull hdata
    have hother : answer ≠ .null := hnull
    cases htext : textIn provider answer with
    | ok w => simp [hdata, hother, htext, eq_comm]
    | error fault =>
      dsimp only
      split <;> simp [hdata, hother, htext]

/-- A silent reply is one in which nothing that counts was found, and no reason for that. -/
theorem silent_iff {reply : Reply} :
    a.Silent reply ↔ ∃ v, a.attemptWith reply = .found v ∧ v.holds = false := by
  have hnull : Value.null.holds = false := rfl
  unfold Silent attemptWith
  cases a.provider.needsKey && a.apiKey.isEmpty with
  | true => simp
  | false =>
    simp only [Bool.false_eq_true, if_false, true_and, attemptOf_eq_found_iff]
    constructor
    · rintro ⟨answer, hdata, rfl | ⟨v, htext, hv⟩⟩
      · exact ⟨.null, ⟨.null, hdata, .inl ⟨rfl, rfl⟩⟩, hnull⟩
      · by_cases hanswer : answer = .null
        · exact ⟨.null, ⟨answer, hdata, .inl ⟨hanswer, rfl⟩⟩, hnull⟩
        · exact ⟨v, ⟨answer, hdata, .inr ⟨hanswer, htext⟩⟩, hv⟩
    · rintro ⟨v, ⟨answer, hdata, ⟨hanswer, -⟩ | ⟨-, htext⟩⟩, hv⟩
      · exact ⟨answer, hdata, .inl hanswer⟩
      · exact ⟨answer, hdata, .inr ⟨v, htext, hv⟩⟩

/-- What a call comes to, after reasons were kept, differs only if nothing that counts was found. -/
theorem alike_conclude_iff (kept kept' : String) (tried : Attempt) :
    (a.conclude kept tried).1.Alike (a.conclude kept' tried).1 ↔
      ((∃ v, tried = .found v ∧ v.holds = false) → reasonFor kept = reasonFor kept') := by
  cases tried with
  | nothing reason => exact iff_of_true (.refl _) (by rintro ⟨v, hv, -⟩; cases hv)
  | crash fault => exact iff_of_true (.refl _) (by rintro ⟨v, hv, -⟩; cases hv)
  | found v =>
    rw [conclude, conclude]
    cases hv : v.holds with
    | true =>
      refine iff_of_true rfl ?_
      rintro ⟨w, hw, hnone⟩
      obtain rfl : v = w := Attempt.found.inj hw
      exact absurd (hv.symm.trans hnone) (by decide)
    | false =>
      refine Iff.trans message_provider_inj ⟨fun h _ => h, fun h => h ⟨v, rfl, hv⟩⟩

/-- A reason of its own replaces the one kept. -/
theorem conclude_snd (kept : String) (tried : Attempt) :
    (a.conclude kept tried).2 = tried.reason?.getD kept := by
  cases tried <;> rfl

variable {σ : Type} (exchange : Exchange σ)

theorem attempt_fst (prompt : String) (world : σ) :
    (a.attempt exchange prompt world).1 =
      a.attemptWith (exchange (a.request prompt) world).1 := by
  unfold attempt attemptWith
  split <;> rfl

theorem explain_fst (prompt : String) (state : String × σ) :
    (a.explain exchange prompt state).1 =
      (a.conclude state.1 (a.attempt exchange prompt state.2).1).1 := rfl

theorem explain_kept (prompt : String) (state : String × σ) :
    (a.explain exchange prompt state).2.1 =
      (a.attempt exchange prompt state.2).1.reason?.getD state.1 :=
  a.conclude_snd _ _

/-! ## Many calls -/

/-- The reason kept and the world outside after some questions, asked one after the other. -/
def stateAfter (questions : List String) (state : String × σ) : String × σ :=
  questions.foldl (fun state prompt => (a.explain exchange prompt state).2) state

/-- What the questions come to in themselves. -/
def attempts : List String → String × σ → List Attempt
  | [], _ => []
  | prompt :: questions, state =>
    (a.attempt exchange prompt state.2).1 ::
      attempts questions (a.explain exchange prompt state).2

/-- The last reason among some attempts. -/
def lastReason? (tried : List Attempt) : Option String :=
  tried.reverse.findSome? Attempt.reason?

theorem lastReason?_cons (first : Attempt) (tried : List Attempt) :
    lastReason? (first :: tried) = (lastReason? tried).or first.reason? := by
  rw [lastReason?, List.reverse_cons, List.findSome?_append, lastReason?, List.findSome?_singleton]

/-- The reason kept is the last that there was. -/
theorem kept_stateAfter (questions : List String) (state : String × σ) :
    (a.stateAfter exchange questions state).1 =
      (lastReason? (a.attempts exchange questions state)).getD state.1 := by
  induction questions generalizing state with
  | nil => rfl
  | cons prompt questions ih =>
    have hstep : a.stateAfter exchange (prompt :: questions) state =
        a.stateAfter exchange questions (a.explain exchange prompt state).2 := rfl
    rw [hstep, ih, attempts, lastReason?_cons, explain_kept]
    cases lastReason? (a.attempts exchange questions (a.explain exchange prompt state).2) <;> rfl

/-- The reason that some questions leave for a failure without one. -/
def reasonLeft (questions : List String) (world : σ) : String :=
  reasonFor ((lastReason? (a.attempts exchange questions ("", world))).getD "")

end Assistant

open Assistant

/-- After any two histories of questions, to whatever came back, the same question with the same reply
ends in the same way, unless the reply is silent. Then it does exactly if the last reasons in the two
histories are the same; no reason counts as an empty response. -/
theorem ends_alike_iff (a : Assistant) {σ σ' : Type} (exchange : Exchange σ)
    (exchange' : Exchange σ') (questions questions' : List String) (world : σ) (world' : σ')
    (prompt : String) (reply : Reply)
    (hreply : (exchange (a.request prompt)
      (a.stateAfter exchange questions ("", world)).2).1 = reply)
    (hreply' : (exchange' (a.request prompt)
      (a.stateAfter exchange' questions' ("", world')).2).1 = reply) :
    (a.explain exchange prompt (a.stateAfter exchange questions ("", world))).1.Alike
        (a.explain exchange' prompt (a.stateAfter exchange' questions' ("", world'))).1 ↔
      (a.Silent reply →
        a.reasonLeft exchange questions world = a.reasonLeft exchange' questions' world') := by
  rw [explain_fst, explain_fst, attempt_fst, attempt_fst, hreply, hreply', alike_conclude_iff,
    kept_stateAfter, kept_stateAfter, silent_iff]
  rfl

/-! ### An empty text -/

/-- An assistant that needs no key. -/
def nearby : Assistant := ⟨.ollama, "qwen2.5-coder:7b", "", "http://localhost:11434/api/generate"⟩

/-- A reply with a text. -/
def saying (text : String) : Reply := .answer 200 (.data (.table [("response", .text text)]))

/-- An empty text is put down to a connection that failed a question before, or to nothing. -/
theorem not_alike_after_failure :
    (Script.exchange (nearby.request "y")
        (nearby.stateAfter Script.exchange ["x"] ("", ⟨[.unreachable "down", saying ""], []⟩)).2).1 =
      (Script.exchange (nearby.request "y")
        (nearby.stateAfter Script.exchange [] ("", ⟨[saying ""], []⟩)).2).1 ∧
    ¬ (nearby.explain Script.exchange "y" (nearby.stateAfter Script.exchange ["x"]
          ("", ⟨[.unreachable "down", saying ""], []⟩))).1.Alike
        (nearby.explain Script.exchange "y" (nearby.stateAfter Script.exchange []
          ("", ⟨[saying ""], []⟩))).1 := by
  refine ⟨rfl, fun h => ?_⟩
  have hmessage : "LLM provider 'ollama' failed: down" =
      "LLM provider 'ollama' failed: empty response" := h
  exact absurd hmessage (by decide)

/-- An answer between does not replace the reason, and a text that is not empty does not need one. -/
theorem ends_alike_iff_answered :
    (nearby.explain Script.exchange "z" (nearby.stateAfter Script.exchange ["x"]
        ("", ⟨[.answer 500 (.malformed ""), saying ""], []⟩))).1.Alike
      (nearby.explain Script.exchange "z" (nearby.stateAfter Script.exchange ["x", "y"]
        ("", ⟨[.answer 500 (.malformed ""), saying "yes", saying ""], []⟩))).1 ∧
    (nearby.explain Script.exchange "z" (nearby.stateAfter Script.exchange []
        ("", ⟨[saying "yes"], []⟩))).1.Alike
      (nearby.explain Script.exchange "z" (nearby.stateAfter Script.exchange ["x"]
        ("", ⟨[.unreachable "down", saying "yes"], []⟩))).1 := by
  constructor
  · exact (ends_alike_iff nearby Script.exchange Script.exchange ["x"] ["x", "y"] _ _ "z"
      (saying "") rfl rfl).mpr fun _ => rfl
  · refine (ends_alike_iff nearby Script.exchange Script.exchange [] ["x"] _ _ "z"
      (saying "yes") rfl rfl).mpr fun hsilent => ?_
    obtain ⟨v, hfound, hnone⟩ := nearby.silent_iff.mp hsilent
    obtain rfl : .text "yes" = v := Attempt.found.inj hfound
    exact absurd hnone (by decide)

end CodeSearch.Explain

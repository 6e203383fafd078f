import CodeSearch.Explain.Assistant
import CodeSearch.Engine.Explanation
import CodeSearch.Proofs.Engine.Answers

/-!
What becomes of a reply.

Each service puts its text in a place of its own in an answer (`Provider.path`). What comes instead of
an answer, and an answer in which nothing stands in that place, is a failure, as it should be. Two
things are not: something else than a text in that place is handed out as if it were one, and an
answer of the service that needs no key is taken for a table without being looked at. An answer is fit
if it is neither (`Fit`), and that is exactly what it takes for an explanation to be a text or a
failure (`explanations_proper_iff`).
-/
set_option autoImplicit false

namespace CodeSearch.Explain

open CodeSearch.Service

/-! ## The place of the text -/

/-- One step on the way into an answer. -/
inductive Part where
  | key (name : String)
  | first

/-- The way to the text in the answers of a service. -/
def Provider.path : Provider → List Part
  | .ollama => [.key "response"]
  | .openai => [.key "choices", .first, .key "message", .key "content"]
  | .anthropic => [.key "content", .first, .key "text"]

/-- What stands at the end of a path into a value, if the path leads somewhere. -/
def standing? : List Part → Value → Option Value
  | [], v => some v
  | .key name :: path, .table entries => (Value.find? name entries).bind (standing? path)
  | .first :: path, .list (item :: _) => standing? path item
  | _, _ => none

theorem standing?_nil : standing? [] = some := by
  funext v
  rw [standing?]

theorem standing?_key (name : String) (path : List Part) :
    standing? (.key name :: path) = fun v => (v.atKey name).toOption.bind (standing? path) := by
  funext v
  cases v with
  | table entries =>
    rw [standing?, Value.atKey]
    cases Value.find? name entries with
    | none => rfl
    | some found => rfl
  | _ => rfl

/-- The first part of a text is a text, in which no key leads further. -/
theorem standing?_first_key (name : String) (path : List Part) :
    standing? (.first :: .key name :: path) =
      fun v => v.first.toOption.bind (standing? (.key name :: path)) := by
  funext v
  cases v with
  | list items =>
    cases items with
    | nil => rfl
    | cons item rest => rfl
  | text s =>
    rw [Value.first]
    cases s.toList with
    | nil => rfl
    | cons c rest => rfl
  | _ => rfl

theorem toOption_bind {α β : Type} (x : Except Fault α) (f : α → Except Fault β) :
    (x >>= f).toOption = x.toOption.bind fun a => (f a).toOption := by
  cases x with
  | error fault => rfl
  | ok a => rfl

/-- In the answers of a service that needs a key, the text is looked for in its place. -/
theorem toOption_textIn {provider : Provider} (h : provider.needsKey = true) (answer : Value) :
    (Assistant.textIn provider answer).toOption = standing? provider.path answer := by
  cases provider with
  | ollama => cases h
  | openai =>
    simp only [Assistant.textIn, Provider.path, toOption_bind, standing?_nil, standing?_key,
      standing?_first_key, Option.bind_fun_some]
  | anthropic =>
    simp only [Assistant.textIn, Provider.path, toOption_bind, standing?_nil, standing?_key,
      standing?_first_key, Option.bind_fun_some]

/-! ## Explanations -/

/-- An explanation as it is meant to be: a text that is not empty, or a failure. -/
def Outcome.Proper : Outcome → Prop
  | .answer v => ∃ s, v = .text s ∧ s ≠ ""
  | .failure _ => True
  | .crash _ => False

/-- An answer that can be used without another look: it is a table if the service needs no key, or
null, and what stands in the place of the text is one unless it is as good as nothing. -/
structure Fit (provider : Provider) (answer : Value) : Prop where
  table : provider.needsKey = false → answer = .null ∨ ∃ entries, answer = .table entries
  text : ∀ found, standing? provider.path answer = some found → found.holds = true →
    ∃ s, found = .text s

namespace Assistant

variable {σ : Type} (a : Assistant)

/-- What was found is an answer only if it counts as something. -/
theorem proper_conclude_found (kept : String) (v : Value) :
    (a.conclude kept (.found v)).1.Proper ↔ (v.holds = true → ∃ s, v = .text s) := by
  rw [conclude]
  split
  · rename_i hholds
    refine ⟨fun ⟨s, hs, _⟩ _ => ⟨s, hs⟩, fun h => ?_⟩
    obtain ⟨s, rfl⟩ := h hholds
    refine ⟨s, rfl, ?_⟩
    rintro rfl
    simp [Value.holds] at hholds
  · rename_i hholds
    exact ⟨fun _ h => absurd h hholds, fun _ => trivial⟩

theorem attemptOf_of_data (provider : Provider) {reply : Reply} {answer : Value}
    (hdata : reply.data = .ok answer) (hnull : answer ≠ .null) :
    attemptOf provider reply =
      match textIn provider answer with
      | .ok v => .found v
      | .error fault =>
        if provider.needsKey then .nothing "unexpected response shape" else .crash fault := by
  unfold attemptOf
  rw [hdata]
  cases answer with
  | null => exact absurd rfl hnull
  | _ => rfl

/-- A service that needs a key: whatever does not lead to the place of the text is a failure. -/
theorem proper_keyed_iff (kept : String) {reply : Reply} {answer : Value}
    (hkey : a.provider.needsKey = true) (hdata : reply.data = .ok answer) (hnull : answer ≠ .null) :
    (a.conclude kept (attemptOf a.provider reply)).1.Proper ↔ Fit a.provider answer := by
  have hneeds : a.provider.needsKey ≠ false := by simp [hkey]
  have htext := toOption_textIn hkey answer
  rw [attemptOf_of_data a.provider hdata hnull]
  cases hfound : textIn a.provider answer with
  | error fault =>
    rw [hfound] at htext
    dsimp only
    rw [if_pos hkey]
    refine iff_of_true trivial ⟨fun h => absurd h hneeds, fun found hat => ?_⟩
    rw [← htext] at hat
    cases hat
  | ok v =>
    rw [hfound] at htext
    refine (proper_conclude_found a kept v).trans ⟨fun h => ⟨fun hno => absurd hno hneeds, ?_⟩, ?_⟩
    · intro found hat
      obtain rfl : v = found := Option.some.inj (htext.trans hat)
      exact h
    · exact fun h => h.text v htext.symm

/-- The service that needs no key: its answer is asked for the text whatever it is, and only a table
can be asked. -/
theorem proper_keyless_iff (kept : String) {reply : Reply} {answer : Value}
    (hprovider : a.provider = .ollama) (hdata : reply.data = .ok answer) (hnull : answer ≠ .null) :
    (a.conclude kept (attemptOf a.provider reply)).1.Proper ↔ Fit a.provider answer := by
  rw [attemptOf_of_data a.provider hdata hnull, hprovider]
  cases answer with
  | table entries =>
    have hplace : standing? Provider.ollama.path (.table entries) =
        Value.find? "response" entries := by
      simp only [Provider.path, standing?, Option.bind_fun_some]
    refine (proper_conclude_found a kept _).trans ⟨fun h => ⟨fun _ => .inr ⟨entries, rfl⟩, ?_⟩, ?_⟩
    · intro found hfound hholds
      rw [hplace] at hfound
      rw [hfound] at h
      exact h hholds
    · intro h hholds
      cases hfound : Value.find? "response" entries with
      | none =>
        rw [hfound] at hholds
        cases hholds
      | some found =>
        rw [hfound] at hholds
        exact h.text found (hplace.trans hfound) hholds
  | null => exact absurd rfl hnull
  | _ =>
    refine iff_of_false id fun h => ?_
    obtain hnone | ⟨entries, htable⟩ := h.table rfl
    · cases hnone
    · cases htable

/-- An answer comes to an explanation as it is meant to be exactly if it is fit. -/
theorem proper_answer_iff (kept : String) {reply : Reply} {answer : Value}
    (hdata : reply.data = .ok answer) :
    (a.conclude kept (attemptOf a.provider reply)).1.Proper ↔ Fit a.provider answer := by
  by_cases hnull : answer = .null
  · -- nothing came, and no path leads into that
    subst hnull
    rw [attemptOf, hdata]
    refine iff_of_true ((proper_conclude_found a kept .null).mpr fun h => by cases h)
      ⟨fun _ => .inl rfl, fun found hfound => ?_⟩
    cases hprovider : a.provider <;> rw [hprovider] at hfound <;> cases hfound
  by_cases hkey : a.provider.needsKey = true
  · exact a.proper_keyed_iff kept hkey hdata hnull
  · refine a.proper_keyless_iff kept ?_ hdata hnull
    cases hprovider : a.provider with
    | ollama => rfl
    | _ => exact absurd (by rw [hprovider]; rfl) hkey

/-- A question is served: if it is sent at all, and an answer comes, then the answer is fit. -/
def Served (exchange : Exchange σ) (prompt : String) (world : σ) : Prop :=
  (a.provider.needsKey && a.apiKey.isEmpty) = false →
    ∀ answer, (exchange (a.request prompt) world).1.data = .ok answer → Fit a.provider answer

/-- An explanation is a text that is not empty or a failure exactly if its question is served. -/
theorem proper_explain_iff (exchange : Exchange σ) (prompt kept : String) (world : σ) :
    (a.explain exchange prompt (kept, world)).1.Proper ↔ a.Served exchange prompt world := by
  unfold explain attempt Served
  dsimp only
  split
  · rename_i hunsent
    exact iff_of_true trivial fun hsent => absurd (hunsent.symm.trans hsent) (by simp)
  · rename_i hsent
    have hsends := Bool.eq_false_iff.mpr hsent
    dsimp only
    cases hdata : (exchange (a.request prompt) world).1.data with
    | error problem =>
      rw [attemptOf, hdata]
      exact iff_of_true trivial fun _ answer hanswer => by cases hanswer
    | ok answer =>
      refine (a.proper_answer_iff kept hdata).trans ⟨fun h _ answer' hanswer => ?_, fun h => ?_⟩
      · obtain rfl : answer = answer' := Except.ok.inj hanswer
        exact h
      · exact h hsends answer rfl

/-- What is handed out counts as something. -/
theorem holds_of_answer {exchange : Exchange σ} {prompt kept : String} {world : σ} {v : Value}
    (h : (a.explain exchange prompt (kept, world)).1 = .answer v) : v.holds = true := by
  unfold explain at h
  dsimp only at h
  cases htried : (a.attempt exchange prompt world).1 with
  | found v' =>
    rw [htried, conclude] at h
    dsimp only at h
    split at h
    · rename_i hholds
      cases h
      exact hholds
    · cases h
  | nothing reason =>
    rw [htried] at h
    cases h
  | crash fault =>
    rw [htried] at h
    cases h

end Assistant

end CodeSearch.Explain

namespace CodeSearch.Engine

open CodeSearch.Explain (Assistant)
open CodeSearch.Service (Exchange)
open CodeSearch.Index (Generation)
open CodeSearch.Search (Query Result)

/-! ## Explanations out of what a question finds -/

section Explainer

variable {σ : Type}

/-- No step of a question changes the explainer. -/
theorem explainer_complete {interrupt : Moment → Engine σ → Engine σ}
    (hinterrupt : ∀ moment e, (interrupt moment e).explainer = e.explainer) (e : Engine σ)
    (i : Inquiry) : (i.complete interrupt e).2.explainer = e.explainer := by
  induction hdistance : i.progress.distance using Nat.strongRecOn generalizing e i with
  | ind distance ih =>
    cases hended : i.ending? with
    | some result =>
      have hprogress : i.progress = .ended result := by
        unfold Inquiry.ending? at hended
        split at hended
        · rename_i hprogress
          rw [hprogress, Option.some.inj hended]
        · cases hended
      rw [complete_of_ended hprogress]
    | none =>
      have hless := Inquiry.distance_step_lt (i.shown interrupt e) i hended
      have hshown : (i.shown interrupt e).explainer = e.explainer := by
        unfold Inquiry.shown
        split
        · exact hinterrupt _ e
        · rfl
      rw [complete_of_step hended, ih _ (hdistance ▸ hless) _ _ rfl,
        (Session.sameOutside_step _ i).explainer, hshown]

theorem explainer_answered {interrupt : Moment → Engine σ → Engine σ}
    (hinterrupt : ∀ moment e, (interrupt moment e).explainer = e.explainer) (e : Engine σ)
    (q : Query) : (e.answered interrupt q).2.explainer = e.explainer := by
  cases hask : e.ask q with
  | error fault => simp only [answered, hask]
  | ok i => rw [(answered_of_ask interrupt hask).2, explainer_complete hinterrupt]

/-- What is given for a prompt is a text exactly if the prompt is served. -/
theorem explained_text_iff {exchange : Exchange σ} {a : Assistant} {e : Engine (String × σ)}
    (hexplainer : e.explainer = some (a.explain exchange)) (found prompt failing failed : String) :
    (∃ s, (e.explained found prompt failing failed).1 = .ok (.text s)) ↔
      a.Served exchange prompt e.world.2 := by
  rw [← a.proper_explain_iff exchange prompt e.world.1 e.world.2]
  unfold explained
  rw [hexplainer]
  dsimp only
  cases houtcome : (a.explain exchange prompt e.world).1 with
  | answer v =>
    have hholds := a.holds_of_answer houtcome
    constructor
    · rintro ⟨s, hs⟩
      obtain rfl : v = .text s := Except.ok.inj hs
      refine ⟨s, rfl, ?_⟩
      rintro rfl
      simp [Value.holds] at hholds
    · rintro ⟨s, rfl, -⟩
      exact ⟨s, rfl⟩
  | failure reason => exact iff_of_true ⟨_, rfl⟩ trivial
  | crash fault =>
    refine iff_of_false ?_ id
    rintro ⟨s, hs⟩
    cases hs

/-- If what is given for a question is what is given for a prompt made of its answer, then it is a text
exactly if the question is answered and the prompt is served. -/
theorem text_of_answer_iff {exchange : Exchange σ} {a : Assistant}
    {answer : Except InquiryFault (Generation × List Result) × Engine (String × σ)}
    (hexplainer : answer.2.explainer = some (a.explain exchange))
    {given : Except InquiryFault Value} {prompt : Generation → List Result → String}
    (hfault : ∀ fault after, answer = (.error fault, after) → given = .error fault)
    (hfound : ∀ g results after, answer = (.ok (g, results), after) →
      ∃ found failing failed, given = (after.explained found (prompt g results) failing failed).1) :
    (∃ s, given = .ok (.text s)) ↔
      ∃ g results after, answer = (.ok (g, results), after) ∧
        a.Served exchange (prompt g results) after.world.2 := by
  obtain ⟨outcome, after⟩ := answer
  cases outcome with
  | error fault =>
    refine iff_of_false ?_ ?_
    · rintro ⟨s, hs⟩
      rw [hfault fault after rfl] at hs
      cases hs
    · rintro ⟨g, results, _, hok, _⟩
      simp at hok
  | ok came =>
    obtain ⟨g, results⟩ := came
    obtain ⟨found, failing, failed, rfl⟩ := hfound g results after rfl
    refine (explained_text_iff hexplainer _ _ _ _).trans ⟨fun h => ⟨g, results, after, rfl, h⟩, ?_⟩
    rintro ⟨g', results', after', heq, h⟩
    simp only [Prod.mk.injEq, Except.ok.injEq] at heq
    obtain ⟨⟨rfl, rfl⟩, rfl⟩ := heq
    exact h

end Explainer

/-- What an assistant gives is a text that is not empty or a failure exactly if the question is served:
whatever service it is, whatever is sent, and whatever comes back. So an explanation of what a question
finds, and an answer out of more chunks, are texts exactly if the question is answered and its prompt
is served; nothing else that goes wrong with the service breaks them. -/
theorem explanations_proper_iff {σ : Type} (exchange : Exchange σ) (a : Assistant) :
    (∀ prompt kept world,
      (a.explain exchange prompt (kept, world)).1.Proper ↔ a.Served exchange prompt world) ∧
    ∀ (e : Engine (String × σ)) (interrupt : Moment → Engine (String × σ) → Engine (String × σ))
      (question : Option String), e.explainer = some (a.explain exchange) →
      (∀ moment e, (interrupt moment e).explainer = e.explainer) →
      (∀ withContext, (∃ s, (e.explain interrupt question withContext).1 = .ok (.text s)) ↔
        ∃ g results after,
          e.answered interrupt { text := question, threshold := .real 0.6, limit := 5 } =
            (.ok (g, results), after) ∧
          a.Served exchange (explanationPrompt (question.getD "")
            (Search.resultsText results withContext)) after.world.2) ∧
      ((∃ s, (e.insight interrupt question).1 = .ok (.text s)) ↔
        ∃ g results after,
          e.answered interrupt { text := question, threshold := .real 0.5, limit := 10 } =
            (.ok (g, results), after) ∧
          a.Served exchange (insightPrompt (question.getD "") (Search.resultsText results false)
            (Analysis.patterns g.chunks).text g.chunks.length) after.world.2) := by
  refine ⟨a.proper_explain_iff exchange, fun e interrupt question hexplainer hinterrupt => ⟨?_, ?_⟩⟩
  · intro withContext
    refine text_of_answer_iff ((explainer_answered hinterrupt e _).trans hexplainer)
      (fun fault after hanswer => ?_) (fun g results after hanswer => ?_)
    · unfold explain
      rw [hanswer]
    · unfold explain
      rw [hanswer]
      exact ⟨_, _, _, rfl⟩
  · refine text_of_answer_iff ((explainer_answered hinterrupt e _).trans hexplainer)
      (fun fault after hanswer => ?_) (fun g results after hanswer => ?_)
    · unfold insight
      rw [hanswer]
    · unfold insight
      rw [hanswer]
      exact ⟨_, _, _, rfl⟩

/-! ### A service that needs no key -/

/-- A service that always answers with the same data. -/
def replying (answer : Value) : Exchange Unit :=
  fun _ world => (.answer 200 (.data answer), world)

/-- An assistant that needs no key. -/
def keyless : Assistant := ⟨.ollama, "qwen2.5-coder:7b", "", "http://localhost:11434/api/generate"⟩

/-- An engine for a directory with one import, without vectors, that asks such a service. -/
def explaining (answer : Value) : Engine (String × Unit) :=
  let tree : Tree.Node := ⟨"program", 0, 11, true, false, false, "", [Session.importNode 0 11]⟩
  Engine.new { vectorUri := "" } ⟨fun _ => none, fun _ _ => tree⟩ none
    (some (keyless.explain (replying answer))) false "session" (fun _ => none) {}
    ⟨⟨1, []⟩, .directory [("a.js", .file (Text.encode "import 'x';".toList))]⟩ ("", ())

/-- The same engine when it has indexed the directory. -/
def explainingImport (answer : Value) : Engine (String × Unit) :=
  (Session.after (explaining answer) (Session.indexing 0 11)).engine

theorem exists_ok_of_isSome {ε α β : Type} {x : Except ε α × β} (h : x.1.toOption.isSome = true) :
    ∃ a b, x = (.ok a, b) := by
  obtain ⟨outcome, b⟩ := x
  cases outcome with
  | error fault => cases h
  | ok a => exact ⟨a, b, rfl⟩

/-- An answer that is no table breaks the assistant, and the explanation of a question that makes sense
when the index is ready; a number in the place of the text is handed out. -/
theorem not_proper_of_list :
    ¬ (keyless.explain (replying (.list [])) "why" ("", ())).1.Proper ∧
      ¬ (keyless.explain (replying (.table [("response", .int 5)])) "why" ("", ())).1.Proper ∧
      (explainingImport (.list [])).ready.toOption.isSome = true ∧
      ∀ s, ((explainingImport (.list [])).explain (fun _ e => e) (some "x") true).1 ≠
        .ok (.text s) := by
  refine ⟨id, ?_, by decide +kernel, ?_⟩
  · rintro ⟨s, hs, -⟩
    cases hs
  · have hbroken : ((explainingImport (.list [])).explain (fun _ e => e) (some "x") true
        ).1.toOption.isNone = true := by
      decide +kernel
    intro s hs
    rw [hs] at hbroken
    cases hbroken

/-- A text in its place is handed out, and so explains the import. -/
theorem explanations_proper_iff_response :
    ∃ s, ((explainingImport (.table [("response", .text "because")])).explain (fun _ e => e)
      (some "x") true).1 = .ok (.text s) := by
  let answer : Value := .table [("response", .text "because")]
  have hexplainer : (explainingImport answer).explainer = some (keyless.explain (replying answer)) := by
    rw [explainingImport, (Session.sameOutside_after _ _).explainer]
    rfl
  have hfit : Explain.Fit .ollama answer := by
    refine ⟨fun _ => .inr ⟨_, rfl⟩, fun found hfound _ => ⟨"because", ?_⟩⟩
    exact (Option.some.inj hfound).symm
  have hserved : ∀ prompt world, keyless.Served (replying answer) prompt world := by
    intro prompt world _ answer' hanswer
    obtain rfl : answer = answer' := Except.ok.inj hanswer
    exact hfit
  obtain ⟨-, hexplained⟩ := explanations_proper_iff (replying answer) keyless
  obtain ⟨hexplain, -⟩ := hexplained (explainingImport answer) (fun _ e => e) (some "x") hexplainer
    fun _ _ => rfl
  have hanswered : ((explainingImport answer).answered (fun _ e => e)
      { text := some "x", threshold := .real 0.6, limit := 5 }).1.toOption.isSome = true := by
    decide +kernel
  obtain ⟨found, after, hcame⟩ := exists_ok_of_isSome hanswered
  exact (hexplain true).mpr ⟨found.1, found.2, after, hcame, hserved _ _⟩

end CodeSearch.Engine

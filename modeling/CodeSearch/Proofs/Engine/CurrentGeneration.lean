import CodeSearch.Proofs.Engine.Accounts

/-!
Which generation is current, and which one a reader gets.

Main statement: in every proper history of a holder a publication swaps its generation in exactly if
no later build has begun, a build that is overtaken stays overtaken, the current number only grows,
the count of builds under way is right, and a reader is given the newest generation there is, once
nothing is under way. A question to an engine is such a reader, so one that is put after a build has
returned a summary that is not marked as discarded is never answered from an older generation.
-/
set_option autoImplicit false

namespace CodeSearch.Index.Traffic

open CodeSearch.Engine (Session Inquiry Build)

theorem wake_served {past : History} {i : Nat} {g : Generation}
    (hwaiting : (after past).readers[i]? = some .waiting) (hserves : (after past).holder.Serves g) :
    (after (.wake i :: past)).readers[i]? = some (.done (.ok g)) := by
  have hwake : (after past).holder.wake .waiting = .done (.ok g) :=
    Holder.wake_eq_ok.mpr (Or.inr ⟨rfl, hserves⟩)
  rw [after, step, List.getElem?_modify, hwaiting]
  simp [hwake]

/-- A step that gives a reader its generation gives it the newest one that was ever swapped in. -/
theorem served_newest {past : History} {e : Event} (hproper : Proper (e :: past)) {i : Nat}
    {g : Generation} (hbefore : (after past).readers[i]? ≠ some (.done (.ok g)))
    (hserved : (after (e :: past)).readers[i]? = some (.done (.ok g))) :
    unfinished (e :: past) = [] ∧ (after (e :: past)).holder.current = some g ∧
      ∀ later earlier g', e :: past = later ++ earlier →
        (after earlier).holder.current = some g' → g'.number ≤ g.number := by
  rw [after] at hserved
  -- the reader did not have it before, so the holder serves it now
  have hserves : (after (e :: past)).holder.Serves g :=
    (served_step hserved).resolve_left hbefore
  obtain ⟨hquiet, -, hnewest⟩ := serves_newest hproper hserves
  refine ⟨hquiet, hserves.2, ?_⟩
  intro later earlier g' hsplit hcurrent
  rw [hsplit] at hproper hnewest
  have hmem := mem_swapped_of_current hproper.of_append hcurrent
  exact hnewest g' ((swapped_suffix later earlier).subset hmem)

/-- Builds and readers in any order. The clauses are, in this order: what a publication does, what
being overtaken means, how the current generation moves, which one is kept beside it, what is
counted, what readers get, and what that means for calls to an engine. -/
theorem newest_build_is_current {past : History} (hproper : Proper past) :
    (∀ g : Generation, g.number ∈ unfinished past →
      (((after past).holder.publish g).1 = true ↔ ∀ n ∈ handed past, n ≤ g.number) ∧
      ((after (.publish g :: past)).holder.current = some g ↔ ∀ n ∈ handed past, n ≤ g.number)) ∧
    (∀ (later : History) (n : Int), n ∈ handed past → (after past).holder.isStale n = true →
      (after (later ++ past)).holder.isStale n = true) ∧
    (∀ e : Event, Proper (e :: past) →
      (after (e :: past)).holder.current ≠ (after past).holder.current →
        ∃ g, e = .publish g ∧ (after (e :: past)).holder.current = some g ∧
          ∀ c, (after past).holder.current = some c → c.number < g.number) ∧
    (∀ p : Generation, (after past).holder.previous = some p →
      ∃ c, (after past).holder.current = some c ∧ p.number < c.number) ∧
    (after past).holder.underWay = (unfinished past).length ∧
    ((after past).holder.state = .indexing ↔ unfinished past ≠ []) ∧
    (∀ (e : Event) (i : Nat) (g : Generation), Proper (e :: past) →
      (after past).readers[i]? ≠ some (.done (.ok g)) →
        (after (e :: past)).readers[i]? = some (.done (.ok g)) →
          unfinished (e :: past) = [] ∧ (after (e :: past)).holder.current = some g ∧
            ∀ later earlier g', e :: past = later ++ earlier →
              (after earlier).holder.current = some g' → g'.number ≤ g.number) ∧
    (∀ (i : Nat) (g : Generation), (after past).readers[i]? = some .waiting →
      unfinished past = [] → (after past).holder.current = some g →
        (after (.wake i :: past)).readers[i]? = some (.done (.ok g))) ∧
    (∀ {σ : Type} (engine : Engine σ), engine.holder = {} →
      ∀ (later earlier : List Engine.Action) (b : Build σ) (summary : Summary),
        b ∈ (Session.after engine earlier).builds → b.ending? = some (.ok summary) →
          summary.discarded = false →
            ∀ (asker : Nat) (i : Inquiry), (Session.after engine earlier).askers.length ≤ asker →
              (Session.after engine (later ++ earlier)).askers[asker]? = some (.served i) →
                (summary.generation : Int) ≤ i.generation.number) := by
  have hkept := consistent hproper
  refine ⟨?_, ?_, ?_, ?_, hkept.underWay_eq, state_eq_indexing_iff hproper, ?_, ?_, ?_⟩
  · intro g hg
    have hlargest := eq_latest_iff hproper (hkept.handed_of_unfinished _ hg)
    exact ⟨publish_fst.trans hlargest, (publish_current_iff hproper hg).trans hlargest⟩
  · intro later n hn hstale
    exact isStale_append hproper hn hstale
  · intro e hnext hchange
    obtain ⟨g, he, hcurrent, -, hgrown⟩ := current_step hnext hchange
    exact ⟨g, he, hcurrent, hgrown⟩
  · intro p hp
    exact previous_lt_current hproper hp
  · intro e i g hnext hbefore hserved
    exact served_newest hnext hbefore hserved
  · -- with nothing under way the holder serves what is current
    intro i g hwaiting hquiet hcurrent
    refine wake_served hwaiting ⟨?_, hcurrent⟩
    rw [hkept.underWay_eq, hquiet]; rfl
  · intro σ engine hfresh later earlier b summary hb hended hnot asker i hnew hserved
    exact Session.generation_le_of_asked_later hfresh hb hended hnot hnew hserved

/-- A generation without chunks. -/
def bare (number : Int) : Generation :=
  { number := number, chunks := [], lexical := ⟨[]⟩ }

/-- Two builds of which the first one ends last, and a reader that comes before either ends. -/
def overtaken : History :=
  [.publish (bare 1), .publish (bare 2), .arrive, .begin, .begin]

/-- The reader gets the generation of the second build, though that of the first came later. -/
theorem newest_build_is_current_overtaken :
    Proper overtaken ∧ (after overtaken).holder.current = some (bare 2) ∧
      (after overtaken).holder.isStale 1 = true ∧ (after overtaken).holder.state ≠ .indexing ∧
        (after (.wake 0 :: overtaken)).readers[0]? = some (.done (.ok (bare 2))) := by
  have hproper : Proper overtaken := by
    refine ⟨?_, ?_, trivial⟩ <;> decide
  obtain ⟨-, -, -, -, -, hstate, -, hwake, -⟩ := newest_build_is_current hproper
  have hquiet : unfinished overtaken = [] := by decide
  refine ⟨hproper, rfl, by decide, ?_, hwake 0 (bare 2) rfl hquiet rfl⟩
  rw [ne_eq, hstate, hquiet]
  exact fun h => h rfl

end CodeSearch.Index.Traffic

import CodeSearch.Proofs.Index.Traffic
import Mathlib.Data.List.Nodup

/-!
Where the generations go that are published.

A publication moves at most three generations: the new one becomes the current one, the current one
the previous one, and the previous one is handed back to be retired. One that comes too late is
handed back itself. Nothing is lost and nothing doubled on the way, whatever the order of events
(`published_perm`); that every generation is in one place only is then a matter of the numbers,
each of which one build ends with.
-/
set_option autoImplicit false

namespace CodeSearch.Index.Traffic

/-! ## What a history has seen -/

/-- The generations that were passed to a publication, the latest first. -/
def published : History → List Generation
  | [] => []
  | .publish g :: past => g :: published past
  | _ :: past => published past

/-- The numbers that builds ended with, the latest first. -/
def ended : History → List Int
  | [] => []
  | .publish g :: past => g.number :: ended past
  | .abort number :: past => number :: ended past
  | _ :: past => ended past

/-- What publications handed back to be retired, the latest first. -/
def retired : History → List Generation
  | [] => []
  | .publish g :: past => ((after past).holder.publish g).2.1 ++ retired past
  | _ :: past => retired past

/-- Every generation that is published has a number that was handed out once and that one build
ended with. -/
def EndsOnce (run : History) : Prop :=
  ∀ g ∈ published run, (handed run).count g.number = 1 ∧ (ended run).count g.number = 1

/-- A generation was handed back by the publication that came next after some moment. -/
def RetiredBy (past moment : History) (g : Generation) : Prop :=
  ∃ later new, past = later ++ .publish new :: moment ∧
    g ∈ ((after moment).holder.publish new).2.1

/-- The publication that came next after some moment swapped its generation in, and between an
earlier moment and that one there was one other that did. -/
def SecondSwap (past earlier moment : History) : Prop :=
  ∃ later new, past = later ++ .publish new :: moment ∧
    ((after moment).holder.publish new).1 = true ∧ earlier <:+ moment ∧
      (swapped moment).length = (swapped earlier).length + 1

/-- Where a generation can be once it is published. -/
inductive Place where
  | current
  | previous
  | retired

def IsAt (past : History) (g : Generation) : Place → Prop
  | .current => (after past).holder.current = some g
  | .previous => (after past).holder.previous = some g
  | .retired => g ∈ retired past

variable {past : History}

/-! ## Nothing is lost -/

theorem publish_swap_retired {h : Holder} {g : Generation} (hg : g.number = h.latest) :
    (h.publish g).2.1 = h.previous.toList := by
  rw [Holder.publish, if_pos hg]

theorem publish_stale_retired {h : Holder} {g : Generation} (hg : g.number ≠ h.latest) :
    (h.publish g).2.1 = [g] := by
  rw [Holder.publish, if_neg hg]

/-- Every generation that was published is the current one, the previous one, or was handed back. -/
theorem published_perm (past : History) :
    (published past).Perm ((after past).holder.current.toList ++
      (after past).holder.previous.toList ++ retired past) := by
  induction past with
  | nil => exact List.Perm.refl _
  | cons e past ih =>
    cases e with
    | publish g =>
      rw [published, retired, after, step]
      by_cases hlatest : g.number = (after past).holder.latest
      · -- the three that move keep their order
        rw [publish_swap_retired hlatest, publish_swap hlatest]
        simpa [List.append_assoc] using ih.cons g
      · rw [publish_stale_retired hlatest, publish_stale hlatest]
        exact (ih.cons g).trans List.perm_middle.symm
    | _ => exact ih

theorem published_sublist_append (later past : History) :
    (published past).Sublist (published (later ++ past)) := by
  induction later with
  | nil => exact List.Sublist.refl _
  | cons e later ih =>
    cases e with
    | publish g => exact ih.cons g
    | _ => exact ih

theorem map_number_published_sublist (past : History) :
    ((published past).map (·.number)).Sublist (ended past) := by
  induction past with
  | nil => exact List.Sublist.refl _
  | cons e past ih =>
    cases e with
    | publish g => exact ih.cons_cons g.number
    | abort number => exact ih.cons number
    | _ => exact ih

/-- No two generations that are published have the same number. -/
theorem EndsOnce.nodup {run : History} (h : EndsOnce run) {later : History}
    (hrun : run = later ++ past) : ((published past).map (·.number)).Nodup := by
  have hsub := map_number_published_sublist run
  have hwhole : ((published run).map (·.number)).Nodup := by
    rw [List.nodup_iff_count]
    intro n
    by_cases hn : n ∈ (published run).map (·.number)
    · obtain ⟨g, hg, rfl⟩ := List.mem_map.mp hn
      exact (hsub.count_le _).trans (h g hg).2.le
    · rw [List.count_eq_zero_of_not_mem hn]
      exact Nat.zero_le 1
  subst hrun
  exact hwhole.sublist ((published_sublist_append later past).map _)

/-! ## Which publication hands a generation back -/

theorem retiredBy_cons_iff (e : Event) (past moment : History) (g : Generation) :
    RetiredBy (e :: past) moment g ↔
      (moment = past ∧ ∃ new, e = .publish new ∧ g ∈ ((after past).holder.publish new).2.1) ∨
        RetiredBy past moment g := by
  constructor
  · rintro ⟨later, new, hsplit, hg⟩
    cases later with
    | nil =>
      obtain ⟨rfl, rfl⟩ := List.cons.inj hsplit
      exact Or.inl ⟨rfl, new, rfl, hg⟩
    | cons first later =>
      obtain ⟨-, rfl⟩ := List.cons.inj hsplit
      exact Or.inr ⟨later, new, rfl, hg⟩
  · rintro (⟨rfl, new, rfl, hg⟩ | ⟨later, new, rfl, hg⟩)
    · exact ⟨[], new, rfl, hg⟩
    · exact ⟨e :: later, new, rfl, hg⟩

theorem mem_retired_iff (past : History) (g : Generation) :
    g ∈ retired past ↔ ∃ moment, RetiredBy past moment g := by
  induction past with
  | nil => simp [retired, RetiredBy]
  | cons e past ih =>
    simp only [retiredBy_cons_iff, exists_or, exists_eq_left, ← ih]
    cases e with
    | publish new => simp [retired]
    | _ => simp [retired]

/-- With nothing handed back twice, one publication hands a generation back. -/
theorem retiredBy_unique (hnodup : (retired past).Nodup) {g : Generation} {moment other : History}
    (hmoment : RetiredBy past moment g) (hother : RetiredBy past other g) : moment = other := by
  induction past with
  | nil =>
    obtain ⟨later, new, hsplit, -⟩ := hmoment
    exact absurd hsplit.symm (by simp)
  | cons e past ih =>
    rw [retiredBy_cons_iff] at hmoment hother
    -- the latest event hands nothing back that was handed back before
    have hdisjoint : ∀ new, e = .publish new → g ∈ ((after past).holder.publish new).2.1 →
        ¬ ∃ m, RetiredBy past m g := by
      rintro new rfl hg hbefore
      rw [← mem_retired_iff] at hbefore
      exact (List.nodup_append.mp hnodup).2.2 g hg g hbefore rfl
    have hpast : (retired past).Nodup := by
      cases e with
      | publish new => exact (List.nodup_append.mp hnodup).2.1
      | _ => exact hnodup
    rcases hmoment with ⟨rfl, new, hnew, hg⟩ | hmoment
    · rcases hother with ⟨rfl, -⟩ | hother
      · rfl
      · exact absurd ⟨other, hother⟩ (hdisjoint new hnew hg)
    · rcases hother with ⟨rfl, new, hnew, hg⟩ | hother
      · exact absurd ⟨moment, hmoment⟩ (hdisjoint new hnew hg)
      · exact ih hpast hmoment hother

/-! ## One place for each generation -/

theorem mem_published_iff (past : History) (g : Generation) :
    g ∈ published past ↔ .publish g ∈ past := by
  induction past with
  | nil => simp [published]
  | cons e past ih =>
    cases e with
    | publish new => simp [published, ih]
    | _ => simp [published, ih]

theorem mem_published_iff_isAt (past : History) (g : Generation) :
    g ∈ published past ↔ ∃ place, IsAt past g place := by
  rw [(published_perm past).mem_iff, List.mem_append, List.mem_append, Option.mem_toList,
    Option.mem_toList]
  constructor
  · rintro ((hcurrent | hprevious) | hretired)
    · exact ⟨.current, hcurrent⟩
    · exact ⟨.previous, hprevious⟩
    · exact ⟨.retired, hretired⟩
  · rintro ⟨_ | _ | _, hat⟩
    · exact Or.inl (Or.inl hat)
    · exact Or.inl (Or.inr hat)
    · exact Or.inr hat

theorem retired_nodup (hnodup : (published past).Nodup) : (retired past).Nodup :=
  (List.nodup_append.mp ((published_perm past).nodup_iff.mp hnodup)).2.1

theorem isAt_unique (hnodup : (published past).Nodup) {g : Generation} {place other : Place}
    (hplace : IsAt past g place) (hother : IsAt past g other) : place = other := by
  -- the three places are three parts of a list without repetition
  rw [(published_perm past).nodup_iff, List.nodup_append, List.nodup_append] at hnodup
  obtain ⟨⟨-, -, hkept⟩, -, hback⟩ := hnodup
  have hkept : IsAt past g .current → ¬ IsAt past g .previous := fun hc hp =>
    hkept g (Option.mem_toList.mpr hc) g (Option.mem_toList.mpr hp) rfl
  have hback : IsAt past g .retired → ¬ IsAt past g .current ∧ ¬ IsAt past g .previous := fun hr =>
    ⟨fun hc => hback g (List.mem_append_left _ (Option.mem_toList.mpr hc)) g hr rfl,
      fun hp => hback g (List.mem_append_right _ (Option.mem_toList.mpr hp)) g hr rfl⟩
  cases place <;> cases other <;> grind

/-- A generation that is published once is published at one moment. -/
theorem moment_unique (hnodup : (published past).Nodup) {g : Generation}
    {later later' earlier earlier' : History} (hsplit : past = later ++ .publish g :: earlier)
    (hsplit' : past = later' ++ .publish g :: earlier') : earlier = earlier' := by
  induction past generalizing later later' with
  | nil => exact absurd hsplit.symm (by simp)
  | cons e past ih =>
    -- a generation that the latest event publishes was not published before
    have hnew : ∀ rest before, e = .publish g → past ≠ rest ++ .publish g :: before := by
      rintro rest before rfl rfl
      refine (List.nodup_cons.mp hnodup).1 ((mem_published_iff _ g).mpr ?_)
      exact List.mem_append_right _ List.mem_cons_self
    have hpast : (published past).Nodup := hnodup.sublist (published_sublist_append [e] past)
    cases later with
    | nil =>
      obtain ⟨rfl, rfl⟩ := List.cons.inj hsplit
      cases later' with
      | nil => exact (List.cons.inj hsplit').2
      | cons first' later' => exact absurd (List.cons.inj hsplit').2 (hnew _ _ rfl)
    | cons first later =>
      cases later' with
      | nil =>
        obtain ⟨rfl, rfl⟩ := List.cons.inj hsplit'
        exact absurd (List.cons.inj hsplit).2 (hnew _ _ rfl)
      | cons first' later' =>
        exact ih hpast (List.cons.inj hsplit).2 (List.cons.inj hsplit').2

/-! ## When a generation is handed back -/

/-- A generation that comes too late is handed back by its own publication. -/
theorem retiredBy_stale_iff (hnodup : (published past).Nodup) {g : Generation}
    {later earlier : History} (hsplit : past = later ++ .publish g :: earlier)
    (hstale : ((after earlier).holder.publish g).1 = false) (moment : History) :
    RetiredBy past moment g ↔ moment = earlier := by
  have hown : RetiredBy past earlier g := by
    refine ⟨later, g, hsplit, ?_⟩
    rw [publish_stale_retired (mt publish_fst.mpr (by simp [hstale]))]
    exact List.mem_singleton_self g
  constructor
  · intro hmoment
    exact retiredBy_unique (retired_nodup hnodup) hmoment hown
  · rintro rfl
    exact hown

theorem swapped_sublist_published (past : History) : (swapped past).Sublist (published past) := by
  induction past with
  | nil => exact List.Sublist.refl _
  | cons e past ih =>
    rcases swapped_cons e past with hsame | ⟨g, rfl, hnew⟩
    · rw [hsame]
      exact ih.trans (published_sublist_append [e] past)
    · rw [hnew, published]
      exact ih.cons_cons g

/-- A generation that was swapped in is handed back by the second that is swapped in after it. -/
theorem retiredBy_swapped_iff (hnodup : (published past).Nodup) {g : Generation}
    {later earlier : History} (hsplit : past = later ++ .publish g :: earlier)
    (hswap : ((after earlier).holder.publish g).1 = true) (moment : History) :
    RetiredBy past moment g ↔ SecondSwap past (.publish g :: earlier) moment := by
  have hown : swapped (.publish g :: earlier) = g :: swapped earlier := by
    rw [swapped, if_pos hswap]
  constructor
  · rintro ⟨rest, new, hmoment, hback⟩
    by_cases hlatest : new.number = (after moment).holder.latest
    · refine ⟨rest, new, hmoment, publish_fst.mpr hlatest, ?_⟩
      rw [publish_swap_retired hlatest, Option.mem_toList, (kept_eq_swapped moment).2] at hback
      -- what was swapped in was published, and that happened at one moment
      obtain ⟨between, before, hbefore⟩ := List.append_of_mem
        (publish_mem_of_mem_swapped (List.mem_of_getElem? hback))
      have hsplit' : past = (rest ++ .publish new :: between) ++ .publish g :: before := by
        simp [hmoment, hbefore]
      have hsame : before = earlier := moment_unique hnodup hsplit' hsplit
      subst hsame
      have hsuffix : .publish g :: before <:+ moment := ⟨between, hbefore.symm⟩
      refine ⟨hsuffix, ?_⟩
      -- it stands at one place among those that were swapped in, the second one
      obtain ⟨newer, hnewer⟩ := hbefore ▸ swapped_suffix between (.publish g :: before)
      have hmomentNodup : (swapped moment).Nodup := by
        have hpub := (published_sublist_append (rest ++ [.publish new]) moment)
        refine (hnodup.sublist ?_).sublist (swapped_sublist_published moment)
        simpa [hmoment] using hpub
      have hthere : (swapped moment)[newer.length]? = some g := by
        rw [← hnewer, List.getElem?_append_right (Nat.le_refl _), Nat.sub_self, hown]
        rfl
      have hplace : newer.length = 1 :=
        (List.getElem?_inj (List.getElem?_eq_some_iff.mp hthere).1 hmomentNodup).mp
          (hthere.trans hback.symm)
      rw [← hnewer, List.length_append, hplace, Nat.add_comm]
    · -- one that comes too late hands itself back, and then it was not swapped in
      rw [publish_stale_retired hlatest, List.mem_singleton] at hback
      subst hback
      have hsame := moment_unique hnodup hmoment hsplit
      subst hsame
      exact absurd (publish_fst.mp hswap) hlatest
  · rintro ⟨rest, new, hmoment, hnew, ⟨between, hbetween⟩, hlength⟩
    refine ⟨rest, new, hmoment, ?_⟩
    rw [publish_swap_retired (publish_fst.mp hnew), Option.mem_toList, (kept_eq_swapped moment).2]
    obtain ⟨newer, hnewer⟩ := hbetween ▸ swapped_suffix between (.publish g :: earlier)
    obtain ⟨next, rfl⟩ : ∃ next, newer = [next] := by
      rw [← List.length_eq_one_iff]
      rw [← hnewer, List.length_append] at hlength
      omega
    rw [← hnewer, hown]
    rfl

/-- Publications keep every generation at one place. When builds end once, with the number that
they were given, then at any moment of the run what was published is the current generation or the
previous one or was handed back, and no two of these. It is handed back once: by its own
publication if that came too late, and otherwise by the second one after it that succeeds. -/
theorem published_in_one_place {run later past : History} (hends : EndsOnce run)
    (hrun : run = later ++ past) :
    (∀ g, g ∈ published past ↔ ∃! place, IsAt past g place) ∧
      (retired past).Nodup ∧
      (∀ g, IsAt past g .retired ↔ ∃! moment, RetiredBy past moment g) ∧
      ∀ between g earlier, past = between ++ .publish g :: earlier →
        (((after earlier).holder.publish g).1 = true → ∀ moment,
          RetiredBy past moment g ↔ SecondSwap past (.publish g :: earlier) moment) ∧
        (((after earlier).holder.publish g).1 = false → ∀ moment,
          RetiredBy past moment g ↔ moment = earlier) := by
  have hnodup : (published past).Nodup := List.Nodup.of_map _ (hends.nodup hrun)
  refine ⟨?_, retired_nodup hnodup, ?_, ?_⟩
  · intro g
    rw [mem_published_iff_isAt]
    constructor
    · rintro ⟨place, hat⟩
      exact ⟨place, hat, fun other hother => isAt_unique hnodup hother hat⟩
    · exact ExistsUnique.exists
  · intro g
    rw [IsAt, mem_retired_iff]
    constructor
    · rintro ⟨moment, hmoment⟩
      exact ⟨moment, hmoment, fun other hother =>
        retiredBy_unique (retired_nodup hnodup) hother hmoment⟩
    · exact ExistsUnique.exists
  · intro between g earlier hsplit
    exact ⟨retiredBy_swapped_iff hnodup hsplit, retiredBy_stale_iff hnodup hsplit⟩

/-- A generation that holds nothing but its number. -/
def numbered (number : Int) : Generation :=
  { number := number, chunks := [], lexical := ⟨[]⟩ }

/-- Four builds, of which the second ends after the third has begun. -/
def oneLate : History :=
  [.publish (numbered 4), .begin, .publish (numbered 3), .publish (numbered 2), .begin, .begin,
    .publish (numbered 1), .begin]

/-- The fourth publication hands the first generation back, and the late one its own. -/
theorem published_in_one_place_oneLate :
    EndsOnce oneLate ∧ (∃! place, IsAt oneLate (numbered 1) place) ∧
      RetiredBy oneLate (oneLate.drop 1) (numbered 1) ∧
        ∀ moment, RetiredBy oneLate moment (numbered 2) ↔ moment = oneLate.drop 4 := by
  have hends : EndsOnce oneLate := by
    unfold EndsOnce
    decide
  have hrun : oneLate = [] ++ oneLate := rfl
  obtain ⟨hplaces, -, -, hback⟩ := published_in_one_place hends hrun
  refine ⟨hends, (hplaces _).mp (by simp [oneLate, published]), ?_, ?_⟩
  · obtain ⟨hswapped, -⟩ := hback (oneLate.take 6) (numbered 1) [.begin] rfl
    refine (hswapped (by decide) _).mpr ⟨[], numbered 4, rfl, by decide, ?_, by decide⟩
    exact ⟨[.begin, .publish (numbered 3), .publish (numbered 2), .begin, .begin], rfl⟩
  · exact (hback (oneLate.take 3) (numbered 2) (oneLate.drop 4) rfl).2 (by decide)

end CodeSearch.Index.Traffic

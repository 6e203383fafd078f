import CodeSearch.Proofs.Engine.Stowing

/-!
What is left in the database when an engine is closed.

Between two calls each table of an engine is in one place: it is that of the current generation or
of the previous one, or it is stranded, since nothing could be dropped when its generation was
retired (`Stowed`). To close the engine is to drop them all, but only while the store serves. One
search or write that fails is enough that it does not serve any more, and whatever works again later,
the tables that are there stay in the database then (`emptied_close_iff`).
-/
set_option autoImplicit false

namespace CodeSearch.Engine

open CodeSearch.Index (Generation Holder)
open CodeSearch.Search (Query)
open CodeSearch.Vector (VectorIndex)
open Session (SameServices)

variable {σ : Type}

/-! ## Generations that are stranded -/

/-- The generation that a call retires. -/
def retiredBy (e : Engine σ) : Call σ → Option Generation
  | .index path =>
    match (e.index undisturbed path).1 with
    | .ok _ => e.holder.previous
    | .error _ => none
  | _ => none

/-- The generations that a call retires, but cannot drop the tables of. -/
def strandedBy (e : Engine σ) (call : Call σ) : List Generation :=
  if e.database.canDrop then [] else (e.retiredBy call).toList

theorem strandedBy_index (e : Engine σ) (path : String) :
    e.strandedBy (.index path) =
      match (e.index undisturbed path).1 with
      | .ok _ => if e.database.canDrop then [] else e.holder.previous.toList
      | .error _ => [] := by
  unfold strandedBy retiredBy
  dsimp only
  cases (e.index undisturbed path).1 with
  | ok summary => rfl
  | error fault => exact ite_self []

/-- The generations that some calls have retired, but could not drop the tables of. -/
def stranded (e : Engine σ) : List (Call σ) → List Generation
  | [] => []
  | call :: past => (e.afterCalls past).strandedBy call ++ e.stranded past

/-- Nobody outside changes the tables of the engine between its calls. -/
def LeavesTables (e : Engine σ) : List (Call σ) → Prop
  | [] => True
  | .outside database _ :: past => e.LeavesTables past ∧
    ∀ name, e.owns name = true → database.rows? name = (e.afterCalls past).database.rows? name
  | _ :: past => e.LeavesTables past

/-! ## Between two calls -/

/-- Where the tables of an engine are between two calls. -/
structure Stowed (home e : Engine σ) (lost : List Generation) : Prop where
  services : SameServices home e
  holding : Holding home e.database (kept e.holder ++ lost)
  names : ∀ g ∈ kept e.holder ++ lost, NamesTable home g ∧ g.number ≤ e.holder.latest
  distinct : ((kept e.holder ++ lost).map (·.number)).Nodup

namespace Stowed

variable {home e : Engine σ} {lost : List Generation}

/-- That stays so while no build comes to its end and nobody changes the tables. -/
theorem of_same (h : Stowed home e lost) {after : Engine σ} (hservices : SameServices e after)
    (hholder : after.holder = e.holder)
    (htables : ∀ name, home.owns name = true →
      after.database.rows? name = e.database.rows? name) : Stowed home after lost := by
  refine ⟨h.services.trans hservices, ?_, by rw [hholder]; exact h.names,
    by rw [hholder]; exact h.distinct⟩
  intro name howns
  rw [htables name howns, hholder]
  exact h.holding name howns

theorem answered (h : Stowed home e lost) (q : Query) :
    Stowed home (e.answered undisturbed q).2 lost := by
  obtain ⟨results, monitor, database, world, notices, hengine⟩ := (besides_answered e q).kept
  have htables : (e.answered undisturbed q).2.database.tables = e.database.tables := by
    cases hask : e.ask q with
    | error fault =>
      unfold Engine.answered
      rw [hask]
    | ok i =>
      rw [(answered_of_ask undisturbed hask).2]
      obtain ⟨-, -, hkeeps⟩ := Inquiry.complete_keeps undisturbed
        (P := fun e' _ => e'.database.tables = e.database.tables) (fun _ _ _ h => h)
        (fun e' i' h _ => (advance_tables e' i').2.trans h) e i rfl
      exact hkeeps
  apply h.of_same
  · rw [hengine]
    exact ⟨rfl, rfl, rfl, rfl⟩
  · rw [hengine]
  · intro name _
    unfold Vector.Database.rows?
    rw [htables]

/-- When a build begins, it stands among the tables as they are. -/
theorem stowing (h : Stowed home e lost) {path : String} {b : Build σ} {begun : Engine σ}
    (hbegin : e.begin path = .ok (b, begun)) : b.Stowing home begun lost begun := by
  obtain ⟨-, -, rfl⟩ := Session.begin_ok hbegin
  refine ⟨h.services.trans ⟨rfl, rfl, rfl, rfl⟩, rfl, Session.number_begin hbegin, ?_⟩
  rw [Session.stage_begin hbegin]
  exact ⟨rfl, h.holding⟩

/-- So it does at its end. -/
theorem exists_ended (h : Stowed home e lost) {path : String} {b : Build σ} {begun : Engine σ}
    (hbegin : e.begin path = .ok (b, begun)) :
    ∃ b' : Build σ, b'.stage = .ended (e.index undisturbed path).1 ∧
      b'.Stowing home begun lost (e.index undisturbed path).2 := by
  have hstowing := h.stowing hbegin
  have hindex : e.index undisturbed path = b.complete undisturbed begun := by
    unfold Engine.index
    rw [hbegin]
  rw [hindex]
  obtain ⟨-, -, hbegun⟩ := Session.begin_ok hbegin
  have hkept : kept begun.holder = kept e.holder := by rw [hbegun]; rfl
  have hnames : ∀ g ∈ kept begun.holder ++ lost,
      NamesTable home g ∧ g.number < begun.holder.latest := by
    rw [hkept, hbegun]
    intro g hg
    obtain ⟨hname, hle⟩ := h.names g hg
    exact ⟨hname, Int.lt_add_one_of_le hle⟩
  have hdistinct : ((kept begun.holder ++ lost).map (·.number)).Nodup := by
    rw [hkept]
    exact h.distinct
  exact Build.complete_keeps undisturbed (P := fun e' b' => b'.Stowing home begun lost e')
    (fun _ _ _ h => h) (fun _ b' h _ => h.stepAt hnames hdistinct b'.place) begun b hstowing

/-- A build that has brought no generation leaves the tables as they are. -/
theorem of_aborted (h : Stowed home e lost) {after : Engine σ}
    (hservices : SameServices home after) (hholder : after.holder = e.holder.start.2.abort)
    (hholding : Holding home after.database (kept e.holder ++ lost)) : Stowed home after lost := by
  have hkept : kept after.holder = kept e.holder := by rw [hholder]; rfl
  refine ⟨hservices, by rw [hkept]; exact hholding, ?_, by rw [hkept]; exact h.distinct⟩
  rw [hkept, hholder]
  intro g hg
  obtain ⟨hname, hle⟩ := h.names g hg
  exact ⟨hname, Int.le_add_one hle⟩

/-- A build has brought a generation, and what was the previous one is retired or stranded. -/
theorem of_succeeded (h : Stowed home e lost) {begun after : Engine σ}
    (hbegun : begun.holder = e.holder.start.2) (hservices : SameServices home after)
    {left : List Generation} (hleft : left.Sublist e.holder.previous.toList)
    (hsucceeded : Succeeded home begun after (left ++ lost)) :
    Stowed home after (left ++ lost) := by
  obtain ⟨g, hnumber, hname, hholder, hholding⟩ := hsucceeded
  rw [hbegun] at hnumber hholding
  have hlatest : g.number = e.holder.latest + 1 := hnumber
  obtain ⟨hcurrent, hprevious, hlast⟩ : after.holder.current = some g ∧
      after.holder.previous = e.holder.current ∧ after.holder.latest = e.holder.latest + 1 := by
    rw [hholder, hbegun, Holder.publish, if_pos hnumber]
    exact ⟨rfl, rfl, rfl⟩
  have hkept : kept after.holder ++ (left ++ lost) =
      g :: (e.holder.current.toList ++ (left ++ lost)) := by
    rw [kept, hcurrent, hprevious]
    rfl
  have hsublist : (e.holder.current.toList ++ (left ++ lost)).Sublist (kept e.holder ++ lost) := by
    rw [kept, List.append_assoc]
    exact (List.Sublist.refl _).append (hleft.append (List.Sublist.refl _))
  have hbefore : ∀ g' ∈ e.holder.current.toList ++ (left ++ lost),
      NamesTable home g' ∧ g'.number ≤ e.holder.latest :=
    fun g' hg' => h.names g' (hsublist.subset hg')
  refine ⟨hservices, ?_, ?_, ?_⟩
  · rw [hkept]
    exact hholding
  · rw [hkept, hlast]
    refine List.forall_mem_cons.mpr ⟨⟨hname, by rw [hlatest]⟩, ?_⟩
    intro g' hg'
    exact ⟨(hbefore g' hg').1, Int.le_add_one (hbefore g' hg').2⟩
  · -- the number is a new one
    rw [hkept, List.map_cons, List.nodup_cons]
    refine ⟨?_, h.distinct.sublist (hsublist.map _)⟩
    rw [List.mem_map]
    rintro ⟨g', hg', heq⟩
    have hle := (hbefore g' hg').2
    omega

/-- After an index call each table is in one place again. -/
theorem index (h : Stowed home e lost) (path : String) :
    Stowed home (e.index undisturbed path).2 (e.strandedBy (.index path) ++ lost) := by
  rw [strandedBy_index]
  cases hbegin : e.begin path with
  | error fault =>
    have hindex : e.index undisturbed path = (.error fault, e) := by
      unfold Engine.index
      rw [hbegin]
    rw [hindex]
    exact h
  | ok started =>
    obtain ⟨b, begun⟩ := started
    obtain ⟨-, -, hbegun⟩ := Session.begin_ok hbegin
    have hstart : begun.holder = e.holder.start.2 := by rw [hbegun]
    have hdatabase : begun.database = e.database := by rw [hbegun]
    obtain ⟨b', hended, hend⟩ := h.exists_ended hbegin
    have hstows := hend.stows
    rw [hended] at hstows
    cases hresult : (e.index undisturbed path).1 with
    | error fault =>
      rw [hresult] at hstows
      obtain ⟨hholder, hholding⟩ := hstows
      rw [hstart] at hholder hholding
      exact h.of_aborted hend.services hholder hholding
    | ok summary =>
      rw [hresult, Build.Stows, hdatabase, hstart] at hstows
      apply h.of_succeeded hstart hend.services _ hstows
      split
      · exact List.nil_sublist _
      · exact List.Sublist.refl _

/-- After a call each table is in one place again. -/
theorem perform (h : Stowed home e lost) {call : Call σ}
    (houtside : ∀ database world, call = .outside database world → ∀ name,
      home.owns name = true → database.rows? name = e.database.rows? name) :
    Stowed home (e.perform call) (e.strandedBy call ++ lost) := by
  have hquiet : e.retiredBy call = none → Stowed home (e.perform call) lost →
      Stowed home (e.perform call) (e.strandedBy call ++ lost) := by
    intro hnone hsame
    have hempty : e.strandedBy call = [] := by simp [strandedBy, hnone]
    rw [hempty]
    exact hsame
  cases call with
  | index path => exact h.index path
  | search q => exact hquiet rfl (h.answered q)
  | explain found prompt failing failed =>
    apply hquiet rfl
    obtain ⟨world, notices, hengine⟩ := explained_eq_with e found prompt failing failed
    rw [Engine.perform, hengine]
    exact h.of_same ⟨rfl, rfl, rfl, rfl⟩ rfl fun _ _ => rfl
  | forget => exact hquiet rfl (h.of_same ⟨rfl, rfl, rfl, rfl⟩ rfl fun _ _ => rfl)
  | edit disk => exact hquiet rfl (h.of_same ⟨rfl, rfl, rfl, rfl⟩ rfl fun _ _ => rfl)
  | outside database world =>
    exact hquiet rfl (h.of_same ⟨rfl, rfl, rfl, rfl⟩ rfl (houtside database world rfl))

end Stowed

/-! ## After some calls -/

/-- No table in a database is one of the engine. -/
def Emptied (e : Engine σ) (database : Vector.Database) : Prop :=
  ∀ name ∈ database.names, e.owns name = false

section Runs

variable {e : Engine σ}

theorem emptied_iff_rows {database : Vector.Database} :
    e.Emptied database ↔ ∀ name, e.owns name = true → database.rows? name = none := by
  unfold Emptied
  refine forall_congr' fun name => ?_
  rw [Vector.Database.mem_names_iff]
  cases e.owns name with
  | false => simp
  | true => simp

/-- A database with the tables of some generations has none exactly if none of these has one. -/
theorem Holding.empty_iff {database : Vector.Database} {generations : List Generation}
    (h : Holding e database generations) (hnames : ∀ g ∈ generations, NamesTable e g) :
    e.Emptied database ↔ ∀ g ∈ generations, tableOf g = none := by
  rw [emptied_iff_rows]
  constructor
  · intro hnone g hg
    rw [Option.eq_none_iff_forall_ne_some]
    intro name htable
    have howns : e.owns name = true := by
      rw [eq_tableName_of_tableOf (hnames g hg) htable]
      exact owns_tableName e g.number
    exact (h name howns).mpr ⟨g, hg, htable⟩ (hnone name howns)
  · intro htableless name howns
    by_contra hsome
    obtain ⟨g, hg, htable⟩ := (h name howns).mp hsome
    rw [htableless g hg] at htable
    cases htable

/-- After any calls each table of the engine is in one place. -/
theorem stowed_afterCalls (hfresh : e.holder = {}) (hunowned : e.Emptied e.database)
    {calls : List (Call σ)} (houtside : e.LeavesTables calls) :
    Stowed e (e.afterCalls calls) (e.stranded calls) := by
  induction calls with
  | nil =>
    have hkept : kept e.holder = [] := by rw [hfresh]; rfl
    refine ⟨⟨rfl, rfl, rfl, rfl⟩, ?_, ?_, ?_⟩
    · intro name howns
      simp [afterCalls, stranded, hkept, emptied_iff_rows.mp hunowned name howns]
    · simp [afterCalls, stranded, hkept]
    · simp [afterCalls, stranded, hkept]
  | cons call past ih =>
    cases call with
    | outside database world =>
      apply (ih houtside.1).perform
      rintro database' world' hsame name howns
      obtain ⟨rfl, -⟩ := Call.outside.inj hsame
      exact houtside.2 name howns
    | _ =>
      apply (ih houtside).perform
      rintro database' world' hsame
      cases hsame

/-! ## Runs with failures -/

/-- One import after some calls. -/
def importAfter (calls : List (Call Unit)) : Engine Unit :=
  (Session.oneImport.afterCallsWithin 13 calls).getD Session.oneImport

theorem afterCalls_eq_importAfter {calls : List (Call Unit)}
    (h : (Session.oneImport.afterCallsWithin 13 calls).isSome = true) :
    Session.oneImport.afterCalls calls = importAfter calls := by
  obtain ⟨after, hafter⟩ := Option.isSome_iff_exists.mp h
  rw [importAfter, hafter, afterCalls_of_within hafter]
  rfl

/-- From now on these operations fail, and the others work. -/
def failing (e : Engine σ) (failures : List (Vector.Operation × String)) : Call σ :=
  .outside { e.database with failures := failures } e.world

/-- One import indexed; there is a call while some operations fail, and then all work again. -/
def troubled (failures : List (Vector.Operation × String)) (call : Call Unit) : List (Call Unit) :=
  let during := [call, failing (importAfter [.index "/"]) failures, .index "/"]
  failing (importAfter during) [] :: during

theorem isSome_of_cons {n : Nat} {call : Call σ} {past : List (Call σ)}
    (h : (e.afterCallsWithin n (call :: past)).isSome = true) :
    (e.afterCallsWithin n past).isSome = true := by
  obtain ⟨after, hafter⟩ := Option.isSome_iff_exists.mp h
  obtain ⟨before, hbefore, -⟩ := Option.bind_eq_some_iff.mp hafter
  rw [hbefore]
  rfl

theorem leavesTables_failing {calls : List (Call Unit)} (h : Session.oneImport.LeavesTables calls)
    (failures : List (Vector.Operation × String))
    (hends : (Session.oneImport.afterCallsWithin 13 calls).isSome = true) :
    Session.oneImport.LeavesTables (failing (importAfter calls) failures :: calls) := by
  refine ⟨h, fun name _ => ?_⟩
  rw [afterCalls_eq_importAfter hends]
  rfl

/-- That operations fail does nothing to the tables. -/
theorem leavesTables_troubled {failures : List (Vector.Operation × String)} {call : Call Unit}
    (hcall : ∀ past, Session.oneImport.LeavesTables past →
      Session.oneImport.LeavesTables (call :: past))
    (hends : (Session.oneImport.afterCallsWithin 13 (troubled failures call)).isSome = true) :
    Session.oneImport.LeavesTables (troubled failures call) := by
  have hduring := isSome_of_cons hends
  have hindexed := isSome_of_cons (isSome_of_cons hduring)
  have hfirst : Session.oneImport.LeavesTables [.index "/"] := trivial
  apply leavesTables_failing _ _ hduring
  apply hcall
  exact leavesTables_failing hfirst _ hindexed

theorem emptied_oneImport : Session.oneImport.Emptied Session.oneImport.database :=
  emptied_iff_rows.mpr fun _ _ => rfl

/-! ## To close the engine -/

/-- Where tables can be listed and dropped, those with some names all are, and no others. -/
theorem exists_dropAll {d : Vector.Database} (hcan : d.canDrop = true) (names : List String) :
    ∃ left, dropAll d names = (.ok (), left) ∧
      ∀ name, left.rows? name = if name ∈ names then none else d.rows? name := by
  induction names generalizing d with
  | nil => exact ⟨d, rfl, fun name => by simp⟩
  | cons first rest ih =>
    obtain ⟨hlist, hdrop⟩ := Vector.Database.canDrop_iff.mp hcan
    obtain ⟨without, hfirst⟩ := Vector.exists_dropCollection hlist hdrop first
    obtain ⟨hfailures, hrows⟩ := Vector.dropCollection_inv hfirst
    obtain ⟨left, hleft, hothers⟩ := ih ((Vector.Database.canDrop_congr hfailures).trans hcan)
    refine ⟨left, ?_, ?_⟩
    · rw [dropAll, hfirst]
      exact hleft
    · intro name
      rw [hothers, hrows]
      by_cases hname : name = first
      · simp [hname]
      · simp [hname]

/-- To close an engine drops its tables if it has a store that serves, and else leaves them. -/
theorem rows?_close (hcan : e.database.canDrop = true) {name : String}
    (howns : e.owns name = true) :
    e.close.database.rows? name =
      if e.hasStore && e.monitor.available then none else e.database.rows? name := by
  unfold close
  cases hserves : e.hasStore && e.monitor.available with
  | false => rfl
  | true =>
    have hlisted : Vector.collections e.database = .ok e.database.names := by
      unfold Vector.collections Vector.Database.tableNames
      rw [(Vector.Database.canDrop_iff.mp hcan).1]
      rfl
    obtain ⟨left, hleft, hrows⟩ := exists_dropAll hcan (e.database.names.filter e.owns)
    simp only [Bool.not_true, Bool.false_eq_true, if_false, if_true, hlisted, hleft]
    rw [hrows]
    by_cases hthere : name ∈ e.database.names
    · exact if_pos (List.mem_filter.mpr ⟨hthere, howns⟩)
    · rw [if_neg fun hmem => hthere (List.mem_filter.mp hmem).1]
      rw [Vector.Database.mem_names_iff, not_not] at hthere
      exact hthere

theorem owns_of_sameServices {after : Engine σ} (h : SameServices e after) :
    after.owns = e.owns := by
  funext name
  unfold owns tablePrefix
  rw [h.settings, h.session]

/-- An engine that is closed at a time at which tables can be listed and dropped leaves none of its
own in the database exactly if its store has served up to that time, or it had no table there. -/
theorem emptied_close_iff (hfresh : e.holder = {}) (hunowned : e.Emptied e.database)
    {calls : List (Call σ)} (houtside : e.LeavesTables calls)
    (hcan : (e.afterCalls calls).database.canDrop = true) :
    e.Emptied (e.afterCalls calls).close.database ↔
      (e.hasStore = true ∧ (e.afterCalls calls).monitor.available = true) ∨
        ∀ g ∈ kept (e.afterCalls calls).holder ++ e.stranded calls, tableOf g = none := by
  have hstowed := stowed_afterCalls hfresh hunowned houtside
  have howned : (e.afterCalls calls).owns = e.owns := owns_of_sameServices hstowed.services
  have hservice : (e.afterCalls calls).hasStore = e.hasStore := hstowed.services.hasStore
  have hnames : ∀ g ∈ kept (e.afterCalls calls).holder ++ e.stranded calls, NamesTable e g :=
    fun g hg => (hstowed.names g hg).1
  rw [← hstowed.holding.empty_iff hnames, ← hservice, ← Bool.and_eq_true, emptied_iff_rows,
    emptied_iff_rows]
  cases hserves : (e.afterCalls calls).hasStore && (e.afterCalls calls).monitor.available with
  | true =>
    refine iff_of_true ?_ (Or.inl rfl)
    intro name howns
    rw [rows?_close hcan (howned ▸ howns), hserves, if_pos rfl]
  | false =>
    rw [or_iff_right (by simp)]
    refine forall_congr' fun name => forall_congr' fun howns => ?_
    rw [rows?_close hcan (howned ▸ howns), hserves, if_neg (by simp)]

/-- One import is indexed once more while no table can be dropped, so there are two tables when all
works again. To close the engine leaves none. -/
theorem emptied_close_iff_dropFailed :
    let now := Session.oneImport.afterCalls (troubled [(.drop, "busy")] (.index "/"))
    now.database.tables.length = 2 ∧ Session.oneImport.Emptied now.close.database := by
  have hnow : (Session.oneImport.afterCallsWithin 13 (troubled [(.drop, "busy")] (.index "/"))).map
      (fun e => (e.database.tables.length, e.monitor.available)) = some (2, true) := by
    decide +kernel
  obtain ⟨now, hwithin, hnow⟩ := Option.map_eq_some_iff.mp hnow
  rw [← afterCalls_of_within hwithin, Prod.mk.injEq] at hnow
  refine ⟨hnow.1, (emptied_close_iff rfl emptied_oneImport ?_ rfl).mpr (Or.inl ⟨rfl, hnow.2⟩)⟩
  exact leavesTables_troubled (fun _ h => h) (Option.isSome_iff_exists.mpr ⟨now, hwithin⟩)

/-- A question is put while searches fail. When all works again, the engine is closed, and its table
stays. -/
theorem not_emptied_searchFailed :
    let calls := troubled [(.search, "gone")] (.search aboutImport)
    let now := Session.oneImport.afterCalls calls
    Session.oneImport.holder = {} ∧ Session.oneImport.Emptied Session.oneImport.database ∧
      Session.oneImport.LeavesTables calls ∧ now.database.failures = [] ∧
        ¬ Session.oneImport.Emptied now.close.database := by
  have hleft : (Session.oneImport.afterCallsWithin 13
      (troubled [(.search, "gone")] (.search aboutImport))).map (fun e =>
        (e.close.database.rows? (Session.oneImport.tableName 1)).isNone) = some false := by
    decide +kernel
  obtain ⟨now, hwithin, hleft⟩ := Option.map_eq_some_iff.mp hleft
  rw [← afterCalls_of_within hwithin] at hleft
  refine ⟨rfl, emptied_oneImport, ?_, rfl, ?_⟩
  · exact leavesTables_troubled (fun _ h => h) (Option.isSome_iff_exists.mpr ⟨now, hwithin⟩)
  · intro hemptied
    rw [emptied_iff_rows.mp hemptied _ (owns_tableName _ 1)] at hleft
    cases hleft

end Runs

end CodeSearch.Engine

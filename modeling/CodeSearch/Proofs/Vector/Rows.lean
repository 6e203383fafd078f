import CodeSearch.Proofs.Vector.Tables
import Mathlib.Data.List.Forall2

/-!
What becomes of the rows that a search in a table returns.

Whatever keeps the table from being searched makes the store unavailable, which its callers are
prepared for. The rows are turned into hits after that, and there a distance that is null and
dependencies that are no JSON are faults of the data, which nobody is prepared for (`Unreadable`).
-/
set_option autoImplicit false

namespace CodeSearch.Vector

open CodeSearch.Search (Match)

/-- A row as the columns of a table are typed, where any column may be missing or null. -/
structure Typed (row : Row) : Prop where
  id : ∀ v, Value.find? "id" row = some v → v = .null ∨ ∃ s, v = .text s
  distance : ∀ v, Value.find? "_distance" row = some v → v = .null ∨ ∃ x, v = .float x
  dependencies : ∀ v, Value.find? "dependencies" row = some v → v = .null ∨ ∃ s, v = .text s

/-- A row that no hit is made of. -/
def Unreadable (row : Row) : Prop :=
  Value.find? "_distance" row = some .null ∨
    ∃ s, Value.find? "dependencies" row = some (.text s) ∧ s ≠ "" ∧ Json.parse s = none

/-! ## Rows -/

/-- A list is gone through to its end if nothing in it fails. -/
theorem exists_mapM_eq_ok_iff {α β ε : Type} {f : α → Except ε β} {xs : List α} :
    (∃ ys, xs.mapM f = .ok ys) ↔ ∀ x ∈ xs, ∃ y, f x = .ok y := by
  -- the first failure ends the list, so both sides split at the first entry
  induction xs with
  | nil => simp [pure, Except.pure]
  | cons x xs ih =>
    rw [List.mapM_cons, List.forall_mem_cons, ← ih]
    cases hx : f x with
    | error e => simp [bind, Except.bind]
    | ok y =>
      cases hxs : xs.mapM f with
      | error e => simp [bind, Except.bind]
      | ok ys => simp [bind, Except.bind, pure, Except.pure]

/-- A list is gone through to its end if and only if each entry gives what stands in its place. -/
theorem mapM_eq_ok_iff {α β ε : Type} {f : α → Except ε β} {xs : List α} {ys : List β} :
    xs.mapM f = .ok ys ↔ List.Forall₂ (fun x y => f x = .ok y) xs ys := by
  induction xs generalizing ys with
  | nil =>
    rw [List.mapM_nil, List.forall₂_nil_left_iff]
    simp [pure, Except.pure, eq_comm]
  | cons x xs ih =>
    rw [List.mapM_cons, List.forall₂_cons_left_iff]
    cases hx : f x with
    | error fault => simp [bind, Except.bind]
    | ok y =>
      cases hxs : xs.mapM f with
      | error fault => simp [bind, Except.bind, ← ih, hxs]
      | ok rest => simp [bind, Except.bind, pure, Except.pure, ← ih, hxs, eq_comm]

theorem exists_of_forall₂ {α β : Type} {R : α → β → Prop} {xs : List α} {ys : List β}
    (h : List.Forall₂ R xs ys) {y : β} (hy : y ∈ ys) : ∃ x ∈ xs, R x y := by
  induction h with
  | nil => exact absurd hy List.not_mem_nil
  | @cons x _ _ _ hfirst _ ih =>
    rcases List.mem_cons.mp hy with rfl | hrest
    · exact ⟨x, List.mem_cons_self, hfirst⟩
    · obtain ⟨x', hx', hrel⟩ := ih hrest
      exact ⟨x', List.mem_cons_of_mem _ hx', hrel⟩

theorem exists_of_mem_mapM {α β ε : Type} {f : α → Except ε β} {xs : List α} {ys : List β}
    (h : xs.mapM f = .ok ys) {y : β} (hy : y ∈ ys) : ∃ x ∈ xs, f x = .ok y :=
  exists_of_forall₂ (mapM_eq_ok_iff.mp h) hy

/-- Only a distance that is null is none. -/
theorem exists_distance_iff {row : Row} (h : Typed row) :
    (∃ x, ((Value.find? "_distance" row).getD (.float 1.0)).toFloat = .ok x) ↔
      Value.find? "_distance" row ≠ some .null := by
  cases hfound : Value.find? "_distance" row with
  | none => simp [Value.toFloat]
  | some v =>
    rcases h.distance v hfound with rfl | ⟨x, rfl⟩
    · simp [Value.toFloat]
    · simp [Value.toFloat]

/-- Only dependencies that are a text which is no JSON cannot be read. -/
theorem exists_dependencies_iff {row : Row} (h : Typed row) :
    (∃ v, dependenciesIn ((Value.find? "dependencies" row).getD .null) = .ok v) ↔
      ¬ ∃ s, Value.find? "dependencies" row = some (.text s) ∧ s ≠ "" ∧ Json.parse s = none := by
  unfold dependenciesIn
  cases hfound : Value.find? "dependencies" row with
  | none => simp [Value.holds]
  | some v =>
    rcases h.dependencies v hfound with rfl | ⟨s, rfl⟩
    · simp [Value.holds]
    · -- an empty text counts as nothing, and is not read
      by_cases hempty : s = ""
      · simp [Value.holds, hempty]
      · cases hparse : Json.parse s with
        | none => simp [Value.holds, hempty, hparse]
        | some v => simp [Value.holds, hempty, hparse]

/-- A hit is made of every row that is readable, and of no other. -/
theorem exists_ofRow_iff {row : Row} (h : Typed row) :
    (∃ hit, Hit.ofRow row = .ok hit) ↔ ¬ Unreadable row := by
  have hdistance := exists_distance_iff h
  have hneeds := exists_dependencies_iff h
  -- the distance is read first, and each of the two may fail
  rw [Unreadable, not_or, ← hneeds, ← ne_eq, ← hdistance]
  unfold Hit.ofRow
  dsimp only
  constructor
  · rintro ⟨hit, hmade⟩
    cases hx : ((Value.find? "_distance" row).getD (.float 1.0)).toFloat with
    | error fault => simp [hx, bind, Except.bind] at hmade
    | ok x =>
      cases hv : dependenciesIn ((Value.find? "dependencies" row).getD .null) with
      | error fault => simp [hx, hv, bind, Except.bind] at hmade
      | ok v => exact ⟨⟨x, rfl⟩, ⟨v, rfl⟩⟩
  · rintro ⟨⟨x, hx⟩, ⟨v, hv⟩⟩
    rw [hx, hv]
    exact ⟨_, rfl⟩

theorem id_ofRow {row : Row} {hit : Hit} (h : Hit.ofRow row = .ok hit) :
    hit.id = (Value.find? "id" row).getD (.text "") := by
  unfold Hit.ofRow at h
  dsimp only at h
  cases hx : ((Value.find? "_distance" row).getD (.float 1.0)).toFloat with
  | error fault => simp [hx, bind, Except.bind] at h
  | ok x =>
    cases hv : dependenciesIn ((Value.find? "dependencies" row).getD .null) with
    | error fault => simp [hx, hv, bind, Except.bind] at h
    | ok v =>
      simp only [hx, hv, bind, Except.bind, pure, Except.pure, Except.ok.injEq] at h
      rw [← h]

/-! ## Searches -/

/-- An id by which a chunk can be looked for. -/
def IsKey (id : Value) : Prop := id = .null ∨ ∃ s, id = .text s

theorem isKey_ofRow {row : Row} (h : Typed row) {hit : Hit} (hmade : Hit.ofRow row = .ok hit) :
    IsKey hit.id := by
  rw [id_ofRow hmade]
  cases hfound : Value.find? "id" row with
  | none => exact Or.inr ⟨"", rfl⟩
  | some v => exact h.id v hfound

variable {index : VectorIndex} {db asked : Database} {vector : List Float} {kind : Option String}
  {limit : Int} {rows : List Row}

/-- A search that was given its rows beforehand returns these. -/
theorem rows_of_answer {given : List Row} (hgiven : db.answer = some given) {table : String}
    (h : db.search table vector limit kind = .ok (rows, asked)) : rows = given := by
  unfold Database.search at h
  -- the table has to be opened all the same
  cases hopen : db.openTable table with
  | error reason => simp [hopen, bind, Except.bind] at h
  | ok stored =>
    cases hcheck : db.check .search with
    | error reason => simp [hopen, hcheck, bind, Except.bind] at h
    | ok ready =>
      simp only [hopen, hcheck, hgiven, bind, Except.bind, pure, Except.pure, Except.ok.injEq,
        Prod.mk.injEq] at h
      exact h.1.symm

/-- A search in a table that is there, in a database where nothing fails, returns what it was given
to return. -/
theorem search_of_answer {given : List Row} (hgiven : db.answer = some given)
    (hhealthy : db.failures = []) {table : String} (hthere : (db.rows? table).isSome = true) :
    ∃ asked, db.search table vector limit kind = .ok (given, asked) := by
  obtain ⟨stored, hstored⟩ := Option.isSome_iff_exists.mp hthere
  unfold Database.search Database.openTable
  rw [Database.check_of_healthy hhealthy, Database.check_of_healthy hhealthy, hstored, hgiven]
  exact ⟨_, rfl⟩

/-- Rows that are all readable are matches, each with an id by which a chunk can be looked for. -/
theorem query_of_readable
    (h : db.search index.collection vector limit (askedClause kind) = .ok (rows, asked))
    (htyped : ∀ row ∈ rows, Typed row) (hreadable : ∀ row ∈ rows, ¬ Unreadable row) :
    ∃ found, index.query db vector kind limit = (.ok found, asked) ∧ ∀ m ∈ found, IsKey m.id := by
  obtain ⟨hits, hhits⟩ := exists_mapM_eq_ok_iff.mpr fun row hrow =>
    (exists_ofRow_iff (htyped row hrow)).mpr (hreadable row hrow)
  unfold VectorIndex.query queryStore
  rw [h]
  dsimp only
  rw [hhits]
  let found : List Match := hits.map fun hit => ⟨hit.id, similarityOf hit.distance⟩
  refine ⟨Search.bestFirst Match.similarity found, rfl, ?_⟩
  intro m hm
  rw [Search.bestFirst, List.mem_mergeSort] at hm
  obtain ⟨hit, hhit, rfl⟩ := List.mem_map.mp hm
  -- every match comes of a row, and has its id
  obtain ⟨row, hrow, hmade⟩ := exists_of_mem_mapM hhits hhit
  exact isKey_ofRow (htyped row hrow) hmade

/-- One row that is not readable is a fault of the data. -/
theorem query_of_unreadable
    (h : db.search index.collection vector limit (askedClause kind) = .ok (rows, asked))
    (htyped : ∀ row ∈ rows, Typed row) {row : Row} (hrow : row ∈ rows) (hbad : Unreadable row) :
    ∃ fault, index.query db vector kind limit = (.error (.data fault), asked) := by
  unfold VectorIndex.query queryStore
  rw [h]
  dsimp only
  cases hhits : rows.mapM Hit.ofRow with
  | error fault => exact ⟨fault, rfl⟩
  | ok hits =>
    have hmade := exists_mapM_eq_ok_iff.mp ⟨hits, hhits⟩ row hrow
    exact absurd hbad ((exists_ofRow_iff (htyped row hrow)).mp hmade)

end CodeSearch.Vector

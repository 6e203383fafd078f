import Mathlib.Tactic.ByContra
import CodeSearch.Vector.Index

/-!
Which tables a database has.

In a database in which tables can be listed, made and dropped (`Writable`), one is made or dropped
under its name, which leaves those under other names as they are; where nothing fails at all, a
search works exactly if its table is there. So for everything above, a database is the set of names
under which `rows?` finds something. What can still go wrong is data: chunks that do not make a
table.
-/
set_option autoImplicit false

namespace CodeSearch.Vector

namespace Database

variable {d : Database}

/-! ## Tables by their names -/

theorem lookup_without (tables : List (String × List Row)) (name other : String) :
    (without tables name).lookup other = if other = name then none else tables.lookup other := by
  induction tables with
  | nil => simp [without]
  | cons table rest ih =>
    obtain ⟨first, rows⟩ := table
    unfold without at ih ⊢
    -- the first table is left out or kept, and then it is the one that is looked up or not
    by_cases hfirst : first = name
    · -- the first table is the one that is left out
      rw [List.filter_cons_of_neg (by simp [hfirst]), ih]
      by_cases hother : other = name
      · rw [if_pos hother, if_pos hother]
      · have hne : (other == first) = false := by
          rw [hfirst]
          exact beq_false_of_ne hother
        rw [if_neg hother, if_neg hother, List.lookup_cons, hne]
    · rw [List.filter_cons_of_pos (by simp [hfirst]), List.lookup_cons, List.lookup_cons]
      by_cases hother : other = first
      · rw [hother, beq_self_eq_true, if_neg hfirst]
      · rw [beq_false_of_ne hother]
        exact ih

theorem check_of_healthy (h : d.failures = []) (o : Operation) : d.check o = .ok () := by
  unfold check failure?
  rw [h]
  rfl

/-- Tables can be listed, made and dropped, whatever else fails. -/
structure Writable (d : Database) : Prop where
  list : d.check .list = .ok ()
  create : d.check .create = .ok ()
  drop : d.check .drop = .ok ()

theorem writable_of_healthy (h : d.failures = []) : d.Writable where
  list := check_of_healthy h _
  create := check_of_healthy h _
  drop := check_of_healthy h _

/-- What fails is written down in one place. -/
theorem Writable.of_failures {d' : Database} (h : d.Writable) (hsame : d'.failures = d.failures) :
    d'.Writable := by
  have hcheck : ∀ o, d'.check o = d.check o := fun o => by
    unfold check failure?
    rw [hsame]
  exact ⟨(hcheck _).trans h.list, (hcheck _).trans h.create, (hcheck _).trans h.drop⟩

/-- A table that is made is there, in the place of the one with its name. -/
theorem createTable_inv {made : Database} {name : String} {rows : List Row}
    (h : d.createTable name rows = .ok made) : made.failures = d.failures ∧
      ∀ other, made.rows? other = if other = name then some rows else d.rows? other := by
  unfold createTable at h
  cases hcheck : d.check .create with
  | error reason => simp [hcheck, bind, Except.bind] at h
  | ok ready =>
    simp only [hcheck, bind, Except.bind, pure, Except.pure, Except.ok.injEq] at h
    subst h
    refine ⟨rfl, ?_⟩
    intro other
    show (without d.tables name ++ [(name, rows)]).lookup other = _
    rw [List.lookup_append, lookup_without]
    -- the new table stands behind the others, from which the old one is taken
    by_cases hother : other = name
    · rw [if_pos hother, if_pos hother, hother]
      simp
    · have hne : (other == name) = false := beq_false_of_ne hother
      rw [if_neg hother, if_neg hother, List.lookup_cons, hne, List.lookup_nil, Option.or_none]
      rfl

theorem exists_createTable (h : d.Writable) (name : String) (rows : List Row) :
    ∃ made, d.createTable name rows = .ok made ∧ made.failures = d.failures ∧
      ∀ other, made.rows? other = if other = name then some rows else d.rows? other := by
  have hmade : ∃ made, d.createTable name rows = .ok made := by
    unfold createTable
    rw [h.create]
    exact ⟨_, rfl⟩
  obtain ⟨made, hmade⟩ := hmade
  exact ⟨made, hmade, createTable_inv hmade⟩

theorem contains_names_iff (name : String) :
    d.names.contains name = true ↔ d.rows? name ≠ none := by
  unfold names rows?
  rw [List.contains_iff_mem, List.mem_mergeSort, ← Option.isSome_iff_ne_none,
    List.lookup_isSome_iff, List.mem_map]
  constructor
  · rintro ⟨table, htable, rfl⟩
    exact ⟨table, htable, beq_self_eq_true _⟩
  · rintro ⟨table, htable, hname⟩
    exact ⟨table, htable, (eq_of_beq hname).symm⟩

/-- Whether tables can be listed and dropped. -/
def canDrop (d : Database) : Bool :=
  (d.failure? .list).isNone && (d.failure? .drop).isNone

theorem check_eq_ok_iff {o : Operation} : d.check o = .ok () ↔ (d.failure? o).isNone = true := by
  unfold check
  cases d.failure? o with
  | none => simp
  | some reason => simp

theorem canDrop_iff : d.canDrop = true ↔ d.check .list = .ok () ∧ d.check .drop = .ok () := by
  rw [canDrop, Bool.and_eq_true, check_eq_ok_iff, check_eq_ok_iff]

theorem canDrop_congr {d' : Database} (h : d'.failures = d.failures) : d'.canDrop = d.canDrop := by
  unfold canDrop failure?
  rw [h]

theorem mem_names_iff {name : String} : name ∈ d.names ↔ d.rows? name ≠ none := by
  rw [← contains_names_iff, List.contains_iff_mem]

/-- A search works exactly if its table is there, and leaves the tables as they are. -/
theorem search_error_iff (h : d.failures = []) {name : String} (vector : List Float) (limit : Int)
    (clause : Option String) :
    (∃ reason, d.search name vector limit clause = .error reason) ↔ d.rows? name = none := by
  unfold search openTable
  rw [check_of_healthy h, check_of_healthy h]
  -- with the table there the search goes through, whatever rows it was given to return
  cases hrows : d.rows? name with
  | none => simp [bind, Except.bind, throw, throwThe, MonadExceptOf.throw]
  | some rows =>
    cases hanswer : d.answer with
    | none => simp [bind, Except.bind, pure, Except.pure]
    | some given => simp [bind, Except.bind, pure, Except.pure]

theorem same_of_search {name : String} {vector : List Float} {limit : Int} {clause : Option String}
    {rows : List Row} {asked : Database}
    (h : d.search name vector limit clause = .ok (rows, asked)) :
    asked.failures = d.failures ∧ asked.tables = d.tables := by
  unfold search at h
  cases hopen : d.openTable name with
  | error reason => simp [hopen, bind, Except.bind] at h
  | ok stored =>
    cases hcheck : d.check .search with
    | error reason => simp [hopen, hcheck, bind, Except.bind] at h
    | ok ready =>
      simp only [hopen, hcheck, bind, Except.bind, pure, Except.pure] at h
      split at h
      · simp only [Except.ok.injEq, Prod.mk.injEq] at h
        rw [← h.2]
        exact ⟨rfl, rfl⟩
      · simp only [Except.ok.injEq, Prod.mk.injEq] at h
        rw [← h.2]
        exact ⟨rfl, rfl⟩

end Database

theorem same_of_query (index : VectorIndex) (d : Database) (vector : List Float)
    (kind : Option String) (limit : Int) :
    (index.query d vector kind limit).2.failures = d.failures ∧
      (index.query d vector kind limit).2.tables = d.tables := by
  unfold VectorIndex.query queryStore
  cases hsearch : d.search index.collection vector limit (askedClause kind) with
  | error reason => exact ⟨rfl, rfl⟩
  | ok found =>
    obtain ⟨rows, asked⟩ := found
    have hsame := Database.same_of_search hsearch
    dsimp only
    split
    · exact hsame
    · exact hsame

/-- A search that fails makes the store unavailable. -/
theorem query_of_search_error {index : VectorIndex} {d : Database} {vector : List Float}
    {kind : Option String} {limit : Int} {reason : String}
    (h : d.search index.collection vector limit (askedClause kind) = .error reason) :
    index.query d vector kind limit =
      (.error (.unavailable (.searching index.collection reason)), d) := by
  unfold VectorIndex.query queryStore
  rw [h]
  rfl

/-- A store is found unavailable by a search exactly if the table is not there. -/
theorem query_unavailable_iff {d : Database} (h : d.failures = []) (index : VectorIndex)
    (vector : List Float) (kind : Option String) (limit : Int) :
    (∃ u, (index.query d vector kind limit).1 = .error (.unavailable u)) ↔
      d.rows? index.collection = none := by
  have hsearched : _ ↔ d.rows? index.collection = none :=
    Database.search_error_iff h vector limit (askedClause kind)
  rw [← hsearched]
  cases hsearch : d.search index.collection vector limit (askedClause kind) with
  | error reason =>
    rw [query_of_search_error hsearch]
    exact ⟨fun _ => ⟨reason, rfl⟩, fun _ => ⟨_, rfl⟩⟩
  | ok found =>
    obtain ⟨rows, asked⟩ := found
    unfold VectorIndex.query queryStore
    rw [hsearch]
    dsimp only
    cases rows.mapM Hit.ofRow with
    | ok hits => simp [Except.map]
    | error fault => simp [Except.map]

/-- A collection that is dropped is gone, and no other one. -/
theorem dropCollection_inv {d left : Database} {name : String}
    (h : dropCollection d name = .ok left) : left.failures = d.failures ∧
      ∀ other, left.rows? other = if other = name then none else d.rows? other := by
  unfold dropCollection Database.tableNames at h
  cases hlist : d.check .list with
  | error reason => simp [hlist, bind, Except.bind] at h
  | ok listed =>
    simp only [hlist, bind, Except.bind, pure, Except.pure] at h
    by_cases hthere : d.names.contains name = true
    · rw [if_pos hthere] at h
      unfold Database.dropTable at h
      cases hdrop : d.check .drop with
      | error reason => simp [hdrop, bind, Except.bind] at h
      | ok dropped =>
        simp only [hdrop, bind, Except.bind, pure, Except.pure, Except.ok.injEq] at h
        subst h
        exact ⟨rfl, fun other => Database.lookup_without d.tables name other⟩
    · rw [if_neg hthere, Except.ok.injEq] at h
      subst h
      refine ⟨rfl, ?_⟩
      -- nothing is dropped, as there is no such table
      intro other
      by_cases hother : other = name
      · rw [if_pos hother, hother]
        by_contra hne
        exact hthere ((Database.contains_names_iff name).mpr hne)
      · rw [if_neg hother]

/-- Where tables can be listed and dropped, every collection can be. -/
theorem exists_dropCollection {d : Database} (hlist : d.check .list = .ok ())
    (hdrop : d.check .drop = .ok ()) (name : String) :
    ∃ left, dropCollection d name = .ok left := by
  unfold dropCollection Database.tableNames Database.dropTable
  rw [hlist, hdrop]
  by_cases hthere : d.names.contains name = true
  · simp only [bind, Except.bind, pure, Except.pure, hthere, if_true]
    exact ⟨_, rfl⟩
  · simp only [bind, Except.bind, pure, Except.pure, hthere]
    exact ⟨d, rfl⟩

/-- Where tables cannot be listed or cannot be dropped, to drop one only works if it is not there. -/
theorem eq_of_dropCollection {d left : Database} {name : String} (hcannot : d.canDrop = false)
    (h : dropCollection d name = .ok left) : left = d := by
  unfold dropCollection Database.tableNames Database.dropTable at h
  cases hlist : d.check .list with
  | error reason => simp [hlist, bind, Except.bind] at h
  | ok listed =>
    simp only [hlist, bind, Except.bind, pure, Except.pure] at h
    by_cases hthere : d.names.contains name = true
    · rw [if_pos hthere] at h
      cases hdrop : d.check .drop with
      | error reason => simp [hdrop] at h
      | ok dropped =>
        rw [Database.canDrop_iff.mpr ⟨hlist, hdrop⟩] at hcannot
        cases hcannot
    · rw [if_neg hthere, Except.ok.injEq] at h
      exact h.symm

/-! ## Tables of chunks -/

/-- Whether a number fits into the column of the lines. -/
def FitsLine (line : Int) : Prop :=
  -(Nat.pow 2 31 : Int) ≤ line ∧ line < (Nat.pow 2 31 : Int)

/-- An embedded chunk as it goes into a table. -/
def storedOf (c : Chunk) (vector : List Float) : Stored where
  id := c.id
  vector := vector
  document := c.canonicalText
  kind := .text c.kind
  name := .text c.name
  path := .text c.path
  line := c.line
  dependencies := .text (Json.render (.list (c.dependencies.names.map .text)))

/-- The embedded ones of some chunks, with their vectors. -/
def embeddedOf (chunks : List Chunk) : List (Chunk × List Float) :=
  chunks.filterMap fun c =>
    match c.embedding with
    | some (x :: rest) => some (c, x :: rest)
    | _ => none

theorem storable_entriesOf (chunks : List Chunk) :
    storable (entriesOf chunks) =
      (embeddedOf chunks).map fun p => (Entry.ofChunk p.1, p.2) := by
  unfold storable entriesOf embeddedOf
  rw [List.filterMap_map, List.map_filterMap]
  -- a chunk is skipped by both sides, or makes one entry
  induction chunks with
  | nil => rfl
  | cons c rest ih =>
    cases hembedding : c.embedding with
    | none =>
      have hnot : c.isEmbedded = false := by rw [Chunk.isEmbedded, hembedding]
      rw [List.filter_cons_of_neg (by simp [hnot]), ih]
      simp [hembedding]
    | some v =>
      cases v with
      | nil =>
        have hnot : c.isEmbedded = false := by rw [Chunk.isEmbedded, hembedding]
        rw [List.filter_cons_of_neg (by simp [hnot]), ih]
        simp [hembedding]
      | cons x xs =>
        have hhas : c.isEmbedded = true := by rw [Chunk.isEmbedded, hembedding]
        rw [List.filter_cons_of_pos (by simp [hhas])]
        simp only [List.filterMap_cons, Function.comp_apply, hembedding, Entry.ofChunk, ih,
          Option.map_some]

/-- The rows that some chunks become, before they are checked. -/
theorem mapM_storable (chunks : List Chunk) :
    ((storable (entriesOf chunks)).mapM fun (p : Entry × List Float) => Stored.ofEntry p.1 p.2) =
      .ok ((embeddedOf chunks).map fun p => storedOf p.1 p.2) := by
  rw [storable_entriesOf, List.mapM_map]
  induction embeddedOf chunks with
  | nil => rfl
  | cons p rest ih =>
    rw [List.mapM_cons, ih]
    rfl

/-- Chunks whose vectors, as far as they have one, are of one length. -/
def Sized (n : Nat) (chunks : List Chunk) : Prop :=
  ∀ c ∈ chunks, ∀ v, c.embedding = some v → v.length = n

/-- The chunks that are embedded are those that come with a vector. -/
theorem mem_embeddedOf {chunks : List Chunk} {c : Chunk} {v : List Float} :
    (c, v) ∈ embeddedOf chunks ↔ c ∈ chunks ∧ c.isEmbedded = true ∧ c.embedding = some v := by
  unfold embeddedOf
  rw [List.mem_filterMap]
  constructor
  · rintro ⟨c', hc', hmade⟩
    cases hembedding : c'.embedding with
    | none => simp [hembedding] at hmade
    | some w =>
      cases w with
      | nil => simp [hembedding] at hmade
      | cons x xs =>
        simp only [hembedding, Option.some.injEq, Prod.mk.injEq] at hmade
        obtain ⟨rfl, rfl⟩ := hmade
        exact ⟨hc', by rw [Chunk.isEmbedded, hembedding], hembedding⟩
  · rintro ⟨hc, hembedded, hembedding⟩
    refine ⟨c, hc, ?_⟩
    cases v with
    | nil => simp [Chunk.isEmbedded, hembedding] at hembedded
    | cons x xs => rw [hembedding]

theorem exists_embedding {c : Chunk} (h : c.isEmbedded = true) : ∃ v, c.embedding = some v := by
  unfold Chunk.isEmbedded at h
  cases hembedding : c.embedding with
  | none => simp [hembedding] at h
  | some v => exact ⟨v, rfl⟩

theorem textFault?_eq_none {column : Stored → Value} {rows : List Stored}
    (h : ∀ row ∈ rows, ∃ s, column row = .text s) : textFault? column rows = none := by
  unfold textFault?
  rw [List.findSome?_eq_none_iff]
  intro row hrow
  obtain ⟨s, hs⟩ := h row hrow
  rw [hs]

theorem lengthFault?_eq_none {n : Nat} {rows : List Stored}
    (h : ∀ row ∈ rows, row.vector.length = n) : lengthFault? rows = none := by
  unfold lengthFault?
  cases rows with
  | nil => rfl
  | cons first rest =>
    rw [List.findSome?_eq_none_iff]
    intro row hrow
    rw [h row hrow, h first List.mem_cons_self, if_pos rfl]

theorem lineFault?_eq_none_iff {rows : List Stored} :
    lineFault? rows = none ↔ ∀ row ∈ rows, FitsLine row.line := by
  unfold lineFault?
  rw [List.findSome?_eq_none_iff]
  refine forall₂_congr fun row hrow => ?_
  unfold FitsLine
  by_cases hfits : -(Nat.pow 2 31 : Int) ≤ row.line ∧ row.line < (Nat.pow 2 31 : Int)
  · rw [if_pos hfits]
    exact ⟨fun _ => hfits, fun _ => rfl⟩
  · rw [if_neg hfits]
    constructor
    · intro hnone
      split at hnone <;> simp at hnone
    · intro h
      exact absurd h hfits

/-- Chunks with vectors of one length make a table exactly if their lines fit. -/
theorem tableFault?_eq_none_iff {n : Nat} {chunks : List Chunk} (hsized : Sized n chunks) :
    tableFault? ((embeddedOf chunks).map fun p => storedOf p.1 p.2) = none ↔
      ∀ c ∈ chunks, c.isEmbedded = true → FitsLine c.line := by
  have hrows : ∀ row ∈ (embeddedOf chunks).map (fun p => storedOf p.1 p.2),
      ∃ c v, (c, v) ∈ embeddedOf chunks ∧ row = storedOf c v := by
    intro row hrow
    obtain ⟨p, hp, rfl⟩ := List.mem_map.mp hrow
    exact ⟨p.1, p.2, hp, rfl⟩
  have htext : ∀ {column : Stored → Value}, (∀ c v, ∃ s, column (storedOf c v) = .text s) →
      textFault? column ((embeddedOf chunks).map fun p => storedOf p.1 p.2) = none := by
    intro column hcolumn
    refine textFault?_eq_none fun row hrow => ?_
    obtain ⟨c, v, -, rfl⟩ := hrows row hrow
    exact hcolumn c v
  -- all other columns are texts, and the vectors are of one length
  have hlength : lengthFault? ((embeddedOf chunks).map fun p => storedOf p.1 p.2) = none := by
    refine lengthFault?_eq_none (n := n) fun row hrow => ?_
    obtain ⟨c, v, hcv, rfl⟩ := hrows row hrow
    obtain ⟨hc, -, hembedding⟩ := mem_embeddedOf.mp hcv
    exact hsized c hc v hembedding
  have hline : tableFault? ((embeddedOf chunks).map fun p => storedOf p.1 p.2) =
      lineFault? ((embeddedOf chunks).map fun p => storedOf p.1 p.2) := by
    unfold tableFault?
    rw [hlength, htext fun c v => ⟨_, rfl⟩, htext fun c v => ⟨_, rfl⟩, htext fun c v => ⟨_, rfl⟩,
      htext fun c v => ⟨_, rfl⟩]
    cases lineFault? ((embeddedOf chunks).map fun p => storedOf p.1 p.2) <;> rfl
  rw [hline, lineFault?_eq_none_iff]
  constructor
  · intro hfits c hc hembedded
    obtain ⟨v, hv⟩ := exists_embedding hembedded
    exact hfits (storedOf c v)
      (List.mem_map_of_mem (f := fun p => storedOf p.1 p.2)
        (mem_embeddedOf.mpr ⟨hc, hembedded, hv⟩))
  · intro hfits row hrow
    obtain ⟨c, v, hcv, rfl⟩ := hrows row hrow
    obtain ⟨hc, hembedded, -⟩ := mem_embeddedOf.mp hcv
    exact hfits c hc hembedded

/-- Chunks of which some are embedded, all of these with vectors of one length. -/
structure Storable (n : Nat) (chunks : List Chunk) : Prop where
  sized : Sized n chunks
  embedded : ∃ c ∈ chunks, c.isEmbedded = true

/-- Some rows come of chunks of which some are embedded. -/
theorem Storable.exists_row {n : Nat} {chunks : List Chunk} (h : Storable n chunks) :
    ∃ row rest, (embeddedOf chunks).map (fun p => (storedOf p.1 p.2).row) = row :: rest := by
  obtain ⟨c, hc, hembedded⟩ := h.embedded
  obtain ⟨v, hv⟩ := exists_embedding hembedded
  have hmem : (c, v) ∈ embeddedOf chunks := mem_embeddedOf.mpr ⟨hc, hembedded, hv⟩
  cases hall : embeddedOf chunks with
  | nil => simp [hall] at hmem
  | cons p rest => exact ⟨_, _, List.map_cons⟩

/-- Chunks whose lines fit become a table. -/
theorem exists_build {d : Database} (hd : d.Writable) (name : String) {n : Nat}
    {chunks : List Chunk} (h : Storable n chunks)
    (hfits : ∀ c ∈ chunks, c.isEmbedded = true → FitsLine c.line) :
    ∃ index written, VectorIndex.build d name chunks = .ok (index, written) ∧
      index.collection = name ∧ written.failures = d.failures ∧ (written.rows? name).isSome ∧
        ∀ other, other ≠ name → written.rows? other = d.rows? other := by
  obtain ⟨row, rest, hrows⟩ := h.exists_row
  obtain ⟨written, hcreate, hsame, htables⟩ := Database.exists_createTable hd name (row :: rest)
  -- the rows are written, and there is at least one
  have hwritten : upsert d name (entriesOf chunks) = .ok written := by
    unfold upsert rowsOf
    rw [mapM_storable]
    dsimp only
    rw [(tableFault?_eq_none_iff h.sized).mpr hfits, List.map_map]
    show writeRows d name ((embeddedOf chunks).map fun p => (storedOf p.1 p.2).row) = .ok written
    rw [hrows, writeRows, List.isEmpty_cons, if_neg (by decide), hcreate]
  refine ⟨⟨name, (entriesOf chunks).length⟩, written, ?_, rfl, hsame, ?_, ?_⟩
  · unfold VectorIndex.build
    dsimp only
    rw [hwritten]
    rfl
  · rw [htables, if_pos rfl]
    rfl
  · intro other hother
    rw [htables, if_neg hother]

/-- Chunks with a line that does not fit make the store unavailable. -/
theorem exists_unavailable {d : Database} (name : String) {n : Nat} {chunks : List Chunk}
    (h : Storable n chunks) (hfits : ¬ ∀ c ∈ chunks, c.isEmbedded = true → FitsLine c.line) :
    ∃ u, VectorIndex.build d name chunks = .error (.unavailable u) := by
  obtain ⟨fault, hfault⟩ := Option.ne_none_iff_exists'.mp
    (mt (tableFault?_eq_none_iff h.sized).mp hfits)
  have hrows : rowsOf name (entriesOf chunks) =
      .error (.unavailable (.writing name fault.message)) := by
    unfold rowsOf
    rw [mapM_storable]
    dsimp only
    rw [hfault]
  refine ⟨.writing name fault.message, ?_⟩
  unfold VectorIndex.build upsert
  dsimp only
  rw [hrows]
  rfl

theorem rowsOf_ne_data (name : String) (chunks : List Chunk) (fault : Fault) :
    rowsOf name (entriesOf chunks) ≠ .error (.data fault) := by
  unfold rowsOf
  rw [mapM_storable]
  dsimp only
  split <;> simp

theorem writeRows_ne_data (d : Database) (name : String) (rows : List Row) (fault : Fault) :
    writeRows d name rows ≠ .error (.data fault) := by
  unfold writeRows
  split
  · simp
  · split <;> simp

/-- Whatever keeps chunks from becoming a table makes the store unavailable. -/
theorem build_ne_data (d : Database) (name : String) (chunks : List Chunk) (fault : Fault) :
    VectorIndex.build d name chunks ≠ .error (.data fault) := by
  intro hbuild
  unfold VectorIndex.build upsert at hbuild
  dsimp only at hbuild
  cases hrows : rowsOf name (entriesOf chunks) with
  | error broken =>
    rw [hrows] at hbuild
    obtain rfl : broken = .data fault := Except.error.inj hbuild
    exact rowsOf_ne_data name chunks fault hrows
  | ok rows =>
    rw [hrows] at hbuild
    cases hwritten : writeRows d name rows with
    | error broken =>
      simp only [bind, Except.bind, hwritten] at hbuild
      obtain rfl : broken = .data fault := Except.error.inj hbuild
      exact writeRows_ne_data d name rows fault hwritten
    | ok written => simp [bind, Except.bind, pure, Except.pure, hwritten] at hbuild

end CodeSearch.Vector

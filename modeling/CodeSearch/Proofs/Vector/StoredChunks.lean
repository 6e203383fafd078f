import CodeSearch.Proofs.Vector.Replacement

/-!
What is found of the chunks over which an index was built.

If some chunk is embedded the index is a table with one row for each that is (`build_cases`). Every
database that answers from this table with rows as they were stored, at most as many as are asked
for (`Draws`), then gives one hit for each chunk of the kind, and the hit tells what the chunk
is (`found_of_stored`). The kind has to be one that a condition can spell: with a quote in it the
condition is another one.
-/
set_option autoImplicit false

namespace CodeSearch.Vector

variable {db db' : Database} {collection : String} {chunks : List Chunk}

/-! ## The table of an index -/

theorem rowsOf_entriesOf {rows : List Row} (h : rowsOf collection (entriesOf chunks) = .ok rows) :
    rows = chunkRows chunks := by
  unfold rowsOf at h
  rw [mapM_storable] at h
  dsimp only at h
  split at h
  · exact absurd h (by simp)
  · rw [List.map_map, Except.ok.injEq] at h
    rw [← h, ← chunkRows_eq]
    rfl

/-- The chunks that are embedded become the table, and all other tables stay; if there are none,
nothing is done. -/
theorem build_cases {index : VectorIndex}
    (h : VectorIndex.build db collection chunks = .ok (index, db')) :
    index.collection = collection ∧ index.size = (chunkRows chunks).length ∧
      (chunkRows chunks = [] ∧ db' = db ∨
        chunkRows chunks ≠ [] ∧ db'.failures = db.failures ∧
          ∀ other, db'.rows? other =
            if other = collection then some (chunkRows chunks) else db.rows? other) := by
  obtain ⟨rfl, hwritten⟩ := build_inv h
  refine ⟨rfl, ?_, ?_⟩
  · simp [entriesOf, chunkRows]
  · unfold upsert at hwritten
    cases hrows : rowsOf collection (entriesOf chunks) with
    | error fault => simp [hrows, bind, Except.bind] at hwritten
    | ok rows =>
      obtain rfl := rowsOf_entriesOf hrows
      simp only [hrows, bind, Except.bind, writeRows] at hwritten
      by_cases hnone : chunkRows chunks = []
      · rw [hnone, List.isEmpty_nil, if_pos rfl, Except.ok.injEq] at hwritten
        exact Or.inl ⟨hnone, hwritten.symm⟩
      · rw [if_neg (by simpa using hnone)] at hwritten
        cases hmade : db.createTable collection (chunkRows chunks) with
        | error reason => simp [hmade] at hwritten
        | ok made =>
          simp only [hmade, Except.ok.injEq] at hwritten
          subst hwritten
          exact Or.inr ⟨hnone, Database.createTable_inv hmade⟩

/-! ## Searches in it -/

/-- A search for a kind that is answered with rows drawn from its table, out of those which the
database takes under the condition for the kind. -/
def Draws (db asked : Database) (collection : String) (vector : List Float) (limit : Int)
    (kind : Option String) (far : Row → Float) : Prop :=
  ∃ stored ranked rows, db.rows? collection = some stored ∧
    db.search collection vector limit (askedClause kind) = .ok (rows, asked) ∧
      Drawn far stored (db.takes (askedClause kind)) limit ranked rows

/-- The database kept in memory answers so, if nothing fails and no answer is prepared. -/
theorem draws_own {stored : List Row} (hstored : db.rows? collection = some stored)
    (hopen : db.check .open = .ok ()) (hsearch : db.check .search = .ok ())
    (hanswer : db.answer = none) (vector : List Float) {limit : Int} (hlimit : 0 ≤ limit)
    (kind : Option String) :
    ∃ asked, Draws db asked collection vector limit kind (Database.distance vector) := by
  obtain ⟨asked, hfound⟩ :=
    search_own hstored hopen hsearch hanswer vector limit (askedClause kind)
  exact ⟨asked, stored, _, _, hstored, hfound,
    drawn_found vector hlimit (db.takes (askedClause kind)) stored⟩

/-- Of the rows of chunks those of the kind are taken. -/
theorem drawn_of_takes {far : Row → Float} {kind : Option String} {limit : Int}
    {ranked rows : List Row} (hplain : ∀ k ∈ kind, Text.singleQuote ∉ k.toList)
    (h : Drawn far (chunkRows chunks) (db.takes (askedClause kind)) limit ranked rows) :
    Drawn far (chunkRows chunks) (isOfKind (askedKind kind)) limit ranked rows where
  returned := h.returned
  perm := by
    have hsame : (chunkRows chunks).filter (db.takes (askedClause kind)) =
        (chunkRows chunks).filter (isOfKind (askedKind kind)) := by
      apply List.filter_congr
      intro row hrow
      obtain ⟨c, -, rfl⟩ := List.mem_map.mp hrow
      have hheld : column (rowOf c) "kind" = .text c.kind := rfl
      exact takes_askedClause db hplain hheld
    rw [← hsame]
    exact h.perm

/-- From a table of chunks it gives hits on those of the kind, in some order, up to the limit. -/
theorem queryStore_of_draws {asked : Database} {vector : List Float} {limit : Int}
    {kind : Option String} {far : Row → Float} (hplain : ∀ k ∈ kind, Text.singleQuote ∉ k.toList)
    (hrows : db.rows? collection = some (chunkRows chunks))
    (h : Draws db asked collection vector limit kind far) :
    ∃ order : List Chunk, order.Perm (chunks.filter fun c => c.isEmbedded ∧ IsAskedFor kind c) ∧
      queryStore db collection vector limit kind =
        (.ok ((order.take limit.toNat).map fun c => hitOf (far (rowOf c)) c), asked) := by
  obtain ⟨stored, ranked, rows, hstored, hsearch, hdrawn⟩ := h
  obtain rfl : chunkRows chunks = stored := Option.some.inj (hrows.symm.trans hstored)
  obtain ⟨order, hperm, -, hhits⟩ := hits_of_drawn (drawn_of_takes hplain hdrawn)
  exact ⟨order, hperm, queryStore_of_search hsearch hhits⟩

/-! ## All chunks again -/

/-- Chunks that are stored as a whole: there are some, with ids that differ, and all of them are
embedded, with vectors of one length. -/
structure Stores (n : Nat) (chunks : List Chunk) : Prop where
  nonempty : chunks ≠ []
  distinct : (chunks.map (·.id)).Nodup
  embedded : ∀ c ∈ chunks, c.isEmbedded = true
  sized : Sized n chunks

theorem Stores.storable {n : Nat} (h : Stores n chunks) : Storable n chunks where
  sized := h.sized
  embedded := by
    obtain ⟨c, hc⟩ := List.exists_mem_of_ne_nil chunks h.nonempty
    exact ⟨c, hc, h.embedded c hc⟩

theorem chunkRows_of_embedded (h : ∀ c ∈ chunks, c.isEmbedded = true) :
    chunkRows chunks = chunks.map rowOf := by
  unfold chunkRows
  rw [List.filter_eq_self.mpr h]

/-- Where tables can be written, such chunks make one exactly if their lines fit. -/
theorem Stores.exists_build_iff (hdb : db.Writable) (collection : String) {n : Nat}
    (h : Stores n chunks) :
    (∃ built, VectorIndex.build db collection chunks = .ok built) ↔
      ∀ c ∈ chunks, FitsLine c.line := by
  constructor
  · rintro ⟨built, hbuild⟩
    by_contra hfits
    obtain ⟨u, hu⟩ := exists_unavailable (d := db) collection h.storable
      (fun hall => hfits fun c hc => hall c hc (h.embedded c hc))
    rw [hbuild] at hu
    exact absurd hu (by simp)
  · intro hfits
    obtain ⟨index, written, hbuild, -⟩ :=
      exists_build hdb collection h.storable fun c hc _ => hfits c hc
    exact ⟨_, hbuild⟩

/-- Once an index is built over such chunks, every search that is answered from its table, and for at
least as many hits as there are chunks, gives exactly one hit for each chunk, or for each of the
kind that is asked for. The hit tells the id, the kind, the name, the file, the line and the text of
the chunk, and its dependencies in their order; the text that these are stored as is read back for
all names. The index can be built if tables can be written and all lines fit. -/
theorem found_of_stored (db : Database) (collection : String) {n : Nat} (h : Stores n chunks) :
    (db.Writable → ((∃ built, VectorIndex.build db collection chunks = .ok built) ↔
      ∀ c ∈ chunks, FitsLine c.line)) ∧
    (∀ index written, VectorIndex.build db collection chunks = .ok (index, written) →
      index.size = chunks.length ∧
      ∀ (later asked : Database) (vector : List Float) (limit : Int) (kind : Option String)
          (far : Row → Float), (∀ k ∈ kind, Text.singleQuote ∉ k.toList) →
        later.rows? collection = written.rows? collection → (chunks.length : Int) ≤ limit →
        Draws later asked collection vector limit kind far →
        ∃ order : List Chunk, order.Perm (chunks.filter fun c => IsAskedFor kind c) ∧
          (kind = none → order.Perm chunks) ∧
          (order.map (·.id)).Nodup ∧
          queryStore later collection vector limit kind =
            (.ok (order.map fun c => hitOf (far (rowOf c)) c), asked)) ∧
    ∀ needs : Text.NameSet, dependenciesIn (.text (Json.render (.list (needs.names.map .text)))) =
      .ok (.list (needs.names.map .text)) := by
  refine ⟨fun hdb => h.exists_build_iff hdb collection, ?_,
    fun needs => dependenciesIn_render needs.names⟩
  intro index written hbuild
  obtain ⟨-, hsize, hcases⟩ := build_cases hbuild
  have hall := chunkRows_of_embedded h.embedded
  have hlength : (chunkRows chunks).length = chunks.length := by
    rw [hall, List.length_map]
  -- there is a chunk, so a table was made
  have hwritten : written.rows? collection = some (chunkRows chunks) := by
    rcases hcases with ⟨hnone, -⟩ | ⟨-, -, hrows⟩
    · rw [hall] at hnone
      exact absurd (List.map_eq_nil_iff.mp hnone) h.nonempty
    · rw [hrows, if_pos rfl]
  refine ⟨hsize.trans hlength, ?_⟩
  intro later asked vector limit kind far hplain hsame hlimit hdraws
  obtain ⟨order, hperm, hhits⟩ := queryStore_of_draws hplain (hsame.trans hwritten) hdraws
  have hfilter : (chunks.filter fun c => c.isEmbedded ∧ IsAskedFor kind c) =
      chunks.filter fun c => IsAskedFor kind c := by
    apply List.filter_congr
    intro c hc
    simp [h.embedded c hc]
  rw [hfilter] at hperm
  -- nothing is cut off
  have hle : order.length ≤ limit.toNat := by
    have hpart := List.length_filter_le (fun c => decide (IsAskedFor kind c)) chunks
    have hsame := hperm.length_eq
    omega
  rw [List.take_of_length_le hle] at hhits
  refine ⟨order, hperm, ?_, ?_, hhits⟩
  · rintro rfl
    have hevery : (chunks.filter fun c => IsAskedFor none c) = chunks :=
      List.filter_eq_self.mpr fun c _ => decide_eq_true fun k hk => absurd hk (by simp [askedKind])
    rwa [hevery] at hperm
  · rw [(hperm.map (·.id)).nodup_iff]
    exact h.distinct.sublist (List.filter_sublist.map _)

/-- A function that needs names with quotes and with a character outside the first plane. -/
def functionWithNeeds : Chunk :=
  { functionAt 2 with dependencies := ⟨["a\"b\\", "😀"], by decide⟩ }

/-- Two functions are found again when their tables are opened later, and no class is. -/
theorem found_of_stored_twoFunctions :
    ∃ index written, ∃ order : List Chunk,
      VectorIndex.build {} "c" [functionAt 1, functionWithNeeds] = .ok (index, written) ∧
        index.size = 2 ∧ order.Perm [functionAt 1, functionWithNeeds] ∧
        (queryStore { tables := written.tables } "c" [1.0] 5 none).1 =
          .ok (order.map fun c => hitOf (Database.distance [1.0] (rowOf c)) c) ∧
        (queryStore { tables := written.tables } "c" [1.0] 5 (some "class")).1 = .ok [] := by
  have hstores : Stores 1 [functionAt 1, functionWithNeeds] := by
    refine ⟨by simp, by decide, ?_, ?_⟩
    · simp [functionAt, functionWithNeeds, Chunk.isEmbedded]
    · simp [Sized, functionAt, functionWithNeeds]
  obtain ⟨hbuilt, hfound, -⟩ := found_of_stored {} "c" hstores
  obtain ⟨⟨index, written⟩, hbuild⟩ := (hbuilt (Database.writable_of_healthy rfl)).mpr
    (by simp [FitsLine, functionAt, functionWithNeeds])
  obtain ⟨hsize, hqueries⟩ := hfound index written hbuild
  obtain ⟨-, -, ⟨hnone, -⟩ | ⟨-, -, hrows⟩⟩ := build_cases hbuild
  · exact absurd hnone (by decide)
  · let later : Database := { tables := written.tables }
    have hlater : later.rows? "c" = some (chunkRows [functionAt 1, functionWithNeeds]) := by
      rw [show later.rows? "c" = written.rows? "c" from rfl, hrows, if_pos rfl]
    have hdraws : ∀ kind, ∃ asked,
        Draws later asked "c" [1.0] 5 kind (Database.distance [1.0]) := fun kind =>
      draws_own hlater rfl rfl rfl [1.0] (by decide) kind
    obtain ⟨_, hall⟩ := hdraws none
    obtain ⟨_, hclasses⟩ := hdraws (some "class")
    obtain ⟨order, -, hevery, -, hhits⟩ :=
      hqueries later _ [1.0] 5 none _ (by simp) rfl (by decide) hall
    obtain ⟨left, hperm, -, -, hnothing⟩ :=
      hqueries later _ [1.0] 5 (some "class") _ (by decide) rfl (by decide) hclasses
    have hfiltered : ([functionAt 1, functionWithNeeds].filter fun c =>
        IsAskedFor (some "class") c) = [] := by decide
    rw [hfiltered, List.perm_nil] at hperm
    refine ⟨index, written, order, hbuild, hsize, hevery rfl, ?_, ?_⟩
    · exact congrArg Prod.fst hhits
    · rw [hperm] at hnothing
      exact congrArg Prod.fst hnothing

/-- A kind with a quote in it. -/
def possessive : Chunk :=
  { functionAt 1 with kind := "it's" }

/-- No condition takes a row with a quote in its kind. -/
def Dialect.unquoted : Dialect where
  takes clause row :=
    let held := (column row "kind").display
    !held.toList.contains Text.singleQuote && kindClause held == clause
  takes_kind kind held row hplain hheld := by
    rw [hheld, Value.display, Bool.eq_iff_iff, decide_eq_true_iff, Bool.and_eq_true, beq_iff_eq,
      kindClause_inj, Bool.not_eq_true', List.contains_eq_mem, decide_eq_false_iff_not]
    constructor
    · exact fun h => h.2
    · rintro rfl
      exact ⟨hplain, rfl⟩

/-- Over nothing no table is made, so that searches fail; a line can be too far down for its column;
the empty kind is not asked for, so that functions are found for it; and with a quote in it a kind
need not be found. -/
theorem not_found_of_stored :
    (∃ index, VectorIndex.build {} "c" [] = .ok (index, {}) ∧
      ∀ vector limit kind, ∃ u, (queryStore {} "c" vector limit kind).1 = .error (.unavailable u)) ∧
    (∃ u, VectorIndex.build {} "c" [functionAt (2 ^ 31)] = .error (.unavailable u)) ∧
    (∃ index written hits, VectorIndex.build {} "c" [functionAt 1] = .ok (index, written) ∧
      (functionAt 1).kind ≠ "" ∧
        (queryStore written "c" [1.0] 5 (some "")).1 = .ok hits ∧ hits.length = 1) ∧
    ∃ index written, VectorIndex.build { dialect := .unquoted } "c" [possessive] =
        .ok (index, written) ∧
      (queryStore written "c" [1.0] 5 (some possessive.kind)).1 = .ok [] := by
  refine ⟨⟨_, rfl, ?_⟩, ?_, ?_, ?_⟩
  · intro vector limit kind
    exact ⟨_, rfl⟩
  · apply exists_unavailable (n := 1) "c"
    · exact ⟨by simp [Sized, functionAt], functionAt (2 ^ 31), by simp, rfl⟩
    · simp [FitsLine, functionAt, Chunk.isEmbedded]
  · obtain ⟨index, written, hbuild, hrows, hopen, hsearch, hanswer⟩ : ∃ index written,
        VectorIndex.build {} "c" [functionAt 1] = .ok (index, written) ∧
          written.rows? "c" = some (chunkRows [functionAt 1]) ∧
          written.check .open = .ok () ∧ written.check .search = .ok () ∧
          written.answer = none := ⟨_, _, rfl, rfl, rfl, rfl, rfl⟩
    have hlimit : (0 : Int) ≤ 5 := by decide
    obtain ⟨asked, hdraws⟩ := draws_own hrows hopen hsearch hanswer [1.0] hlimit (some "")
    obtain ⟨order, hperm, hhits⟩ := queryStore_of_draws (by simp) hrows hdraws
    have hfiltered : ([functionAt 1].filter fun c => c.isEmbedded ∧ IsAskedFor (some "") c) =
        [functionAt 1] := rfl
    rw [hfiltered, List.perm_singleton] at hperm
    rw [hperm] at hhits
    exact ⟨index, written, _, hbuild, by decide, congrArg Prod.fst hhits, rfl⟩
  · obtain ⟨index, written, hbuild, hrows, hopen, hsearch, hanswer, hdialect⟩ :
        ∃ index written, VectorIndex.build { dialect := .unquoted } "c" [possessive] =
          .ok (index, written) ∧ written.rows? "c" = some (chunkRows [possessive]) ∧
            written.check .open = .ok () ∧ written.check .search = .ok () ∧
            written.answer = none ∧ written.dialect = .unquoted :=
      ⟨_, _, rfl, rfl, rfl, rfl, rfl, rfl⟩
    obtain ⟨asked, hfound⟩ :=
      search_own hrows hopen hsearch hanswer [1.0] 5 (askedClause (some possessive.kind))
    have htaken : (chunkRows [possessive]).filter
        (written.takes (askedClause (some possessive.kind))) = [] := by
      unfold Database.takes
      rw [hdialect]
      decide
    have hnone : Database.found [1.0] 5 (written.takes (askedClause (some possessive.kind)))
        (chunkRows [possessive]) = [] := by
      rw [Database.found, Database.nearest, htaken, List.map_nil, List.mergeSort_nil]
      rfl
    rw [hnone] at hfound
    exact ⟨index, written, hbuild, congrArg Prod.fst (queryStore_of_search hfound rfl)⟩

end CodeSearch.Vector

import CodeSearch.Proofs.Decimal.Rounding
import CodeSearch.Proofs.Json.RoundTrip
import CodeSearch.Proofs.Search.Ranking
import CodeSearch.Proofs.Vector.Rows
import Mathlib.Data.List.Forall2

/-!
What a search in a table of chunks brings back.

A search puts the stored rows that it takes in some order and returns the first ones, each with a
distance (`Drawn`); if no row comes before a nearer one it returns the nearest (`Nearest`). Nothing
more is asked of a database, so what follows from this holds of every one that keeps it, and the
database kept in memory is one of them (`nearest_found`). Which rows are taken is said by a condition;
whatever else a database makes of conditions, under the one for a kind it takes the rows of this kind
(`takes_askedClause`).

Rows that were made of chunks are read back as hits that tell everything about these chunks but
their vectors (`hitOf`), in the order in which they were drawn.
-/
set_option autoImplicit false

namespace CodeSearch.Vector

open CodeSearch.Decimal (IsNumber isNumber_of_le isNumber_of_lt le_iff_place_le lt_iff_place_lt
  one_sub_le_one_sub place place_one_sub)
open CodeSearch.Search (notWorse notWorse_total notWorse_trans upTo_eq_take)

/-! ## Similarities -/

theorem isNumber_zero : IsNumber 0.0 ∧ place 0.0 = 0 :=
  ⟨(isNumber_of_le (x := 0.0) (y := 0.0) (by decide +kernel)).1, by decide +kernel⟩

theorem isNumber_one : IsNumber 1.0 ∧ place 1.0 = 1023 * 2 ^ 52 :=
  ⟨(isNumber_of_le (x := 1.0) (y := 1.0) (by decide +kernel)).1, by decide +kernel⟩

/-- What is left of one, kept between zero and one. -/
theorem similarityOf_cases (far : Float) :
    similarityOf far = 1.0 ∧ ¬ 1.0 - far < 1.0 ∨
      similarityOf far = 1.0 - far ∧ 1.0 - far < 1.0 ∧ 0.0 < 1.0 - far ∨
      similarityOf far = 0.0 ∧ 1.0 - far < 1.0 ∧ ¬ 0.0 < 1.0 - far := by
  have hpositive : (0.0 : Float) < 1.0 := by decide +kernel
  unfold similarityOf
  dsimp only
  by_cases hcap : 1.0 - far < 1.0
  · rw [if_pos hcap]
    by_cases hpos : 0.0 < 1.0 - far
    · rw [if_pos hpos]
      exact Or.inr (Or.inl ⟨rfl, hcap, hpos⟩)
    · rw [if_neg hpos]
      exact Or.inr (Or.inr ⟨rfl, hcap, hpos⟩)
  · rw [if_neg hcap, if_pos hpositive]
    exact Or.inl ⟨rfl, hcap⟩

/-- A similarity is a number between zero and one, even if the distance is none. -/
theorem isNumber_similarityOf (far : Float) :
    IsNumber (similarityOf far) ∧ 0.0 ≤ similarityOf far ∧ similarityOf far ≤ 1.0 := by
  obtain ⟨hzero, hplace₀⟩ := isNumber_zero
  obtain ⟨hone, hplace₁⟩ := isNumber_one
  rcases similarityOf_cases far with ⟨heq, -⟩ | ⟨heq, hcap, hpos⟩ | ⟨heq, -⟩
  · rw [heq]
    exact ⟨hone, by decide +kernel, by decide +kernel⟩
  · have hrest : IsNumber (1.0 - far) := (isNumber_of_lt hcap).1
    rw [lt_iff_place_lt hrest hone] at hcap
    rw [lt_iff_place_lt hzero hrest] at hpos
    rw [heq]
    refine ⟨hrest, ?_, ?_⟩
    · rw [le_iff_place_le hzero hrest]
      omega
    · rw [le_iff_place_le hrest hone]
      omega
  · rw [heq]
    exact ⟨hzero, by decide +kernel, by decide +kernel⟩

/-- What is farther away is not more similar. -/
theorem similarityOf_le_similarityOf {near far : Float} (hle : near ≤ far) :
    similarityOf far ≤ similarityOf near := by
  obtain ⟨hzero, hplace₀⟩ := isNumber_zero
  obtain ⟨hone, hplace₁⟩ := isNumber_one
  obtain ⟨hnear, hfar⟩ := isNumber_of_le hle
  have hrest := one_sub_le_one_sub hle
  have hplaces : ∀ {x : Float}, IsNumber x →
      place (similarityOf x) = max 0 (min (place (1.0 - x)) (1023 * 2 ^ 52)) := by
    intro x hx
    obtain ⟨hleft, -⟩ := place_one_sub hx
    rcases similarityOf_cases x with ⟨heq, hcap⟩ | ⟨heq, hcap, hpos⟩ | ⟨heq, hcap, hpos⟩
    · rw [lt_iff_place_lt hleft hone] at hcap
      rw [heq]
      omega
    · rw [lt_iff_place_lt hleft hone] at hcap
      rw [lt_iff_place_lt hzero hleft] at hpos
      rw [heq]
      omega
    · rw [lt_iff_place_lt hleft hone] at hcap
      rw [lt_iff_place_lt hzero hleft] at hpos
      rw [heq]
      omega
  rw [le_iff_place_le (place_one_sub hfar).1 (place_one_sub hnear).1] at hrest
  rw [le_iff_place_le (isNumber_similarityOf far).1 (isNumber_similarityOf near).1, hplaces hnear,
    hplaces hfar]
  omega

/-! ## What searches return -/

/-- A row as a search gives it back: with its distance, and otherwise as it was stored. The vector
need not be given back. -/
structure Returned (stored : Row) (far : Float) (row : Row) : Prop where
  distance : Value.find? "_distance" row = some (.float far)
  column : ∀ name, name ≠ "_distance" → name ≠ "vector" →
    Value.find? name row = Value.find? name stored

/-- Rows that are returned of those in a table: all that are taken are put in some order, each once,
and the first ones are returned. -/
structure Drawn (far : Row → Float) (stored : List Row) (taken : Row → Bool) (limit : Int)
    (ranked rows : List Row) : Prop where
  perm : ranked.Perm (stored.filter taken)
  returned : List.Forall₂ (fun row found => Returned row (far row) found)
    (ranked.take limit.toNat) rows

/-- The nearest rows are returned. -/
structure Nearest (far : Row → Float) (stored : List Row) (taken : Row → Bool) (limit : Int)
    (ranked rows : List Row) : Prop extends Drawn far stored taken limit ranked rows where
  ascending : ranked.Pairwise fun a b => far a ≤ far b

theorem returned_cons (stored : Row) (far : Float) :
    Returned stored far (("_distance", .float far) :: stored) where
  distance := rfl
  column name hdistance _ := by
    have hne : (("_distance" : String) == name) = false := beq_false_of_ne (Ne.symm hdistance)
    rw [Value.find?, Value.find?, List.find?_cons, hne]

/-- The database kept in memory returns rows as they are stored. -/
theorem drawn_found (vector : List Float) {limit : Int} (hlimit : 0 ≤ limit) (taken : Row → Bool)
    (stored : List Row) :
    Drawn (Database.distance vector) stored taken limit
      ((Database.nearest vector taken stored).map (·.1))
      (Database.found vector limit taken stored) := by
  have hperm : (Database.nearest vector taken stored).Perm
      ((stored.filter taken).map fun row =>
        (row, Database.distance vector row)) := List.mergeSort_perm _ _
  have hfar : ∀ p ∈ Database.nearest vector taken stored, p.2 = Database.distance vector p.1 := by
    intro p hp
    obtain ⟨row, hrow, rfl⟩ := List.mem_map.mp (hperm.mem_iff.mp hp)
    rfl
  constructor
  · have hrows := hperm.map (·.1)
    rw [List.map_map] at hrows
    exact hrows.trans (List.Perm.of_eq (List.map_id _))
  · unfold Database.found
    rw [upTo_eq_take hlimit, ← List.map_take, List.forall₂_map_left_iff,
      List.forall₂_map_right_iff, List.forall₂_same]
    intro p hp
    rw [← hfar p (List.mem_of_mem_take hp)]
    exact returned_cons p.1 p.2

/-- As long as its distances are numbers, the nearest ones. -/
theorem nearest_found (vector : List Float) {limit : Int} (hlimit : 0 ≤ limit)
    (taken : Row → Bool) {stored : List Row}
    (hnumbers : ∀ row ∈ stored, IsNumber (Database.distance vector row)) :
    Nearest (Database.distance vector) stored taken limit
      ((Database.nearest vector taken stored).map (·.1))
      (Database.found vector limit taken stored) where
  toDrawn := drawn_found vector hlimit taken stored
  ascending := by
    let measured := (stored.filter taken).map fun row =>
      (row, Database.distance vector row)
    have hmeasured : ∀ p ∈ measured, p.2 = Database.distance vector p.1 ∧ IsNumber p.2 := by
      intro p hp
      obtain ⟨row, hrow, rfl⟩ := List.mem_map.mp hp
      exact ⟨rfl, hnumbers row (List.mem_of_mem_filter hrow)⟩
    -- with distances that are numbers the order is that of their places
    have hsame : ∀ a ∈ measured, ∀ b ∈ measured, (!decide (b.2 < a.2)) =
        notWorse (fun p : Row × Float => -place p.2) (id a) (id b) := by
      intro a ha b hb
      unfold notWorse
      rw [← decide_not, decide_eq_decide, lt_iff_place_lt (hmeasured b hb).2 (hmeasured a ha).2]
      simp only [id]
      omega
    have hsort : Database.nearest vector taken stored =
        measured.mergeSort (notWorse fun p : Row × Float => -place p.2) := by
      unfold Database.nearest
      rw [← List.map_id (List.mergeSort _ _), List.map_mergeSort hsame, List.map_id]
    have hsorted := List.pairwise_mergeSort (notWorse_trans fun p : Row × Float => -place p.2)
      (notWorse_total _) measured
    rw [List.pairwise_map, hsort]
    refine hsorted.imp_of_mem ?_
    intro a b ha hb hab
    obtain ⟨hafar, hanumber⟩ := hmeasured a (List.mem_mergeSort.mp ha)
    obtain ⟨hbfar, hbnumber⟩ := hmeasured b (List.mem_mergeSort.mp hb)
    have hplaces : -place b.2 ≤ -place a.2 := of_decide_eq_true hab
    rw [← hafar, ← hbfar, le_iff_place_le hanumber hbnumber]
    omega

/-- A search that is not answered beforehand is answered from its table. -/
theorem search_own {db : Database} {name : String} {stored : List Row}
    (hstored : db.rows? name = some stored) (hopen : db.check .open = .ok ())
    (hsearch : db.check .search = .ok ()) (hanswer : db.answer = none) (vector : List Float)
    (limit : Int) (clause : Option String) :
    ∃ asked, db.search name vector limit clause =
      .ok (Database.found vector limit (db.takes clause) stored, asked) := by
  unfold Database.search Database.openTable
  rw [hopen, hstored, hsearch, hanswer]
  exact ⟨_, rfl⟩

/-! ## Rows of a kind -/

/-- Whether a row is of the kind that is asked for. -/
def isOfKind (kind : Option String) (row : Row) : Bool :=
  match kind with
  | none => true
  | some kind => (column row "kind").display == kind

/-- Under the condition for a kind without a quote in it, the rows of this kind are taken. -/
theorem takes_askedClause (db : Database) {kind : Option String}
    (hplain : ∀ k ∈ kind, Text.singleQuote ∉ k.toList) {row : Row} {held : String}
    (hheld : column row "kind" = .text held) :
    db.takes (askedClause kind) row = isOfKind (askedKind kind) row := by
  unfold askedClause
  cases hasked : askedKind kind with
  | none => rfl
  | some k =>
    have hk : k ∈ kind := by
      unfold askedKind at hasked
      exact (Option.filter_eq_some_iff.mp hasked).1
    have htakes := db.dialect.takes_kind k held row (hplain k hk) hheld
    rw [Option.map_some, Database.takes, htakes, isOfKind, hheld, Bool.eq_iff_iff,
      decide_eq_true_iff, beq_iff_eq]
    rfl

/-! ## Rows of chunks and their hits -/

/-- The row that a chunk becomes. -/
def rowOf (c : Chunk) : Row :=
  (storedOf c (c.embedding.getD [])).row

/-- The rows of those of some chunks that are embedded. -/
def chunkRows (chunks : List Chunk) : List Row :=
  (chunks.filter (·.isEmbedded)).map rowOf

/-- The hit that tells of a chunk at a distance. -/
def hitOf (far : Float) (c : Chunk) : Hit where
  id := .text c.id
  distance := far
  columns := [
    ("kind", .text c.kind),
    ("name", .text c.name),
    ("file_path", .text c.path),
    ("line", .int c.line),
    ("dependencies", .list (c.dependencies.names.map .text))]
  document := .text c.canonicalText

/-- Whether a chunk is of the kind that is asked for; the empty kind asks for none. -/
def IsAskedFor (kind : Option String) (c : Chunk) : Prop :=
  ∀ k ∈ askedKind kind, c.kind = k

instance (kind : Option String) (c : Chunk) : Decidable (IsAskedFor kind c) :=
  inferInstanceAs (Decidable (∀ k ∈ askedKind kind, c.kind = k))

theorem chunkRows_eq (chunks : List Chunk) :
    (embeddedOf chunks).map (fun p => (storedOf p.1 p.2).row) = chunkRows chunks := by
  unfold embeddedOf chunkRows
  induction chunks with
  | nil => rfl
  | cons c rest ih =>
    cases hembedding : c.embedding with
    | none =>
      have hnot : c.isEmbedded = false := by rw [Chunk.isEmbedded, hembedding]
      rw [List.filter_cons_of_neg (by simp [hnot]), ← ih]
      simp [hembedding]
    | some v =>
      cases v with
      | nil =>
        have hnot : c.isEmbedded = false := by rw [Chunk.isEmbedded, hembedding]
        rw [List.filter_cons_of_neg (by simp [hnot]), ← ih]
        simp [hembedding]
      | cons x xs =>
        have hhas : c.isEmbedded = true := by rw [Chunk.isEmbedded, hembedding]
        rw [List.filter_cons_of_pos (by simp [hhas]), List.map_cons, ← ih]
        simp [hembedding, rowOf]

theorem isOfKind_rowOf (kind : Option String) (c : Chunk) :
    isOfKind (askedKind kind) (rowOf c) = decide (IsAskedFor kind c) := by
  have hkind : (column (rowOf c) "kind").display = c.kind := rfl
  rw [Bool.eq_iff_iff, decide_eq_true_iff]
  unfold isOfKind IsAskedFor
  cases askedKind kind with
  | none => simp
  | some k =>
    dsimp only
    rw [hkind, beq_iff_eq]
    simp

/-- The text of some names, which is never empty, is read as these names. -/
theorem dependenciesIn_render (names : List String) :
    dependenciesIn (.text (Json.render (.list (names.map .text)))) =
      .ok (.list (names.map .text)) := by
  have hparse := Json.parse_render_texts names
  have hnonempty : (Json.render (.list (names.map .text))).isEmpty = false := by
    rw [Bool.eq_false_iff]
    intro hempty
    have hnothing : Json.parse "" = none := rfl
    rw [String.isEmpty_iff.mp hempty, hnothing] at hparse
    exact absurd hparse (by simp)
  unfold dependenciesIn
  simp [Value.holds, hnonempty, hparse]

/-- A row that is returned of a chunk is read as the hit that tells of it. -/
theorem ofRow_returned {c : Chunk} {far : Float} {row : Row} (h : Returned (rowOf c) far row) :
    Hit.ofRow row = .ok (hitOf far c) := by
  have hneeds := dependenciesIn_render c.dependencies.names
  unfold Hit.ofRow
  dsimp only
  rw [h.distance, h.column "dependencies" (by decide) (by decide), h.column "id" (by decide) (by decide),
    h.column "kind" (by decide) (by decide), h.column "name" (by decide) (by decide),
    h.column "file_path" (by decide) (by decide), h.column "line" (by decide) (by decide),
    h.column "document" (by decide) (by decide)]
  -- only the dependencies are not given as they were stored, but as the text that was made of them
  have hfar : ((some (Value.float far)).getD (.float 1.0)).toFloat = .ok far := rfl
  have hcolumn : (Value.find? "dependencies" (rowOf c)).getD .null =
      .text (Json.render (.list (c.dependencies.names.map .text))) := rfl
  rw [hfar, hcolumn, hneeds]
  rfl

/-- What stands in another order than the image of a list is the image of that list in another
order. -/
theorem exists_perm_of_perm_map {α β : Type} {f : α → β} {ys : List β} {xs : List α}
    (h : ys.Perm (xs.map f)) : ∃ order : List α, order.Perm xs ∧ ys = order.map f := by
  have himage : List.Forall₂ (fun y x => y = f x) (xs.map f) xs := by
    rw [List.forall₂_map_left_iff, List.forall₂_same]
    exact fun _ _ => rfl
  obtain ⟨order, hall, hperm⟩ := List.perm_comp_forall₂ h himage
  refine ⟨order, hperm, ?_⟩
  -- element by element the one list is the image of the other
  clear h himage hperm
  induction hall with
  | nil => rfl
  | cons hfirst _ ih => rw [List.map_cons, ← hfirst, ← ih]

section Drawing

variable {far : Row → Float} {chunks : List Chunk} {kind : Option String} {limit : Int}
  {ranked rows : List Row}

/-- Row by row, none of them fails to be read. -/
theorem mapM_ofRow {found : List Chunk}
    (h : List.Forall₂ (fun c row => Returned (rowOf c) (far (rowOf c)) row) found rows) :
    rows.mapM Hit.ofRow = .ok (found.map fun c => hitOf (far (rowOf c)) c) := by
  rw [mapM_eq_ok_iff, List.forall₂_map_right_iff]
  exact h.flip.imp fun _ _ hreturned => ofRow_returned hreturned

/-- Rows drawn from a table of chunks are hits on those of the kind, in the order in which they were
drawn. -/
theorem hits_of_drawn
    (h : Drawn far (chunkRows chunks) (isOfKind (askedKind kind)) limit ranked rows) :
    ∃ order : List Chunk, order.Perm (chunks.filter fun c => c.isEmbedded ∧ IsAskedFor kind c) ∧
      ranked = order.map rowOf ∧
      rows.mapM Hit.ofRow =
        .ok ((order.take limit.toNat).map fun c => hitOf (far (rowOf c)) c) := by
  have hkept : (chunkRows chunks).filter (isOfKind (askedKind kind)) =
      (chunks.filter fun c => c.isEmbedded ∧ IsAskedFor kind c).map rowOf := by
    unfold chunkRows
    rw [List.filter_map, List.filter_filter]
    congr 1
    apply List.filter_congr
    intro c hc
    rw [Function.comp_apply, isOfKind_rowOf, Bool.eq_iff_iff]
    simp [and_comm]
  have hperm := h.perm
  rw [hkept] at hperm
  obtain ⟨order, horder, rfl⟩ := exists_perm_of_perm_map hperm
  refine ⟨order, horder, rfl, ?_⟩
  have hreturned := h.returned
  rw [← List.map_take, List.forall₂_map_left_iff] at hreturned
  exact mapM_ofRow hreturned

theorem queryStore_of_search {db asked : Database} {collection : String} {vector : List Float}
    {hits : List Hit}
    (hsearch : db.search collection vector limit (askedClause kind) = .ok (rows, asked))
    (hhits : rows.mapM Hit.ofRow = .ok hits) :
    queryStore db collection vector limit kind = (.ok hits, asked) := by
  unfold queryStore
  rw [hsearch]
  dsimp only
  rw [hhits]

end Drawing

end CodeSearch.Vector

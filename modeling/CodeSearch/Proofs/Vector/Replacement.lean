import CodeSearch.Proofs.Vector.Nearest

/-!
What a collection holds after its contents have been replaced several times.

A replacement that stores something leaves exactly the entries that it stores (`holds_run`), and one
that stores nothing leaves what was there. So after any number of replacements the collection
holds what the last of them that stored something left (`standing`), and that is what the very last
one asked for unless that one had nothing to store while something was there.
-/
set_option autoImplicit false

namespace CodeSearch.Vector

/-! ## Entries and their rows -/

/-- Whether an entry is stored: only one with a vector that is not empty is. -/
def isStorable (e : Entry) : Bool :=
  match e.embedding with
  | some (_ :: _) => true
  | _ => false

/-- What an entry has in a column, or what stands there if it has nothing. -/
def columnOf (e : Entry) (name : String) (default : Value) : Value :=
  (Value.find? name e.columns).getD default

/-- A row that holds an entry. -/
structure Holds (e : Entry) (row : Row) : Prop where
  id : Value.find? "id" row = some (.text e.id)
  vector : ∃ v, e.embedding = some v ∧ v ≠ [] ∧
    Value.find? "vector" row = some (.list (v.map fun x => .float (Decimal.single x)))
  document : Value.find? "document" row = some (.text e.document)
  kind : Value.find? "kind" row = some (columnOf e "kind" (.text ""))
  name : Value.find? "name" row = some (columnOf e "name" (.text ""))
  path : Value.find? "file_path" row = some (columnOf e "file_path" (.text ""))
  line : ∃ i, (columnOf e "line" (.int 0)).toInt = .ok i ∧ Value.find? "line" row = some (.int i)
  dependencies : Value.find? "dependencies" row = some (columnOf e "dependencies" (.text "[]"))

theorem isStorable_iff {e : Entry} :
    isStorable e = true ↔ ∃ v, e.embedding = some v ∧ v ≠ [] := by
  unfold isStorable
  cases e.embedding with
  | none => simp
  | some v =>
    cases v with
    | nil => simp
    | cons x xs => simp

theorem storable_eq (entries : List Entry) :
    storable entries =
      (entries.filter isStorable).map fun e => (e, e.embedding.getD []) := by
  unfold storable
  induction entries with
  | nil => rfl
  | cons e rest ih =>
    cases hembedding : e.embedding with
    | none => simp [isStorable, hembedding, ih]
    | some v =>
      cases v with
      | nil => simp [isStorable, hembedding, ih]
      | cons x xs => simp [isStorable, hembedding, ih]

theorem holds_row {e : Entry} {s : Stored} (hstorable : isStorable e = true)
    (h : Stored.ofEntry e (e.embedding.getD []) = .ok s) : Holds e s.row := by
  obtain ⟨v, hv, hnonempty⟩ := isStorable_iff.mp hstorable
  rw [hv, Option.getD_some] at h
  unfold Stored.ofEntry at h
  dsimp only at h
  -- only the line can be something that does not fit into its column
  cases hline : ((Value.find? "line" e.columns).getD (.int 0)).toInt with
  | error fault => simp [hline, bind, Except.bind] at h
  | ok i =>
    simp only [hline, bind, Except.bind, pure, Except.pure, Except.ok.injEq] at h
    subst h
    exact ⟨rfl, ⟨v, hv, hnonempty, rfl⟩, rfl, rfl, rfl, rfl, ⟨i, hline, rfl⟩, rfl⟩

/-- The rows that entries become hold those of them that have a vector, in their order. -/
theorem holds_of_rowsOf {collection : String} {entries : List Entry} {rows : List Row}
    (h : rowsOf collection entries = .ok rows) :
    List.Forall₂ Holds (entries.filter isStorable) rows := by
  unfold rowsOf at h
  cases hstored : (storable entries).mapM fun (p : Entry × List Float) =>
      Stored.ofEntry p.1 p.2 with
  | error fault => simp [hstored] at h
  | ok stored =>
    rw [hstored] at h
    dsimp only at h
    cases hfault : tableFault? stored with
    | some fault => simp [hfault] at h
    | none =>
      simp only [hfault, Except.ok.injEq] at h
      rw [storable_eq, List.mapM_map, mapM_eq_ok_iff] at hstored
      have hkept : ∀ e ∈ entries.filter isStorable, isStorable e = true := fun e he =>
        (List.mem_filter.mp he).2
      rw [← h, List.forall₂_map_right_iff]
      exact ((List.forall₂_and_left _ _).mpr ⟨hkept, hstored⟩).imp fun e s hmade =>
        holds_row hmade.1 hmade.2

/-! ## One replacement -/

/-- The rows of a collection; one that is not there holds nothing. -/
def contents (db : Database) (collection : String) : List Row :=
  (db.rows? collection).getD []

/-- A replacement of what a collection holds: by entries, or by those of chunks when an index is
built over them. -/
inductive Replacement where
  | upsert (entries : List Entry)
  | rebuild (chunks : List Chunk)

namespace Replacement

/-- The entries that are to be stored. -/
def stored : Replacement → List Entry
  | .upsert entries => entries.filter isStorable
  | .rebuild chunks => (entriesOf chunks).filter isStorable

/-- The database after a replacement. -/
def run (db : Database) (collection : String) : Replacement → Except StoreFault Database
  | .upsert entries => Vector.upsert db collection entries
  | .rebuild chunks => (VectorIndex.build db collection chunks).map (·.2)

/-- All entries of an index are stored. -/
theorem stored_rebuild (chunks : List Chunk) :
    (Replacement.rebuild chunks).stored = entriesOf chunks := by
  refine List.filter_eq_self.mpr ?_
  intro e he
  obtain ⟨c, hc, rfl⟩ := List.mem_map.mp he
  have hembedded : c.isEmbedded = true := (List.mem_filter.mp hc).2
  exact hembedded

end Replacement

variable {db db' : Database} {collection : String}

theorem build_inv {chunks : List Chunk} {index : VectorIndex}
    (h : VectorIndex.build db collection chunks = .ok (index, db')) :
    index = ⟨collection, (entriesOf chunks).length⟩ ∧
      upsert db collection (entriesOf chunks) = .ok db' := by
  unfold VectorIndex.build at h
  dsimp only at h
  cases hwritten : upsert db collection (entriesOf chunks) with
  | error fault => simp [hwritten, bind, Except.bind] at h
  | ok written =>
    simp only [hwritten, bind, Except.bind, pure, Except.pure, Except.ok.injEq, Prod.mk.injEq] at h
    exact ⟨h.1.symm, congrArg Except.ok h.2⟩

/-- Entries of which some are stored replace what was there; otherwise nothing is done. -/
theorem upsert_inv {entries : List Entry} (h : upsert db collection entries = .ok db') :
    entries.filter isStorable = [] ∧ db' = db ∨
      entries.filter isStorable ≠ [] ∧
        List.Forall₂ Holds (entries.filter isStorable) (contents db' collection) := by
  unfold upsert at h
  cases hrows : rowsOf collection entries with
  | error fault => simp [hrows, bind, Except.bind] at h
  | ok rows =>
    have hall := holds_of_rowsOf hrows
    simp only [hrows, bind, Except.bind, writeRows] at h
    -- without rows the database is left as it is, with whatever stands in the table
    by_cases hnone : rows = []
    · subst hnone
      rw [List.isEmpty_nil, if_pos rfl, Except.ok.injEq] at h
      exact Or.inl ⟨List.forall₂_nil_right_iff.mp hall, h.symm⟩
    · rw [if_neg (by simpa using hnone)] at h
      cases hmade : db.createTable collection rows with
      | error reason => simp [hmade] at h
      | ok made =>
        simp only [hmade, Except.ok.injEq] at h
        subst h
        obtain ⟨-, htables⟩ := Database.createTable_inv hmade
        have hcontents : contents made collection = rows := by
          rw [contents, htables, if_pos rfl, Option.getD_some]
        rw [hcontents]
        refine Or.inr ⟨?_, hall⟩
        intro hempty
        rw [hempty] at hall
        exact hnone (List.forall₂_nil_left_iff.mp hall)

/-- A replacement that stores something leaves what it stores, and any other leaves what was there. -/
theorem holds_run {call : Replacement} (h : call.run db collection = .ok db') :
    call.stored = [] ∧ db' = db ∨
      call.stored ≠ [] ∧ List.Forall₂ Holds call.stored (contents db' collection) := by
  cases call with
  | upsert entries => exact upsert_inv h
  | rebuild chunks =>
    unfold Replacement.run at h
    cases hbuild : VectorIndex.build db collection chunks with
    | error fault => simp [hbuild, Except.map] at h
    | ok built =>
      obtain ⟨index, written⟩ := built
      simp only [hbuild, Except.map, Except.ok.injEq] at h
      subst h
      exact upsert_inv (build_inv hbuild).2

/-! ## Replacements one after the other -/

/-- The database after several replacements. -/
def replaceAll (db : Database) (collection : String) (calls : List Replacement) :
    Except StoreFault Database :=
  calls.foldlM (fun db call => call.run db collection) db

/-- The last one of some replacements that stored anything. -/
def standing (calls : List Replacement) : Option Replacement :=
  calls.reverse.find? fun call => !call.stored.isEmpty

theorem replaceAll_concat (db : Database) (collection : String) (earlier : List Replacement)
    (last : Replacement) : replaceAll db collection (earlier ++ [last]) =
      (replaceAll db collection earlier).bind fun between => last.run between collection := by
  unfold replaceAll
  rw [List.foldlM_append]
  cases earlier.foldlM (fun db call => Replacement.run db collection call) db with
  | error fault => rfl
  | ok between =>
    show (last.run between collection).bind pure = last.run between collection
    cases last.run between collection <;> rfl

/-- What is there after several replacements was left by the last one that stored anything. -/
theorem contents_replaceAll {calls : List Replacement}
    (h : replaceAll db collection calls = .ok db') :
    (∃ call ∈ calls, standing calls = some call ∧ call.stored ≠ [] ∧
        List.Forall₂ Holds call.stored (contents db' collection)) ∨
      standing calls = none ∧ (∀ call ∈ calls, call.stored = []) ∧
        contents db' collection = contents db collection := by
  -- the last call decides, unless it stores nothing
  induction calls using List.reverseRecOn generalizing db' with
  | nil =>
    obtain rfl := Except.ok.inj h
    exact Or.inr ⟨rfl, fun call hcall => absurd hcall List.not_mem_nil, rfl⟩
  | append_singleton earlier last ih =>
    rw [replaceAll_concat] at h
    cases hearlier : replaceAll db collection earlier with
    | error fault => simp [hearlier, Except.bind] at h
    | ok between =>
      simp only [hearlier, Except.bind] at h
      have hstanding : standing (earlier ++ [last]) =
          if last.stored = [] then standing earlier else some last := by
        unfold standing
        rw [List.reverse_append, List.reverse_singleton, List.singleton_append, List.find?_cons]
        by_cases hnone : last.stored = []
        · rw [if_pos hnone, hnone]
          rfl
        · have hstores : (!last.stored.isEmpty) = true := by simpa using hnone
          rw [if_neg hnone, hstores]
      rcases holds_run h with ⟨hnone, rfl⟩ | ⟨hsome, hholds⟩
      · -- nothing is written, so what the earlier ones left still stands
        rw [hstanding, if_pos hnone]
        rcases ih hearlier with ⟨call, hcall, hfound, hstored⟩ | ⟨hfound, hall, hsame⟩
        · exact Or.inl ⟨call, List.mem_append_left _ hcall, hfound, hstored⟩
        · refine Or.inr ⟨hfound, ?_, hsame⟩
          intro call hcall
          rcases List.mem_append.mp hcall with hbefore | hlast
          · exact hall call hbefore
          · rw [List.mem_singleton.mp hlast, hnone]
      · rw [hstanding, if_neg hsome]
        exact Or.inl ⟨last, by simp, rfl, hsome, hholds⟩

/-- Nothing is there exactly if nothing was stored and nothing was there before. -/
theorem contents_eq_nil_iff {calls : List Replacement}
    (h : replaceAll db collection calls = .ok db') :
    contents db' collection = [] ↔
      (∀ call ∈ calls, call.stored = []) ∧ contents db collection = [] := by
  rcases contents_replaceAll h with ⟨call, hcall, -, hsome, hholds⟩ | ⟨-, hall, hsame⟩
  · constructor
    · intro hempty
      rw [hempty] at hholds
      exact absurd (List.forall₂_nil_right_iff.mp hholds) hsome
    · rintro ⟨hall, -⟩
      exact absurd (hall call hcall) hsome
  · rw [hsame]
    exact ⟨fun hempty => ⟨hall, hempty⟩, fun hboth => hboth.2⟩

/-- A row that a search returns of an entry. -/
def ReturnedOf (e : Entry) (row : Row) : Prop :=
  ∃ held far, Holds e held ∧ Returned held far row

theorem exists_returnedOf {far : Row → Float} {taken : Row → Bool} {limit : Int}
    {entries : List Entry} {held ranked rows : List Row} (hholds : List.Forall₂ Holds entries held)
    (hdrawn : Drawn far held taken limit ranked rows) :
    ∀ row ∈ rows, ∃ e ∈ entries, ReturnedOf e row := by
  intro row hrow
  obtain ⟨stored, hstored, hreturned⟩ := exists_of_forall₂ hdrawn.returned hrow
  have hheld : stored ∈ held :=
    List.mem_of_mem_filter (hdrawn.perm.mem_iff.mp (List.mem_of_mem_take hstored))
  obtain ⟨e, he, hholdsRow⟩ := exists_of_forall₂ hholds hheld
  exact ⟨e, he, stored, far stored, hholdsRow, hreturned⟩

/-- Whether the last one of some replacements takes effect: it has something to store, or nothing is
there that it would have to clear away. -/
def TakesEffect (before : List Row) (earlier : List Replacement) (last : Replacement) : Prop :=
  last.stored ≠ [] ∨ (∀ call ∈ earlier, call.stored = []) ∧ before = []

section Last

variable {earlier : List Replacement} {last : Replacement}

theorem contents_cases (h : replaceAll db collection (earlier ++ [last]) = .ok db') :
    TakesEffect (contents db collection) earlier last ∧
        List.Forall₂ Holds last.stored (contents db' collection) ∨
      ¬ TakesEffect (contents db collection) earlier last ∧ last.stored = [] ∧
        contents db' collection ≠ [] := by
  have hnil := contents_eq_nil_iff h
  rw [List.forall_mem_append, List.forall_mem_singleton] at hnil
  by_cases hsome : last.stored = []
  · by_cases hempty : contents db' collection = []
    · obtain ⟨⟨hearlier, -⟩, hbefore⟩ := hnil.mp hempty
      rw [hsome, hempty]
      exact Or.inl ⟨Or.inr ⟨hearlier, hbefore⟩, List.Forall₂.nil⟩
    · refine Or.inr ⟨?_, hsome, hempty⟩
      rintro (hstores | ⟨hearlier, hbefore⟩)
      · exact hstores hsome
      · exact hempty (hnil.mpr ⟨⟨hearlier, hsome⟩, hbefore⟩)
  · rw [replaceAll_concat] at h
    cases hearlier : replaceAll db collection earlier with
    | error fault => simp [hearlier, Except.bind] at h
    | ok between =>
      simp only [hearlier, Except.bind] at h
      rcases holds_run h with ⟨hnone, -⟩ | ⟨-, hholds⟩
      · exact absurd hnone hsome
      · exact Or.inl ⟨Or.inl hsome, hholds⟩

/-- After some replacements the last one that stored anything stands. It is the very last one, so that
the collection holds what that one asked for, exactly if that one takes effect; in the same case
searches return nothing but its entries, and the size of an index that it built is the number
of the rows. -/
theorem contents_of_last_iff (h : replaceAll db collection (earlier ++ [last]) = .ok db') :
    ((∃ call, standing (earlier ++ [last]) = some call ∧
        List.Forall₂ Holds call.stored (contents db' collection)) ∨
      standing (earlier ++ [last]) = none ∧
        contents db' collection = contents db collection) ∧
    (List.Forall₂ Holds last.stored (contents db' collection) ↔
      TakesEffect (contents db collection) earlier last) ∧
    ((∀ far taken limit ranked rows, Drawn far (contents db' collection) taken limit ranked rows →
        ∀ row ∈ rows, ∃ e ∈ last.stored, ReturnedOf e row) ↔
      TakesEffect (contents db collection) earlier last) ∧
    ∀ chunks between index, last = .rebuild chunks →
      VectorIndex.build between collection chunks = .ok (index, db') →
        (index.size = (contents db' collection).length ↔
          TakesEffect (contents db collection) earlier last) := by
  have hcases := contents_cases h
  refine ⟨?_, ⟨?_, ?_⟩, ⟨?_, ?_⟩, ?_⟩
  · rcases contents_replaceAll h with ⟨call, -, hfound, -, hholds⟩ | ⟨hnone, -, hsame⟩
    · exact Or.inl ⟨call, hfound, hholds⟩
    · exact Or.inr ⟨hnone, hsame⟩
  · intro hholds
    rcases hcases with ⟨heffect, -⟩ | ⟨-, hnone, hleft⟩
    · exact heffect
    · rw [hnone] at hholds
      exact absurd (List.forall₂_nil_left_iff.mp hholds) hleft
  · intro heffect
    rcases hcases with ⟨-, hholds⟩ | ⟨hno, -⟩
    · exact hholds
    · exact absurd heffect hno
  · intro hall
    rcases hcases with ⟨heffect, -⟩ | ⟨-, hnone, hleft⟩
    · exact heffect
    · -- a search for everything returns what is left over
      let limit : Int := (contents db' collection).length
      have hlimit : 0 ≤ limit := Int.natCast_nonneg _
      have hdrawn := drawn_found [] hlimit (fun _ => true) (contents db' collection)
      have hkept : (contents db' collection).filter (fun _ => true) =
          contents db' collection := List.filter_eq_self.mpr fun _ _ => rfl
      have hranked := hdrawn.perm.length_eq
      have hrows := hdrawn.returned.length_eq
      have hpos := List.length_pos_iff.mpr hleft
      rw [hkept] at hranked
      rw [List.length_take, hranked, Int.toNat_natCast, Nat.min_self] at hrows
      obtain ⟨row, hrow⟩ := List.exists_mem_of_length_pos (hrows ▸ hpos)
      obtain ⟨e, he, -⟩ := hall _ _ limit _ _ hdrawn row hrow
      rw [hnone] at he
      exact absurd he List.not_mem_nil
  · intro heffect far taken limit ranked rows hdrawn
    rcases hcases with ⟨-, hholds⟩ | ⟨hno, -⟩
    · exact exists_returnedOf hholds hdrawn
    · exact absurd heffect hno
  · intro chunks between index hlast hbuild
    obtain ⟨rfl, -⟩ := build_inv hbuild
    have hstored : last.stored = entriesOf chunks := by
      rw [hlast, Replacement.stored_rebuild]
    rcases hcases with ⟨heffect, hholds⟩ | ⟨hno, hnone, hleft⟩
    · rw [← hstored, hholds.length_eq]
      exact ⟨fun _ => heffect, fun _ => rfl⟩
    · have hpos := List.length_pos_iff.mpr hleft
      rw [← hstored, hnone]
      refine ⟨fun hsize => ?_, fun heffect => absurd heffect hno⟩
      have hempty : 0 = (contents db' collection).length := hsize
      omega

end Last

/-- A function with its vector, on a line. -/
def functionAt (line : Int) : Chunk where
  id := "a.js:" ++ toString line ++ ":f"
  kind := "function"
  name := "f"
  text := "f"
  path := "a.js"
  line := line
  context := ""
  embedding := some [1.0]

/-- An index that is built over another function holds that one only. -/
theorem contents_of_last_iff_moved :
    ∃ db', replaceAll {} "c" ([.rebuild [functionAt 1]] ++ [.rebuild [functionAt 2]]) = .ok db' ∧
      List.Forall₂ Holds (entriesOf [functionAt 2]) (contents db' "c") := by
  obtain ⟨db', hdb'⟩ : ∃ db', replaceAll {} "c"
      ([.rebuild [functionAt 1]] ++ [.rebuild [functionAt 2]]) = .ok db' := ⟨_, rfl⟩
  have hstored := Replacement.stored_rebuild [functionAt 2]
  obtain ⟨-, hholds, -⟩ := contents_of_last_iff hdb'
  refine ⟨db', hdb', ?_⟩
  rw [← hstored]
  refine hholds.mpr (Or.inl ?_)
  rw [hstored]
  simp [entriesOf, functionAt, Chunk.isEmbedded]

/-- An index that is built over nothing has size zero, and what was there before is still found. -/
theorem contents_ne_nil_of_nothing :
    ∃ between db' index,
      replaceAll {} "c" [.rebuild [functionAt 1]] = .ok between ∧
        VectorIndex.build between "c" [] = .ok (index, db') ∧
          replaceAll {} "c" [.rebuild [functionAt 1], .rebuild []] = .ok db' ∧ index.size = 0 ∧
            (contents db' "c").length = 1 ∧
              ¬ List.Forall₂ Holds (Replacement.rebuild []).stored (contents db' "c") := by
  refine ⟨_, _, _, rfl, rfl, rfl, rfl, rfl, ?_⟩
  intro hholds
  exact absurd hholds.length_eq (by decide)

end CodeSearch.Vector

import Mathlib
import CodeSearch.Analysis

/-!
The views on chunks add up.

Each view is a table with a row for every key that the chunks have, and what a row says depends on the
chunks with its key alone: how many there are, or what they need between them. So the views on two lists
put together have the rows of both, and where both have one it is the two put together (`Merged`): counts
are added, and sets of names united, never replaced. In which order the chunks come shows in nothing but
the order of the rows (`SameViews`). No chunk is lost on the way, and none is counted twice
(`Accounted`).
-/
set_option autoImplicit false

namespace CodeSearch

/-! ## Sets of names -/

namespace Text.NameSet

theorem nodup_names (s : NameSet) : s.names.Nodup :=
  s.increasing.imp fun {a b} (h : a < b) (heq : a = b) => String.lt_irrefl b (heq ▸ h)

/-- Sets with the same names are the same: there is one way to put names in order. -/
theorem ext_of_mem {s t : NameSet} (h : ∀ name, name ∈ s ↔ name ∈ t) : s = t := by
  have hperm : s.names.Perm t.names :=
    (List.perm_ext_iff_of_nodup s.nodup_names t.nodup_names).mpr h
  exact ext (hperm.eq_of_pairwise (fun a b _ _ hab hba => absurd hab (String.lt_asymm hba))
    s.increasing t.increasing)

theorem union_empty (s : NameSet) : s.union empty = s :=
  ext_of_mem fun name => by simp

theorem empty_union (s : NameSet) : empty.union s = s := rfl

end Text.NameSet

namespace Analysis

open CodeSearch.Text (NameSet)

/-! ## Tables by key -/

section Rows

variable {α : Type} {keys keys' : List String}

/-- A row for each key that comes, in the order in which the keys first come. -/
def rowsOf (keys : List String) (row : String → α) : List (String × α) :=
  keys.eraseDups.map fun key => (key, row key)

theorem tally_eq_rowsOf (keys : List String) : tally keys = rowsOf keys keys.count := rfl

theorem dependencyGraph_eq_rowsOf (chunks : List Chunk) :
    dependencyGraph chunks = rowsOf (chunks.map (·.name)) (needsOf chunks) := rfl

theorem nodup_eraseDups (keys : List String) : keys.eraseDups.Nodup := by
  match keys with
  | [] => exact List.nodup_nil
  | key :: rest =>
    rw [List.eraseDups_cons, List.nodup_cons]
    refine ⟨?_, nodup_eraseDups (rest.filter fun other => !other == key)⟩
    rw [List.mem_eraseDups, List.mem_filter]
    simp
termination_by keys.length
decreasing_by exact Nat.lt_succ_of_le (List.length_filter_le _ _)

theorem keys_rowsOf (keys : List String) (row : String → α) :
    (rowsOf keys row).map (·.1) = keys.eraseDups := by
  rw [rowsOf, List.map_map]
  exact List.map_id' _

theorem mem_rowsOf {row : String → α} {key : String} {value : α} :
    (key, value) ∈ rowsOf keys row ↔ key ∈ keys ∧ value = row key := by
  simp only [rowsOf, List.mem_map, List.mem_eraseDups, Prod.mk.injEq]
  constructor
  · rintro ⟨key', hkey', rfl, rfl⟩
    exact ⟨hkey', rfl⟩
  · rintro ⟨hkey, rfl⟩
    exact ⟨key, hkey, rfl, rfl⟩

theorem lookup_map_row (keys : List String) (row : String → α) (key : String) :
    (keys.map fun key => (key, row key)).lookup key = if key ∈ keys then some (row key) else none := by
  induction keys with
  | nil => rfl
  | cons first rest ih =>
    rw [List.map_cons, List.lookup_cons, ih]
    by_cases hfirst : key = first
    · simp [hfirst]
    · simp [hfirst, beq_false_of_ne hfirst]

theorem lookup_rowsOf (keys : List String) (row : String → α) (key : String) :
    (rowsOf keys row).lookup key = if key ∈ keys then some (row key) else none := by
  rw [rowsOf, lookup_map_row]
  simp only [List.mem_eraseDups]

/-- The rows are the same for keys in another order. -/
theorem rowsOf_perm (h : keys.Perm keys') (row : String → α) :
    (rowsOf keys row).Perm (rowsOf keys' row) := by
  have hkeys : keys.eraseDups.Perm keys'.eraseDups :=
    (List.perm_ext_iff_of_nodup (nodup_eraseDups _) (nodup_eraseDups _)).mpr fun key => by
      rw [List.mem_eraseDups, List.mem_eraseDups, h.mem_iff]
  exact hkeys.map _

/-- A table that is made of two others: no key has two rows in it, and the row of a key is that of the
one table that has the key, or what is in both put together. -/
structure Merged (join : α → α → α) (whole left right : List (String × α)) : Prop where
  nodup : (whole.map (·.1)).Nodup
  lookup (key : String) : whole.lookup key = Option.merge join (left.lookup key) (right.lookup key)

/-- Tables for the keys of two lists are those for both lists put together, if the row of a key that
one list does not have comes from the other one. -/
theorem merged_rowsOf {join : α → α → α} {whole left right : String → α}
    (hboth : ∀ key ∈ keys, key ∈ keys' → whole key = join (left key) (right key))
    (hleft : ∀ key ∈ keys, key ∉ keys' → whole key = left key)
    (hright : ∀ key ∈ keys', key ∉ keys → whole key = right key) :
    Merged join (rowsOf (keys ++ keys') whole) (rowsOf keys left) (rowsOf keys' right) := by
  refine ⟨by rw [keys_rowsOf]; exact nodup_eraseDups _, fun key => ?_⟩
  rw [lookup_rowsOf, lookup_rowsOf, lookup_rowsOf]
  by_cases hkey : key ∈ keys
  · by_cases hkey' : key ∈ keys'
    · simp [hkey, hkey', hboth]
    · simp [hkey, hkey', hleft]
  · by_cases hkey' : key ∈ keys'
    · simp [hkey, hkey', hright]
    · simp [hkey, hkey']

end Rows

/-! ## Counts -/

theorem tally_perm {keys keys' : List String} (h : keys.Perm keys') :
    (tally keys).Perm (tally keys') := by
  have hcount : keys'.count = keys.count := funext fun key => (h.count_eq key).symm
  rw [tally_eq_rowsOf, tally_eq_rowsOf, hcount]
  exact rowsOf_perm h _

theorem merged_tally (keys keys' : List String) :
    Merged (· + ·) (tally (keys ++ keys')) (tally keys) (tally keys') := by
  refine merged_rowsOf (fun key _ _ => List.count_append) (fun key _ hnot => ?_) fun key _ hnot => ?_
  · rw [List.count_append, List.count_eq_zero.mpr hnot, Nat.add_zero]
  · rw [List.count_append, List.count_eq_zero.mpr hnot, Nat.zero_add]

theorem countOf_tally (keys : List String) (key : String) : countOf (tally keys) key = keys.count key := by
  rw [countOf, tally_eq_rowsOf, lookup_rowsOf]
  by_cases hkey : key ∈ keys
  · rw [if_pos hkey]
    rfl
  · rw [if_neg hkey, List.count_eq_zero.mpr hkey]
    rfl

/-- The counts of some keys add up to the number of times that any of them comes. -/
theorem sum_map_count {keys found : List String} (hkeys : keys.Nodup)
    (hfound : ∀ key ∈ found, key ∈ keys) : (keys.map found.count).sum = found.length := by
  have hall : ∀ key ∈ (found : Multiset String), key ∈ keys.toFinset := by
    intro key hkey
    exact List.mem_toFinset.mpr (hfound key (Multiset.mem_coe.mp hkey))
  have hsum := Multiset.sum_count_eq_card hall
  simp only [Multiset.coe_count] at hsum
  rw [← List.sum_toFinset _ hkeys, hsum, Multiset.coe_card]

/-- All keys together are counted once for each time they come. -/
theorem sum_tally (keys : List String) : ((tally keys).map (·.2)).sum = keys.length := by
  rw [tally, List.map_map]
  exact sum_map_count (nodup_eraseDups keys) fun key hkey => List.mem_eraseDups.mpr hkey

/-- The report on chunks counts the embedded ones, and so do its kinds together. -/
theorem embedded_embeddingReport (chunks : List Chunk) :
    (embeddingReport chunks).embedded = chunks.countP (·.isEmbedded) ∧
      ((embeddingReport chunks).kinds.map (·.2)).sum = chunks.countP (·.isEmbedded) := by
  unfold embeddingReport
  dsimp only
  rw [sum_tally, List.length_map, List.countP_eq_length_filter]
  exact ⟨rfl, rfl⟩

/-! ### Ranges of complexity -/

theorem bucket_mem_labels (score : Int) : bucket score ∈ labels := by
  rw [bucket]
  split
  · rename_i range hrange
    exact List.mem_map_of_mem (List.mem_reverse.mpr (List.mem_of_find?_eq_some hrange))
  · decide

theorem nodup_labels : labels.Nodup := by
  decide

theorem histogram_eq (chunks : List Chunk) :
    (patterns chunks).histogram =
      labels.map fun label => (label, (chunks.map fun c => bucket c.complexity).count label) := rfl

theorem merged_histogram (xs ys : List Chunk) :
    Merged (· + ·) (patterns (xs ++ ys)).histogram (patterns xs).histogram (patterns ys).histogram := by
  refine ⟨?_, fun label => ?_⟩
  · rw [histogram_eq, List.map_map]
    exact nodup_labels
  · rw [histogram_eq, histogram_eq, histogram_eq, lookup_map_row, lookup_map_row, lookup_map_row,
      List.map_append, List.count_append]
    split <;> rfl

/-! ## Needs -/

theorem mem_needsOf {chunks : List Chunk} {name other : String} :
    other ∈ needsOf chunks name ↔ ∃ c ∈ chunks, c.name = name ∧ other ∈ c.dependencies := by
  rw [needsOf]
  induction chunks with
  | nil => simp
  | cons c rest ih =>
    by_cases hname : c.name = name
    · rw [List.filter_cons_of_pos (by simpa using hname), List.foldr_cons, NameSet.mem_union, ih]
      simp [hname]
    · rw [List.filter_cons_of_neg (by simpa using hname), ih]
      simp [hname]

theorem needsOf_append (xs ys : List Chunk) (name : String) :
    needsOf (xs ++ ys) name = (needsOf xs name).union (needsOf ys name) := by
  refine NameSet.ext_of_mem fun other => ?_
  rw [NameSet.mem_union, mem_needsOf, mem_needsOf, mem_needsOf]
  simp only [List.mem_append, or_and_right, exists_or]

theorem needsOf_perm {xs ys : List Chunk} (h : xs.Perm ys) (name : String) :
    needsOf xs name = needsOf ys name := by
  refine NameSet.ext_of_mem fun other => ?_
  rw [mem_needsOf, mem_needsOf]
  simp only [h.mem_iff]

/-- A name that no chunk has needs nothing. -/
theorem needsOf_of_not_mem {chunks : List Chunk} {name : String}
    (h : name ∉ chunks.map (·.name)) : needsOf chunks name = NameSet.empty := by
  refine NameSet.ext_of_mem fun other => iff_of_false (fun hother => ?_) NameSet.not_mem_empty
  obtain ⟨c, hc, rfl, -⟩ := mem_needsOf.mp hother
  exact h (List.mem_map_of_mem hc)

theorem merged_dependencyGraph (xs ys : List Chunk) :
    Merged NameSet.union (dependencyGraph (xs ++ ys)) (dependencyGraph xs) (dependencyGraph ys) := by
  rw [dependencyGraph_eq_rowsOf, List.map_append]
  refine merged_rowsOf (fun name _ _ => needsOf_append xs ys name) (fun name _ hnot => ?_)
    fun name _ hnot => ?_
  · rw [needsOf_append, needsOf_of_not_mem hnot, NameSet.union_empty]
  · rw [needsOf_append, needsOf_of_not_mem hnot, NameSet.empty_union]

/-! ## One chunk at a time -/

section Updates

variable {α : Type} {keys : List String} {key : String}

/-- A table with the row of a key changed; the row is new, and the last one, if there was none. -/
def updated (key : String) (change : Option α → α) : List (String × α) → List (String × α)
  | [] => [(key, change none)]
  | (first, value) :: rest =>
    if first = key then (first, change (some value)) :: rest
    else (first, value) :: updated key change rest

theorem updated_of_not_mem (h : key ∉ keys) (row : String → α) (change : Option α → α) :
    updated key change (keys.map fun key => (key, row key)) =
      keys.map (fun key => (key, row key)) ++ [(key, change none)] := by
  induction keys with
  | nil => rfl
  | cons first rest ih =>
    rw [List.mem_cons, not_or] at h
    rw [List.map_cons, updated, if_neg (Ne.symm h.1), ih h.2, List.cons_append]

theorem updated_of_mem (hkeys : keys.Nodup) (h : key ∈ keys) (row : String → α)
    (change : Option α → α) :
    updated key change (keys.map fun key => (key, row key)) =
      keys.map fun other => (other, if other = key then change (some (row other)) else row other) := by
  induction keys with
  | nil => exact absurd h List.not_mem_nil
  | cons first rest ih =>
    rw [List.nodup_cons] at hkeys
    rw [List.map_cons, List.map_cons, updated]
    by_cases hfirst : first = key
    · -- the rows behind it are those of other keys
      have hrest : ∀ other ∈ rest,
          (other, if other = key then change (some (row other)) else row other) =
            (other, row other) := by
        intro other hother
        rw [if_neg fun heq => hkeys.1 (by rwa [hfirst, ← heq])]
      rw [if_pos hfirst, if_pos hfirst, List.map_congr_left hrest]
    · rw [if_neg hfirst, if_neg hfirst, ih hkeys.2 ((List.mem_cons.mp h).resolve_left (Ne.symm hfirst))]

/-- One key more changes its row alone. -/
theorem rowsOf_concat {row row' : String → α} {change : Option α → α}
    (hrest : ∀ other ∈ keys, other ≠ key → row' other = row other)
    (hkey : row' key = change (if key ∈ keys then some (row key) else none)) :
    rowsOf (keys ++ [key]) row' = updated key change (rowsOf keys row) := by
  rw [rowsOf, rowsOf, List.eraseDups_append]
  by_cases hmem : key ∈ keys
  · have hnone : [key].removeAll keys = [] := by simp [List.removeAll, hmem]
    rw [hnone, List.eraseDups_nil, List.append_nil,
      updated_of_mem (nodup_eraseDups keys) (List.mem_eraseDups.mpr hmem)]
    refine List.map_congr_left fun other hother => ?_
    by_cases hother' : other = key
    · rw [if_pos hother', hother', hkey, if_pos hmem]
    · rw [if_neg hother', hrest other (List.mem_eraseDups.mp hother) hother']
  · have hone : [key].removeAll keys = [key] := by simp [List.removeAll, hmem]
    rw [hone, updated_of_not_mem fun h => hmem (List.mem_eraseDups.mp h), List.map_append]
    congr 1
    · refine List.map_congr_left fun other hother => ?_
      have hother' := List.mem_eraseDups.mp hother
      rw [hrest other hother' fun heq => hmem (heq ▸ hother')]
    · rw [if_neg hmem] at hkey
      rw [← hkey]
      rfl

end Updates

/-- A table with one more counted for a key. -/
def counted (key : String) (counts : List (String × Nat)) : List (String × Nat) :=
  updated key (fun count => count.getD 0 + 1) counts

theorem tally_concat (keys : List String) (key : String) :
    tally (keys ++ [key]) = counted key (tally keys) := by
  refine rowsOf_concat (fun other _ hne => ?_) ?_
  · rw [List.count_append, List.count_singleton, beq_false_of_ne (Ne.symm hne)]
    rfl
  · rw [List.count_append, List.count_singleton_self]
    by_cases hkey : key ∈ keys
    · rw [if_pos hkey]
      rfl
    · rw [if_neg hkey, List.count_eq_zero.mpr hkey]
      rfl

/-- The counts with those of one more chunk. -/
def Patterns.add (p : Patterns) (c : Chunk) : Patterns where
  kinds := counted c.kind p.kinds
  histogram := counted (bucket c.complexity) p.histogram
  complex := if isComplex c then p.complex + 1 else p.complex

/-- The report with one more chunk in it. -/
def EmbeddingReport.add (r : EmbeddingReport) (c : Chunk) : EmbeddingReport where
  total := r.total + 1
  embedded := if c.isEmbedded then r.embedded + 1 else r.embedded
  kinds := if c.isEmbedded then counted c.kind r.kinds else r.kinds

/-- The graph with what one more chunk needs. -/
def addNeeds (graph : List (String × NameSet)) (c : Chunk) : List (String × NameSet) :=
  updated c.name (fun needed => (needed.getD NameSet.empty).union c.dependencies) graph

theorem patterns_concat (chunks : List Chunk) (c : Chunk) :
    patterns (chunks ++ [c]) = (patterns chunks).add c := by
  have hkinds : (patterns (chunks ++ [c])).kinds = counted c.kind (patterns chunks).kinds := by
    simp only [patterns, List.map_append, List.map_singleton, tally_concat]
  have hhistogram : (patterns (chunks ++ [c])).histogram =
      counted (bucket c.complexity) (patterns chunks).histogram := by
    rw [histogram_eq, histogram_eq, counted, updated_of_mem nodup_labels (bucket_mem_labels _)]
    refine List.map_congr_left fun label _ => ?_
    rw [List.map_append, List.count_append, List.map_singleton]
    by_cases hlabel : label = bucket c.complexity
    · rw [if_pos hlabel, hlabel, List.count_singleton_self]
      rfl
    · rw [if_neg hlabel, List.count_singleton, beq_false_of_ne (Ne.symm hlabel)]
      rfl
  have hcomplex : (patterns (chunks ++ [c])).complex =
      if isComplex c then (patterns chunks).complex + 1 else (patterns chunks).complex := by
    simp only [patterns, List.countP_append, List.countP_singleton]
    split <;> rfl
  rw [Patterns.add, ← hkinds, ← hhistogram, ← hcomplex]

theorem embeddingReport_concat (chunks : List Chunk) (c : Chunk) :
    embeddingReport (chunks ++ [c]) = (embeddingReport chunks).add c := by
  cases hc : c.isEmbedded with
  | true =>
    simp only [embeddingReport, EmbeddingReport.add, List.filter_append, List.filter_singleton, hc,
      cond_true, if_true, List.length_append, List.length_singleton, List.map_append,
      List.map_singleton, tally_concat]
  | false =>
    simp only [embeddingReport, EmbeddingReport.add, List.filter_append, List.filter_singleton, hc,
      cond_false, Bool.false_eq_true, if_false, List.length_append, List.length_singleton,
      List.append_nil]

theorem dependencyGraph_concat (chunks : List Chunk) (c : Chunk) :
    dependencyGraph (chunks ++ [c]) = addNeeds (dependencyGraph chunks) c := by
  have hone (name : String) : needsOf [c] name =
      if c.name = name then c.dependencies else NameSet.empty := by
    refine NameSet.ext_of_mem fun other => ?_
    rw [mem_needsOf]
    split <;> simp [*]
  rw [dependencyGraph_eq_rowsOf, List.map_append]
  refine rowsOf_concat (fun other _ hne => ?_) ?_
  · rw [needsOf_append, hone, if_neg (Ne.symm hne), NameSet.union_empty]
  · rw [needsOf_append, hone, if_pos rfl]
    by_cases hname : c.name ∈ chunks.map (·.name)
    · rw [if_pos hname]
      rfl
    · rw [if_neg hname, needsOf_of_not_mem hname]
      rfl

/-- What follows each chunk one after the other is a fold over them. -/
theorem eq_foldl {α : Type} {view : List Chunk → α} {add : α → Chunk → α}
    (hconcat : ∀ chunks c, view (chunks ++ [c]) = add (view chunks) c) (chunks : List Chunk) :
    view chunks = chunks.foldl add (view []) := by
  induction chunks using List.reverseRecOn with
  | nil => rfl
  | append_singleton chunks c ih =>
    rw [hconcat, ih, List.foldl_append, List.foldl_cons, List.foldl_nil]

/-- The views on chunks are made by going through them once. -/
structure OneByOne (chunks : List Chunk) : Prop where
  patterns : patterns chunks = chunks.foldl Patterns.add ⟨[], labels.map fun label => (label, 0), 0⟩
  report : embeddingReport chunks = chunks.foldl EmbeddingReport.add ⟨0, 0, []⟩
  graph : dependencyGraph chunks = chunks.foldl addNeeds []

theorem oneByOne (chunks : List Chunk) : OneByOne chunks where
  patterns := eq_foldl patterns_concat chunks
  report := eq_foldl embeddingReport_concat chunks
  graph := eq_foldl dependencyGraph_concat chunks

/-! ## Chunks put together and in another order -/

/-- The views on two lists of chunks put together are made of the views on the two. -/
structure PutTogether (xs ys : List Chunk) : Prop where
  kinds : Merged (· + ·) (patterns (xs ++ ys)).kinds (patterns xs).kinds (patterns ys).kinds
  histogram :
    Merged (· + ·) (patterns (xs ++ ys)).histogram (patterns xs).histogram (patterns ys).histogram
  complex : (patterns (xs ++ ys)).complex = (patterns xs).complex + (patterns ys).complex
  total : (embeddingReport (xs ++ ys)).total = (embeddingReport xs).total + (embeddingReport ys).total
  embedded : (embeddingReport (xs ++ ys)).embedded =
    (embeddingReport xs).embedded + (embeddingReport ys).embedded
  embeddedKinds : Merged (· + ·) (embeddingReport (xs ++ ys)).kinds (embeddingReport xs).kinds
    (embeddingReport ys).kinds
  graph : Merged NameSet.union (dependencyGraph (xs ++ ys)) (dependencyGraph xs) (dependencyGraph ys)

theorem putTogether (xs ys : List Chunk) : PutTogether xs ys where
  kinds := by
    simp only [patterns, List.map_append]
    exact merged_tally _ _
  histogram := merged_histogram xs ys
  complex := List.countP_append
  total := List.length_append
  embedded := by
    simp only [embeddingReport, List.filter_append, List.length_append]
  embeddedKinds := by
    simp only [embeddingReport, List.filter_append, List.map_append]
    exact merged_tally _ _
  graph := merged_dependencyGraph xs ys

/-- The views on two lists of chunks are the same, but for the order of rows. -/
structure SameViews (xs ys : List Chunk) : Prop where
  kinds : (patterns xs).kinds.Perm (patterns ys).kinds
  histogram : (patterns xs).histogram = (patterns ys).histogram
  complex : (patterns xs).complex = (patterns ys).complex
  total : (embeddingReport xs).total = (embeddingReport ys).total
  embedded : (embeddingReport xs).embedded = (embeddingReport ys).embedded
  embeddedKinds : (embeddingReport xs).kinds.Perm (embeddingReport ys).kinds
  graph : (dependencyGraph xs).Perm (dependencyGraph ys)

theorem sameViews_of_perm {xs ys : List Chunk} (h : xs.Perm ys) : SameViews xs ys where
  kinds := tally_perm (h.map _)
  histogram := by
    rw [histogram_eq, histogram_eq]
    exact List.map_congr_left fun label _ => by rw [(h.map _).count_eq]
  complex := h.countP_eq _
  total := h.length_eq
  embedded := (h.filter _).length_eq
  embeddedKinds := tally_perm ((h.filter _).map _)
  graph := by
    have hneeds : needsOf xs = needsOf ys := funext (needsOf_perm h)
    rw [dependencyGraph_eq_rowsOf, dependencyGraph_eq_rowsOf, hneeds]
    exact rowsOf_perm (h.map _) _

/-- The views on some chunks account for all of them. -/
structure Accounted (chunks : List Chunk) : Prop where
  kindsOf (kind : String) :
    countOf (patterns chunks).kinds kind = chunks.countP (·.kind == kind)
  kinds : ((patterns chunks).kinds.map (·.2)).sum = chunks.length
  histogram : ((patterns chunks).histogram.map (·.2)).sum = chunks.length
  complex_le : (patterns chunks).complex ≤ chunks.countP (·.kind == Chunk.functionKind)
  total : (embeddingReport chunks).total = chunks.length
  embeddedKinds :
    ((embeddingReport chunks).kinds.map (·.2)).sum = (embeddingReport chunks).embedded
  embedded_le : (embeddingReport chunks).embedded ≤ (embeddingReport chunks).total
  names (name : String) :
    name ∈ (dependencyGraph chunks).map (·.1) ↔ ∃ c ∈ chunks, c.name = name
  needs {name : String} {needed : NameSet} (h : (name, needed) ∈ dependencyGraph chunks)
    (other : String) : other ∈ needed ↔ ∃ c ∈ chunks, c.name = name ∧ other ∈ c.dependencies

theorem accounted (chunks : List Chunk) : Accounted chunks where
  kindsOf kind := (countOf_tally _ kind).trans List.countP_map
  kinds := (sum_tally _).trans (List.length_map _)
  histogram := by
    rw [histogram_eq, List.map_map]
    refine (sum_map_count nodup_labels fun label hlabel => ?_).trans (List.length_map _)
    obtain ⟨c, -, rfl⟩ := List.mem_map.mp hlabel
    exact bucket_mem_labels c.complexity
  complex_le := List.countP_mono_left fun c _ hc => (Bool.and_eq_true_iff.mp hc).1
  total := rfl
  embeddedKinds := (sum_tally _).trans (List.length_map _)
  embedded_le := List.length_filter_le _ _
  names name := by
    rw [dependencyGraph_eq_rowsOf, keys_rowsOf, List.mem_eraseDups, List.mem_map]
  needs h other := by
    rw [dependencyGraph_eq_rowsOf, mem_rowsOf] at h
    rw [h.2, mem_needsOf]

/-- The views on chunks are made one chunk at a time. Those on two lists put together are the views on the
two put together, and those on the chunks of one list in another order are the same. Every chunk is
accounted for, and the graph has each name of a chunk, and no other one, with all that the chunks of this
name need. -/
theorem views_add_up (xs ys : List Chunk) :
    OneByOne xs ∧ PutTogether xs ys ∧ (xs.Perm ys → SameViews xs ys) ∧ Accounted xs :=
  ⟨oneByOne xs, putTogether xs ys, sameViews_of_perm, accounted xs⟩

/-- A function with a name that several files have. -/
def sharedName (path : String) (complexity : Int) (needs : List String) : Chunk where
  id := path ++ ":1:sum"
  kind := "function"
  name := "sum"
  text := ""
  path := path
  line := 1
  context := ""
  dependencies := NameSet.ofList needs
  complexity := complexity

/-- Both functions are in the one row of their name, whichever comes first. -/
theorem views_add_up_sharedName :
    [sharedName "a.js" 12 ["add"], sharedName "b.py" (-1) ["map"]].Perm
        [sharedName "b.py" (-1) ["map"], sharedName "a.js" 12 ["add"]] ∧
      SameViews [sharedName "a.js" 12 ["add"], sharedName "b.py" (-1) ["map"]]
        [sharedName "b.py" (-1) ["map"], sharedName "a.js" 12 ["add"]] ∧
      ("sum", NameSet.ofList ["map", "add"]) ∈
        dependencyGraph [sharedName "b.py" (-1) ["map"], sharedName "a.js" 12 ["add"]] ∧
      (patterns [sharedName "a.js" 12 ["add"], sharedName "b.py" (-1) ["map"]]).complex = 1 := by
  have hperm := List.Perm.swap (sharedName "b.py" (-1) ["map"]) (sharedName "a.js" 12 ["add"]) []
  obtain ⟨-, -, hsame, -⟩ := views_add_up
    [sharedName "a.js" 12 ["add"], sharedName "b.py" (-1) ["map"]]
    [sharedName "b.py" (-1) ["map"], sharedName "a.js" 12 ["add"]]
  have hrow : ("sum", NameSet.ofList ["map", "add"]) ∈
      dependencyGraph [sharedName "a.js" 12 ["add"], sharedName "b.py" (-1) ["map"]] := by
    decide +kernel
  exact ⟨hperm, hsame hperm, (hsame hperm).graph.mem_iff.mp hrow, by decide +kernel⟩

end Analysis

end CodeSearch

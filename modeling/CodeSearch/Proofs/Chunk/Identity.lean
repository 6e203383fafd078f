import Mathlib.Data.List.Nodup
import Mathlib.Tactic.ByContra
import CodeSearch.Chunk.Extraction

/-!
When the ids of chunks are distinct.

The id of a chunk is its base, which is its place and its name, with a number behind it if it is not
the first one with that base in its file. So an id is known from a base and a count, and the only
question is which bases and counts give the same text. Numbers have no sharp in them, so of two
numbered ids that are equal the bases are, too; what remains is a base that is itself a base with a
number behind it, and a base that two files share (`Clash`). Both can happen, since names and paths
may hold any characters, and main statement is that nothing else can (`nodup_ids_iff`).
-/
set_option autoImplicit false

namespace CodeSearch.Chunk

open CodeSearch.Tree (Parsed Occurrence)

/-! ## Texts of ids -/

/-- The id of the chunk that is the `k`-th one with its base. -/
def idAt (base : String) (k : Nat) : String :=
  if k ≤ 1 then base else s!"{base}#{k}"

theorem numberedId_eq (earlier : List String) (base : String) :
    numberedId earlier base = idAt base (earlier.count base + 1) := by
  unfold numberedId idAt
  cases hcount : earlier.count base with
  | zero => rfl
  | succ n =>
    rw [if_neg (by omega)]
    rfl

theorem idAt_one (base : String) : idAt base 1 = base := rfl

theorem toList_idAt {base : String} {k : Nat} (hk : 2 ≤ k) :
    (idAt base k).toList = base.toList ++ '#' :: Nat.toDigits 10 k := by
  rw [idAt, if_neg (by omega)]
  show (base ++ "#" ++ toString k).toList = _
  rw [String.toList_append, String.toList_append, Nat.toString_eq_repr, Nat.toList_repr]
  simp

theorem not_mem_toDigits {c : Char} (hc : c.isDigit = false) (k : Nat) : c ∉ Nat.toDigits 10 k := by
  intro hmem
  have hdigit := Nat.isDigit_of_mem_toDigits (by decide) (by decide) hmem
  rw [hc] at hdigit
  cases hdigit

/-- A text is cut in one way only at a character that does not come before. -/
theorem eq_of_append_cons {c : Char} {xs ys ds es : List Char} (hxs : c ∉ xs) (hys : c ∉ ys)
    (h : xs ++ c :: ds = ys ++ c :: es) : xs = ys ∧ ds = es := by
  have hplain : ∀ zs rest : List Char, c ∉ zs →
      (zs ++ c :: rest).takeWhile (fun d => d ≠ c) = zs := by
    intro zs rest hzs
    rw [List.takeWhile_append_of_pos, List.takeWhile_cons_of_neg (by simp), List.append_nil]
    intro d hd
    exact decide_eq_true fun heq => hzs (heq ▸ hd)
  have hfront : xs = ys := by
    rw [← hplain xs ds hxs, h, hplain ys es hys]
  subst hfront
  exact ⟨rfl, (List.cons.inj (List.append_cancel_left h)).2⟩

/-- A text is cut at its last sharp in one way only. -/
theorem eq_of_append_sharp {xs ys ds es : List Char} (hds : '#' ∉ ds) (hes : '#' ∉ es)
    (h : xs ++ '#' :: ds = ys ++ '#' :: es) : xs = ys ∧ ds = es := by
  -- from behind, the last sharp is the first one
  have hback := congrArg List.reverse h
  simp only [List.reverse_append, List.reverse_cons, List.append_assoc, List.singleton_append] at hback
  obtain ⟨hdigits, hfront⟩ := eq_of_append_cons (by simpa using hds) (by simpa using hes) hback
  exact ⟨List.reverse_injective hfront, List.reverse_injective hdigits⟩

/-- Two numbered ids are equal only if their bases and numbers are. -/
theorem idAt_inj {base base' : String} {k k' : Nat} (hk : 2 ≤ k) (hk' : 2 ≤ k')
    (h : idAt base k = idAt base' k') : base = base' ∧ k = k' := by
  have hlist := congrArg String.toList h
  rw [toList_idAt hk, toList_idAt hk'] at hlist
  obtain ⟨hbase, hdigits⟩ :=
    eq_of_append_sharp (not_mem_toDigits rfl k) (not_mem_toDigits rfl k') hlist
  refine ⟨String.toList_injective hbase, ?_⟩
  -- the digits are read back
  have hparsed := congrArg (fun digits => Nat.ofDigitChars 10 digits 0) hdigits
  simpa using hparsed

theorem idAt_ne_base {base : String} {k : Nat} (hk : 2 ≤ k) : idAt base k ≠ base := by
  intro h
  have hlength := congrArg (fun s => s.toList.length) h
  simp only [toList_idAt hk, List.length_append, List.length_cons] at hlength
  omega

/-- Which bases and counts give the same id. -/
theorem idAt_eq_iff {base base' : String} {k k' : Nat} (hk : 1 ≤ k) (hk' : 1 ≤ k') :
    idAt base k = idAt base' k' ↔
      base = base' ∧ k = k' ∨
        (2 ≤ k ∧ k' = 1 ∧ base' = idAt base k) ∨ (2 ≤ k' ∧ k = 1 ∧ base = idAt base' k') := by
  -- A first one has its base as id, every other one has a number behind it. Of the four cases
  -- only that of two numbers needs the sharps.
  by_cases hone : k = 1
  · subst hone
    by_cases hone' : k' = 1
    · subst hone'
      simp [idAt_one]
    · rw [idAt_one]
      constructor
      · intro h
        exact Or.inr (Or.inr ⟨by omega, rfl, h⟩)
      · rintro (⟨-, h⟩ | ⟨h, -, -⟩ | ⟨-, -, h⟩)
        · omega
        · omega
        · exact h
  · by_cases hone' : k' = 1
    · subst hone'
      rw [idAt_one]
      constructor
      · intro h
        exact Or.inr (Or.inl ⟨by omega, rfl, h.symm⟩)
      · rintro (⟨-, h⟩ | ⟨-, -, h⟩ | ⟨h, -, -⟩)
        · omega
        · exact h.symm
        · omega
    · constructor
      · intro h
        exact Or.inl (idAt_inj (by omega) (by omega) h)
      · rintro (⟨rfl, rfl⟩ | ⟨-, h, -⟩ | ⟨-, h, -⟩)
        · rfl
        · omega
        · omega

/-! ## Bases with their counts -/

/-- Bases in their order, each with the number of times that it has come by then. -/
def counted (earlier : List String) : List String → List (String × Nat)
  | [] => []
  | base :: rest => (base, earlier.count base + 1) :: counted (base :: earlier) rest

/-- A base comes once with each number up to the number of times that it comes. -/
theorem mem_counted_iff {earlier bases : List String} {base : String} {k : Nat} :
    (base, k) ∈ counted earlier bases ↔
      earlier.count base < k ∧ k ≤ earlier.count base + bases.count base := by
  -- the induction carries the bases before, since the count of the first base is one more than they
  -- have of it
  induction bases generalizing earlier with
  | nil =>
    simp only [counted, List.not_mem_nil, List.count_nil, false_iff]
    omega
  | cons first rest ih =>
    rw [counted, List.mem_cons, ih, List.count_cons, List.count_cons]
    by_cases hfirst : first = base
    · subst hfirst
      simp only [Prod.mk.injEq, true_and, beq_self_eq_true, if_true]
      omega
    · have hne : ¬ base = first := fun h => hfirst h.symm
      simp only [Prod.mk.injEq, hne, false_and, false_or, beq_iff_eq, hfirst, if_false]
      omega

theorem nodup_counted (earlier bases : List String) : (counted earlier bases).Nodup := by
  induction bases generalizing earlier with
  | nil => exact List.nodup_nil
  | cons first rest ih =>
    refine List.nodup_cons.mpr ⟨?_, ih _⟩
    -- a base that comes again has a greater count
    intro hmem
    have hless := (mem_counted_iff.mp hmem).1
    rw [List.count_cons_self] at hless
    omega

/-- What identifies a chunk: its path, its base and its id. -/
structure Tag where
  path : String
  base : String
  id : String
deriving DecidableEq, Repr

/-- The id of a chunk without a number behind it. -/
def base (c : Chunk) : String := baseId c.path c.line.toNat c.name

/-- The tag of a chunk. -/
def tag (c : Chunk) : Tag := ⟨c.path, c.base, c.id⟩

/-- The tags of the chunks of a file, by the bases of the chunks. -/
def tagsOf (path : String) (bases : List String) : List Tag :=
  (counted [] bases).map fun m => ⟨path, m.1, idAt m.1 m.2⟩

/-- A chunk as a node gives it, before it is counted. -/
structure IsBare (path : String) (c : Chunk) : Prop where
  path_eq : c.path = path
  id_eq : c.id = c.base

/-- Chunks of a file that are counted have the tags of their bases. -/
theorem map_tag_withIds {path : String} {cs : List Chunk} (hbare : ∀ c ∈ cs, IsBare path c)
    (earlier : List String) :
    (withIds earlier cs).map tag =
      (counted earlier (cs.map (·.id))).map fun m => ⟨path, m.1, idAt m.1 m.2⟩ := by
  induction cs generalizing earlier with
  | nil => rfl
  | cons c rest ih =>
    obtain ⟨hpath, hid⟩ := hbare c List.mem_cons_self
    have hrest := ih (fun d hd => hbare d (List.mem_cons_of_mem c hd)) (c.id :: earlier)
    simp only [withIds, List.map_cons, counted, hrest, List.cons.injEq, and_true]
    rw [← numberedId_eq, tag, Tag.mk.injEq]
    exact ⟨hpath, hid.symm, rfl⟩

theorem isBare_ofNode {file : Parsed} {lines : List String} {radius : Int} {o : Occurrence}
    {c : Chunk} (hc : c ∈ ofNode file lines radius o) : IsBare file.path c := by
  unfold ofNode at hc
  dsimp only at hc
  split at hc
  · simp at hc
  · obtain ⟨part, -, rfl⟩ := List.mem_map.mp hc
    exact ⟨rfl, rfl⟩

@[simp] theorem map_fst_counted (earlier bases : List String) :
    (counted earlier bases).map (·.1) = bases := by
  induction bases generalizing earlier with
  | nil => rfl
  | cons first rest ih => rw [counted, List.map_cons, ih]

/-- The chunks of a file are tagged by what its nodes declare. -/
theorem exists_map_tag_ofParsed (radius : Int) (file : Parsed) :
    ∃ bases, (ofParsed radius file).map tag = tagsOf file.path bases := by
  refine ⟨_, map_tag_withIds ?_ []⟩
  intro c hc
  obtain ⟨o, -, hmem⟩ := List.mem_flatMap.mp hc
  exact isBare_ofNode hmem

/-! ## Distinct ids -/

/-- How many chunks have the path and the base of a chunk. -/
def occurrences (chunks : List Chunk) (c : Chunk) : Nat :=
  chunks.countP fun d => d.path = c.path ∧ d.base = c.base

/-- What makes two ids the same: a base that two files share, or a base that is itself a base with a
number behind it, and that number comes up. -/
def Clash (chunks : List Chunk) : Prop :=
  (∃ c ∈ chunks, ∃ d ∈ chunks, c.path ≠ d.path ∧ c.base = d.base) ∨
    ∃ c ∈ chunks, ∃ d ∈ chunks, ∃ k : Nat,
      2 ≤ k ∧ k ≤ occurrences chunks c ∧ d.base = s!"{c.base}#{k}"

/-- The bases of several files with their counts. -/
def countedIn (files : List (String × List String)) : List (String × String × Nat) :=
  files.flatMap fun f => (counted [] f.2).map fun m => (f.1, m)

/-- The tags of several files. -/
def tagsIn (files : List (String × List String)) : List Tag :=
  files.flatMap fun f => tagsOf f.1 f.2

theorem tagsIn_eq_map (files : List (String × List String)) :
    tagsIn files = (countedIn files).map fun m => ⟨m.1, m.2.1, idAt m.2.1 m.2.2⟩ := by
  rw [tagsIn, countedIn, List.map_flatMap]
  simp only [tagsOf, List.map_map, Function.comp_def]

theorem countP_tagsOf (path : String) (bases : List String) (p b : String) :
    (tagsOf path bases).countP (fun t => t.path = p ∧ t.base = b) =
      if path = p then bases.count b else 0 := by
  rw [tagsOf, List.countP_map]
  by_cases hpath : path = p
  · rw [if_pos hpath]
    have hcount := congrArg (List.count b) (map_fst_counted [] bases)
    rw [List.count_eq_countP, List.countP_map] at hcount
    rw [← hcount]
    exact List.countP_congr fun m hm => by simp [hpath]
  · rw [if_neg hpath, List.countP_eq_zero]
    intro m hm
    simp [hpath]

/-- In files with different paths a base comes with each number up to the number of times that it
comes in its file. -/
theorem mem_countedIn_iff {files : List (String × List String)}
    (hpaths : (files.map (·.1)).Nodup) {p b : String} {k : Nat} :
    (p, b, k) ∈ countedIn files ↔
      1 ≤ k ∧ k ≤ (tagsIn files).countP (fun t => t.path = p ∧ t.base = b) := by
  induction files with
  | nil => simp [countedIn, tagsIn]; omega
  | cons f rest ih =>
    obtain ⟨hfresh, hrest⟩ := List.nodup_cons.mp hpaths
    -- what the first file adds: its own path with the counts in it
    have hfile : (p, b, k) ∈ (counted [] f.2).map (fun m => (f.1, m)) ↔
        f.1 = p ∧ 1 ≤ k ∧ k ≤ f.2.count b := by
      rw [List.mem_map]
      constructor
      · rintro ⟨m, hm, heq⟩
        obtain ⟨rfl, rfl⟩ := Prod.mk.inj heq
        have hcount := mem_counted_iff.mp hm
        rw [List.count_nil] at hcount
        exact ⟨rfl, by omega⟩
      · rintro ⟨rfl, hk⟩
        refine ⟨(b, k), mem_counted_iff.mpr ?_, rfl⟩
        rw [List.count_nil]
        omega
    have hsplit : countedIn (f :: rest) =
        (counted [] f.2).map (fun m => (f.1, m)) ++ countedIn rest := rfl
    have htags : tagsIn (f :: rest) = tagsOf f.1 f.2 ++ tagsIn rest := rfl
    rw [hsplit, htags, List.mem_append, List.countP_append, countP_tagsOf, hfile, ih hrest]
    by_cases hpath : f.1 = p
    · -- the other files have other paths
      have hnone : (tagsIn rest).countP (fun t => t.path = p ∧ t.base = b) = 0 := by
        rw [List.countP_eq_zero]
        intro t ht
        obtain ⟨f', hf', hmem⟩ := List.mem_flatMap.mp ht
        obtain ⟨m, -, rfl⟩ := List.mem_map.mp hmem
        have hne : f'.1 ≠ p := by
          intro heq
          have hsame : f'.1 = f.1 := heq.trans hpath.symm
          exact hfresh (List.mem_map.mpr ⟨f', hf', hsame⟩)
        simp [hne]
      rw [if_pos hpath, hnone]
      simp only [hpath, true_and]
      omega
    · -- the first file has another path and adds nothing
      rw [if_neg hpath]
      simp [hpath]

theorem nodup_countedIn {files : List (String × List String)}
    (hpaths : (files.map (·.1)).Nodup) : (countedIn files).Nodup := by
  refine List.nodup_flatMap.mpr ⟨?_, ?_⟩
  · intro f hf
    exact (nodup_counted [] f.2).map fun m m' h => (Prod.mk.inj h).2
  · -- what two files add differs in the path
    refine (List.pairwise_map.mp hpaths).imp fun hne => ?_
    intro x hx hx'
    obtain ⟨m, -, rfl⟩ := List.mem_map.mp hx
    obtain ⟨m', -, heq⟩ := List.mem_map.mp hx'
    exact hne (Prod.mk.inj heq).1.symm

section Files

variable {files : List (String × List String)} {chunks : List Chunk}

theorem exists_of_mem_countedIn (hpaths : (files.map (·.1)).Nodup)
    (htags : chunks.map tag = tagsIn files) {p b : String} {k : Nat}
    (hmem : (p, b, k) ∈ countedIn files) :
    ∃ c ∈ chunks, c.path = p ∧ c.base = b ∧ 1 ≤ k ∧ k ≤ occurrences chunks c := by
  obtain ⟨hpos, hle⟩ := (mem_countedIn_iff hpaths).mp hmem
  rw [← htags, List.countP_map] at hle
  obtain ⟨c, hc, hsame⟩ := List.countP_pos_iff.mp (Nat.lt_of_lt_of_le hpos hle)
  obtain ⟨hpath, hbase⟩ : (tag c).path = p ∧ (tag c).base = b := of_decide_eq_true hsame
  subst hpath hbase
  exact ⟨c, hc, rfl, rfl, hpos, hle⟩

/-- The `k`-th of the chunks that share path and base is there, with its number. -/
theorem exists_id_eq_idAt (hpaths : (files.map (·.1)).Nodup)
    (htags : chunks.map tag = tagsIn files) {c : Chunk} {k : Nat} (hk : 1 ≤ k)
    (hle : k ≤ occurrences chunks c) :
    ∃ c' ∈ chunks, c'.path = c.path ∧ c'.base = c.base ∧ c'.id = idAt c.base k := by
  have hmem : (c.path, c.base, k) ∈ countedIn files := by
    refine (mem_countedIn_iff hpaths).mpr ⟨hk, ?_⟩
    rw [← htags, List.countP_map]
    exact hle
  have htag : (⟨c.path, c.base, idAt c.base k⟩ : Tag) ∈ chunks.map tag := by
    rw [htags, tagsIn_eq_map]
    exact List.mem_map.mpr ⟨_, hmem, rfl⟩
  obtain ⟨c', hc', heq⟩ := List.mem_map.mp htag
  obtain ⟨hpath, hbase, hid⟩ := Tag.mk.inj heq
  exact ⟨c', hc', hpath, hbase, hid⟩

theorem occurrences_pos {c : Chunk} (hc : c ∈ chunks) : 1 ≤ occurrences chunks c :=
  List.countP_pos_iff.mpr ⟨c, hc, by simp⟩

/-- A clash makes the ids of two chunks the same. -/
theorem exists_same_id_of_clash (hpaths : (files.map (·.1)).Nodup)
    (htags : chunks.map tag = tagsIn files) (hclash : Clash chunks) :
    ∃ c ∈ chunks, ∃ d ∈ chunks, c ≠ d ∧ c.id = d.id := by
  rcases hclash with ⟨c, hc, d, hd, hpath, hbase⟩ | ⟨c, hc, d, hd, k, hk, hle, hbase⟩
  · -- a base of two files: the first ones with it have it as their id
    obtain ⟨c', hc', hcpath, -, hcid⟩ :=
      exists_id_eq_idAt hpaths htags (Nat.le_refl 1) (occurrences_pos hc)
    obtain ⟨d', hd', hdpath, -, hdid⟩ :=
      exists_id_eq_idAt hpaths htags (Nat.le_refl 1) (occurrences_pos hd)
    refine ⟨c', hc', d', hd', ?_, by rw [hcid, hdid, hbase]⟩
    rintro rfl
    exact hpath (hcpath.symm.trans hdpath)
  · -- a base that looks numbered: its first one and the numbered one it looks like
    obtain ⟨c', hc', -, hcbase, hcid⟩ := exists_id_eq_idAt hpaths htags (by omega) hle
    obtain ⟨d', hd', -, hdbase, hdid⟩ :=
      exists_id_eq_idAt hpaths htags (Nat.le_refl 1) (occurrences_pos hd)
    have hnumbered : idAt c.base k = d.base := by
      rw [hbase, idAt, if_neg (by omega)]
    refine ⟨c', hc', d', hd', ?_, by rw [hcid, hdid, idAt_one, hnumbered]⟩
    rintro rfl
    exact idAt_ne_base hk (hnumbered.trans (hdbase.symm.trans hcbase))

theorem nodup_ids_of_not_clash (hpaths : (files.map (·.1)).Nodup)
    (htags : chunks.map tag = tagsIn files) (hclash : ¬ Clash chunks) :
    (chunks.map (·.id)).Nodup := by
  -- the ids are those of the counted bases, which are distinct
  have hids : chunks.map (·.id) = (countedIn files).map fun m => idAt m.2.1 m.2.2 := by
    have htagids := congrArg (List.map Tag.id) (htags.trans (tagsIn_eq_map files))
    rw [List.map_map, List.map_map] at htagids
    exact htagids
  rw [hids, List.nodup_map_iff_inj_on (nodup_countedIn hpaths)]
  rintro ⟨p, b, k⟩ hx ⟨p', b', k'⟩ hy hsame
  dsimp only at hsame
  obtain ⟨c, hc, rfl, rfl, hk, hcle⟩ := exists_of_mem_countedIn hpaths htags hx
  obtain ⟨d, hd, rfl, rfl, hk', hdle⟩ := exists_of_mem_countedIn hpaths htags hy
  -- equal ids of different counts are a clash of the second kind, either way round
  rcases (idAt_eq_iff hk hk').mp hsame with ⟨hbase, rfl⟩ | ⟨htwo, -, hbase⟩ | ⟨htwo, -, hbase⟩
  · have hpath : c.path = d.path := by
      by_contra hne
      exact hclash (Or.inl ⟨c, hc, d, hd, hne, hbase⟩)
    rw [hpath, hbase]
  · rw [idAt, if_neg (by omega)] at hbase
    exact absurd (Or.inr ⟨c, hc, d, hd, k, htwo, hcle, hbase⟩) hclash
  · rw [idAt, if_neg (by omega)] at hbase
    exact absurd (Or.inr ⟨d, hd, c, hc, k', htwo, hdle, hbase⟩) hclash

/-- The ids of the chunks of files with different paths are distinct exactly if nothing clashes. -/
theorem nodup_ids_iff (hpaths : (files.map (·.1)).Nodup)
    (htags : chunks.map tag = tagsIn files) :
    (chunks.map (·.id)).Nodup ↔ ¬ Clash chunks := by
  refine ⟨?_, nodup_ids_of_not_clash hpaths htags⟩
  intro hnodup hclash
  obtain ⟨c, hc, d, hd, hne, hid⟩ := exists_same_id_of_clash hpaths htags hclash
  exact hne (List.inj_on_of_nodup_map hnodup hc hd hid)

end Files

end CodeSearch.Chunk

/-!
Caches that forget what was not used for longest.

The entries stand in the order of their last use, the oldest first. No key comes twice, and there
are never more entries than the cache has room for; a cache without room stays empty.
-/
set_option autoImplicit false

namespace CodeSearch

/-- A cache with room for `room` entries. -/
structure Lru (κ α : Type) where
  room : Nat
  entries : List (κ × α)
  distinct : (entries.map (·.1)).Nodup
  fits : entries.length ≤ room

namespace Lru

variable {κ α : Type} [DecidableEq κ]

/-- The cache with nothing in it. -/
def empty (room : Nat) : Lru κ α :=
  ⟨room, [], by simp, by simp⟩

/-- What is kept under a key. -/
def get? (c : Lru κ α) (key : κ) : Option α :=
  c.entries.lookup key

/-- The number of entries. -/
def size (c : Lru κ α) : Nat := c.entries.length

/-- The entries without the one under a key. -/
def others (entries : List (κ × α)) (key : κ) : List (κ × α) :=
  entries.filter fun entry => entry.1 ≠ key

/-- The entries with one put at the end, as the one used last. -/
def placed (entries : List (κ × α)) (key : κ) (value : α) : List (κ × α) :=
  others entries key ++ [(key, value)]

/-- As many of the last entries as there is room for. -/
def lastOf (room : Nat) (entries : List (κ × α)) : List (κ × α) :=
  entries.drop (entries.length - room)

omit [DecidableEq κ] in
/-- No more is left than there is room for. -/
theorem length_lastOf_le (room : Nat) (entries : List (κ × α)) :
    (lastOf room entries).length ≤ room := by
  simp [lastOf]; omega

/-- No key comes twice when an entry is put at the end. -/
theorem nodup_placed {entries : List (κ × α)} (h : (entries.map (·.1)).Nodup) (key : κ) (value : α) :
    ((placed entries key value).map (·.1)).Nodup := by
  have kept : ((others entries key).map (·.1)).Nodup :=
    h.sublist (List.Sublist.map _ List.filter_sublist)
  simp only [placed, List.map_append, List.map_cons, List.map_nil]
  refine List.nodup_append.mpr ⟨kept, by simp, ?_⟩
  intro a ha b hb
  obtain ⟨entry, mem, rfl⟩ := List.mem_map.mp ha
  simp only [List.mem_singleton] at hb
  have := (List.mem_filter.mp mem).2
  simp only [decide_eq_true_eq] at this
  exact hb ▸ this

/-- The cache with an entry put into it. -/
def put (c : Lru κ α) (key : κ) (value : α) : Lru κ α where
  room := c.room
  entries := lastOf c.room (placed c.entries key value)
  distinct := by
    have := nodup_placed c.distinct key value
    rw [lastOf, List.map_drop]
    exact this.sublist (List.drop_sublist _ _)
  fits := length_lastOf_le ..

/-- The cache with the entry under a key as the one used last. -/
def touch (c : Lru κ α) (key : κ) : Lru κ α :=
  match c.get? key with
  | some value => c.put key value
  | none => c

/-- The same cache with nothing in it. -/
def clear (c : Lru κ α) : Lru κ α := empty c.room

/-! ## Entries -/

section Entries

variable {c : Lru κ α} {key other : κ} {value found : α}

theorem mem_of_get? (h : c.get? key = some value) : (key, value) ∈ c.entries := by
  obtain ⟨before, after, hentries, -⟩ := List.lookup_eq_some_iff.mp h
  rw [hentries]
  exact List.mem_append_right _ List.mem_cons_self

theorem get?_of_mem (h : (key, value) ∈ c.entries) : c.get? key = some value := by
  obtain ⟨before, after, hentries⟩ := List.append_of_mem h
  have hdistinct := c.distinct
  rw [hentries, List.map_append, List.map_cons] at hdistinct
  refine List.lookup_eq_some_iff.mpr ⟨before, after, hentries, ?_⟩
  intro entry hentry
  have hne := (List.nodup_append.mp hdistinct).2.2 entry.1
    (List.mem_map_of_mem hentry) key List.mem_cons_self
  simpa using Ne.symm hne

/-- What is kept after an entry was put is that entry, or was kept before. -/
theorem mem_of_put {entry : κ × α} (h : entry ∈ (c.put key value).entries) :
    entry = (key, value) ∨ entry ∈ c.entries := by
  have hplaced : entry ∈ placed c.entries key value := List.mem_of_mem_drop h
  rw [placed, List.mem_append, List.mem_singleton] at hplaced
  rcases hplaced with hold | hnew
  · exact Or.inr (List.mem_filter.mp hold).1
  · exact Or.inl hnew

theorem mem_of_touch {entry : κ × α} (h : entry ∈ (c.touch key).entries) : entry ∈ c.entries := by
  unfold touch at h
  cases hkept : c.get? key with
  | none =>
    rw [hkept] at h
    exact h
  | some value =>
    rw [hkept] at h
    rcases mem_of_put h with rfl | hold
    · exact mem_of_get? hkept
    · exact hold

/-- What is found after an entry was put is that entry, or was there before. -/
theorem get?_put (h : (c.put key value).get? other = some found) :
    (other = key ∧ found = value) ∨ c.get? other = some found := by
  rcases mem_of_put (mem_of_get? h) with hnew | hold
  · exact Or.inl (Prod.mk.inj hnew)
  · exact Or.inr (get?_of_mem hold)

theorem get?_touch (h : (c.touch key).get? other = some found) : c.get? other = some found :=
  get?_of_mem (mem_of_touch (mem_of_get? h))

@[simp] theorem room_put (c : Lru κ α) (key : κ) (value : α) : (c.put key value).room = c.room := rfl

@[simp] theorem room_touch (c : Lru κ α) (key : κ) : (c.touch key).room = c.room := by
  unfold touch
  split
  · exact room_put c key _
  · rfl

end Entries

end Lru

end CodeSearch

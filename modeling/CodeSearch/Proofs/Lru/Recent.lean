import CodeSearch.Lru
import Mathlib.Data.Finset.Card

/-!
What a cache keeps.

Using an entry changes nothing of what is found (`get?_touch_eq`). Putting one may cost another its
place, but only the one that was not used for longest. So as long as only some keys are used, and the
cache has room for all of these, the ones that were used stay: they are among the last entries, and
no other key comes between them (`Recent`).
-/
set_option autoImplicit false

namespace CodeSearch.Lru

variable {κ α : Type} [DecidableEq κ]

/-! ## Using an entry -/

theorem get?_eq_some_iff {c : Lru κ α} {key : κ} {value : α} :
    c.get? key = some value ↔ (key, value) ∈ c.entries :=
  ⟨mem_of_get?, get?_of_mem⟩

/-- An entry that is put where its key already has one needs no more room. -/
theorem length_placed_le {c : Lru κ α} {key : κ} {old : α} (h : c.get? key = some old) (value : α) :
    (placed c.entries key value).length ≤ c.entries.length := by
  have hless : (others c.entries key).length < c.entries.length :=
    List.length_filter_lt_length_iff_exists.mpr ⟨(key, old), mem_of_get? h, by simp⟩
  rw [placed, List.length_append, List.length_singleton]
  omega

theorem entries_touch {c : Lru κ α} {key : κ} {value : α} (h : c.get? key = some value) :
    (c.touch key).entries = placed c.entries key value := by
  have hfits : (placed c.entries key value).length ≤ c.room :=
    (length_placed_le h value).trans c.fits
  rw [touch, h]
  show lastOf c.room (placed c.entries key value) = _
  rw [lastOf, Nat.sub_eq_zero_of_le hfits, List.drop_zero]

theorem mem_touch_iff {c : Lru κ α} {key : κ} {entry : κ × α} :
    entry ∈ (c.touch key).entries ↔ entry ∈ c.entries := by
  refine ⟨mem_of_touch, fun hentry => ?_⟩
  cases hkept : c.get? key with
  | none => rwa [touch, hkept]
  | some value =>
    rw [entries_touch hkept, placed, List.mem_append, List.mem_singleton]
    by_cases hsame : entry.1 = key
    · -- the entry under the key is the one that is put at the end
      have hfound : c.get? key = some entry.2 := get?_of_mem (hsame ▸ hentry)
      rw [hkept] at hfound
      exact Or.inr (Prod.ext hsame (Option.some.inj hfound).symm)
    · exact Or.inl (List.mem_filter.mpr ⟨hentry, by simpa using hsame⟩)

/-- Using an entry changes nothing of what is found. -/
theorem get?_touch_eq (c : Lru κ α) (key other : κ) : (c.touch key).get? other = c.get? other := by
  refine Option.ext fun value => ?_
  rw [get?_eq_some_iff, get?_eq_some_iff, mem_touch_iff]

/-! ## The entries used last -/

omit [DecidableEq κ] in
/-- Entries for which there is room are not among those that have to go. -/
theorem lastOf_append {room : Nat} {old new : List (κ × α)} (h : new.length ≤ room) :
    lastOf room (old ++ new) = old.drop (old.length + new.length - room) ++ new := by
  rw [lastOf, List.length_append, List.drop_append_of_le_length (by omega)]

/-- Of some keys those in `used` are kept, and behind the first of them stand no keys but these. -/
def Recent (keys used : List κ) (c : Lru κ α) : Prop :=
  ∃ old new, c.entries = old ++ new ∧ (∀ entry ∈ new, entry.1 ∈ keys) ∧
    ∀ key ∈ used, key ∈ new.map (·.1)

namespace Recent

variable {keys used : List κ} {c : Lru κ α} {key : κ}

omit [DecidableEq κ] in
theorem nil (keys : List κ) (c : Lru κ α) : Recent keys [] c :=
  ⟨c.entries, [], by simp, by simp, by simp⟩

/-- What was used is kept. -/
theorem exists_get? (h : Recent keys used c) (hused : key ∈ used) : ∃ v, c.get? key = some v := by
  obtain ⟨old, new, hentries, -, hkept⟩ := h
  obtain ⟨entry, hentry, rfl⟩ := List.mem_map.mp (hkept key hused)
  refine ⟨entry.2, get?_of_mem ?_⟩
  rw [hentries]
  exact List.mem_append_right _ hentry

/-- With room for all of the keys, putting one of them costs none of the others its place. -/
theorem put (h : Recent keys used c) (hkey : key ∈ keys) (hroom : keys.toFinset.card ≤ c.room)
    (value : α) : Recent keys (key :: used) (c.put key value) := by
  obtain ⟨old, new, hentries, hnew, hkept⟩ := h
  have hplaced : placed c.entries key value = others old key ++ placed new key value := by
    simp only [placed, others, hentries, List.filter_append, List.append_assoc]
  have hlast : ∀ entry ∈ placed new key value, entry.1 ∈ keys := by
    intro entry hentry
    rw [placed, List.mem_append, List.mem_singleton] at hentry
    rcases hentry with hold | rfl
    · exact hnew entry (List.mem_filter.mp hold).1
    · exact hkey
  -- the last ones are as many as there are keys at most, so what has to go is one of the others
  have hfew : (placed new key value).length ≤ c.room := by
    have hdistinct : ((placed new key value).map (·.1)).Nodup := by
      have hall := nodup_placed c.distinct key value
      rw [hplaced, List.map_append] at hall
      exact hall.of_append_right
    calc (placed new key value).length
        = ((placed new key value).map (·.1)).toFinset.card := by
          rw [List.toFinset_card_of_nodup hdistinct, List.length_map]
      _ ≤ keys.toFinset.card := by
          refine Finset.card_le_card fun k hk => ?_
          obtain ⟨entry, hentry, rfl⟩ := List.mem_map.mp (List.mem_toFinset.mp hk)
          exact List.mem_toFinset.mpr (hlast entry hentry)
      _ ≤ c.room := hroom
  refine ⟨(others old key).drop ((others old key).length + (placed new key value).length - c.room),
    placed new key value, ?_, hlast, ?_⟩
  · show lastOf c.room (placed c.entries key value) = _
    rw [hplaced, lastOf_append hfew]
  · intro k hk
    rw [placed, List.map_append, List.mem_append]
    by_cases hsame : k = key
    · exact Or.inr (by simp [hsame])
    · obtain ⟨entry, hentry, rfl⟩ := List.mem_map.mp
        (hkept k ((List.mem_cons.mp hk).resolve_left hsame))
      exact Or.inl (List.mem_map_of_mem (List.mem_filter.mpr ⟨hentry, by simpa using hsame⟩))

theorem touch (h : Recent keys used c) (hkey : key ∈ keys) (hroom : keys.toFinset.card ≤ c.room)
    {value : α} (hget : c.get? key = some value) : Recent keys (key :: used) (c.touch key) := by
  rw [Lru.touch, hget]
  exact h.put hkey hroom value

end Recent

end CodeSearch.Lru

import Mathlib.Data.List.Dedup
import Mathlib.Data.List.DropRight
import CodeSearch.Proofs.Lru.Recent

/-!
Which keys a cache has.

The keys of a cache are the ones that were used last, in the order of their last use, as many as there is
room for (`Keeps`). To use a key once more takes it out of the order and puts it at the end. Those that
had to go before are not missed by that: of what is still there, at least as many are left as there is
room for (`rtake_used_rtake`).
-/
set_option autoImplicit false

namespace CodeSearch.Lru

variable {κ α : Type} [DecidableEq κ]

/-! ## The order of last use -/

/-- The keys in the order of their last use, after one of them was used. -/
def used (order : List κ) (key : κ) : List κ :=
  order.filter (· ≠ key) ++ [key]

/-- One use more comes last. -/
theorem dedup_concat (uses : List κ) (key : κ) : (uses ++ [key]).dedup = used uses.dedup key := by
  induction uses with
  | nil => rfl
  | cons other uses ih =>
    rw [List.cons_append, List.dedup_cons, ih, List.dedup_cons]
    by_cases hsame : other = key
    · subst hsame
      rw [if_pos (by simp)]
      by_cases hmem : other ∈ uses
      · rw [if_pos hmem]
      · rw [if_neg hmem, used, used, List.filter_cons_of_neg (by simp)]
    · by_cases hmem : other ∈ uses
      · rw [if_pos (by simp [hmem]), if_pos hmem]
      · rw [if_neg (by simp [hmem, hsame]), if_neg hmem, used, used,
          List.filter_cons_of_pos (by simpa using hsame), List.cons_append]

/-- No fewer keys are in order after one was used. -/
theorem length_le_length_used {order : List κ} (hdistinct : order.Nodup) (key : κ) :
    order.length ≤ (used order key).length := by
  have hparts : order.length = (order.filter (· ≠ key)).length + order.count key := by
    rw [List.length_eq_countP_add_countP (· ≠ key), List.countP_eq_length_filter, List.count]
    congr 2
    funext other
    by_cases hsame : other = key <;> simp [hsame]
  have hone : order.count key ≤ 1 := List.nodup_iff_count_le_one.mp hdistinct key
  rw [used, List.length_append, List.length_singleton]
  omega

omit [DecidableEq κ] in
theorem rtake_append {front back : List κ} {room : Nat} (h : room ≤ back.length) :
    (front ++ back).rtake room = back.rtake room := by
  rw [List.rtake, List.rtake, List.length_append, List.drop_append, List.drop_eq_nil_of_le (by omega),
    List.nil_append]
  congr 1
  omega

/-- Keys that had no room before have none after a key was used. -/
theorem rtake_used_rtake {order : List κ} (hdistinct : order.Nodup) (room : Nat) (key : κ) :
    (used (order.rtake room) key).rtake room = (used order key).rtake room := by
  by_cases hfits : order.length ≤ room
  · have hall : order.rtake room = order := by
      rw [List.rtake, Nat.sub_eq_zero_of_le hfits, List.drop_zero]
    rw [hall]
  · -- there are as many left as there is room for, so none of the others comes in again
    have hsplit : used order key =
        (order.take (order.length - room)).filter (· ≠ key) ++ used (order.rtake room) key := by
      rw [used, used, ← List.append_assoc, ← List.filter_append, List.rtake, List.take_append_drop]
    have henough : room ≤ (used (order.rtake room) key).length := by
      have hlast : (order.rtake room).Nodup := hdistinct.sublist (List.drop_sublist _ _)
      have hlength : (order.rtake room).length = room := by
        rw [List.rtake, List.length_drop]
        omega
      exact hlength.symm.le.trans (length_le_length_used hlast key)
    rw [hsplit, rtake_append henough]

/-! ## The keys of a cache -/

/-- The keys of a cache are the ones of some uses that come last, as many as there is room for. -/
def Keeps (c : Lru κ α) (uses : List κ) : Prop :=
  c.entries.map (·.1) = uses.dedup.rtake c.room

omit [DecidableEq κ] in
theorem map_lastOf (room : Nat) (entries : List (κ × α)) :
    (lastOf room entries).map (·.1) = (entries.map (·.1)).rtake room := by
  rw [lastOf, List.rtake, List.map_drop, List.length_map]

theorem map_placed (entries : List (κ × α)) (key : κ) (value : α) :
    (placed entries key value).map (·.1) = used (entries.map (·.1)) key := by
  rw [placed, others, used, List.map_append, List.filter_map]
  rfl

namespace Keeps

variable {c : Lru κ α} {uses : List κ} {key : κ}

theorem empty (room : Nat) : (Lru.empty room : Lru κ α).Keeps [] := by
  rw [Keeps, List.dedup_nil, List.rtake_nil]
  rfl

theorem put (h : c.Keeps uses) (key : κ) (value : α) : (c.put key value).Keeps (uses ++ [key]) := by
  have hentries : (c.put key value).entries = lastOf c.room (placed c.entries key value) := rfl
  rw [Keeps, hentries, map_lastOf, map_placed, h, room_put, dedup_concat,
    rtake_used_rtake (List.nodup_dedup uses)]

theorem touch (h : c.Keeps uses) {value : α} (hget : c.get? key = some value) :
    (c.touch key).Keeps (uses ++ [key]) := by
  rw [Lru.touch, hget]
  exact h.put key value

end Keeps

/-- An entry that loses its place is the one that was not used for longest. -/
theorem head_of_evicted {c : Lru κ α} {key : κ} (hnone : c.get? key = none) (value : α)
    {entry : κ × α} (hentry : entry ∈ c.entries) (hgone : entry ∉ (c.put key value).entries) :
    c.entries.head? = some entry := by
  have hothers : others c.entries key = c.entries := by
    refine List.filter_eq_self.mpr fun other hother => ?_
    have hne : other.1 ≠ key := by
      rintro rfl
      rw [get?_of_mem hother] at hnone
      cases hnone
    simpa using hne
  have hput : (c.put key value).entries =
      (c.entries ++ [(key, value)]).drop (c.entries.length + 1 - c.room) := by
    show lastOf c.room (placed c.entries key value) = _
    rw [placed, hothers, lastOf, List.length_append, List.length_singleton]
  -- at most one entry has to go, and it is the first one
  have hfew : c.entries.length + 1 - c.room ≤ 1 := by
    have := c.fits
    omega
  rw [hput] at hgone
  cases hfirst : c.entries with
  | nil =>
    rw [hfirst] at hentry
    cases hentry
  | cons first rest =>
    rw [hfirst] at hentry hgone
    rcases List.mem_cons.mp hentry with rfl | hrest
    · rfl
    · refine absurd ?_ hgone
      have hafter : entry ∈ (first :: rest ++ [(key, value)]).drop 1 := List.mem_append_left _ hrest
      exact (List.drop_sublist_drop_left _ (by simpa [hfirst] using hfew)).subset hafter

end CodeSearch.Lru

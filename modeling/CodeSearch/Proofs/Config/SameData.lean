import CodeSearch.Value.Basic

/-!
Tables with the same data.

Tables are compared by what stands at each place in them, in whatever order their keys come
(`Alike`). Floating-point numbers are compared as they are, so that tables that are the same are alike
whatever is in them.
-/
set_option autoImplicit false

namespace CodeSearch

namespace Value

/-- One step into a value. -/
inductive Inward where
  | key (name : String)
  | item (position : Nat)

/-- What stands at the end of a path into a value. -/
def at? : List Inward → Value → Option Value
  | [], v => some v
  | .key name :: path, .table entries => (find? name entries).bind (at? path)
  | .item position :: path, .list items => items[position]?.bind (at? path)
  | _, _ => none

/-- A value without what is in it: of a list only its length is left. -/
def surface : Value → Value
  | .table _ => .table []
  | .list items => .list (items.map fun _ => .null)
  | v => v

/-- The same data, or nothing on both sides: at the end of every path the same is found. The order of
the keys of a table does not matter. -/
def Alike (v w : Option Value) : Prop :=
  ∀ path, (v.bind (at? path)).map surface = (w.bind (at? path)).map surface

variable {v w u : Option Value}

theorem Alike.refl (v : Option Value) : Alike v v := fun _ => rfl

theorem Alike.symm (h : Alike v w) : Alike w v := fun path => (h path).symm

theorem Alike.trans (h : Alike v w) (h' : Alike w u) : Alike v u :=
  fun path => (h path).trans (h' path)

/-- Tables with the same data have it under each key. -/
theorem Alike.find? {entries entries' : List (String × Value)}
    (h : Alike (some (.table entries)) (some (.table entries'))) (key : String) :
    Alike (find? key entries) (Value.find? key entries') := by
  intro path
  exact h (.key key :: path)

/-- What is the same as nothing is nothing. -/
theorem Alike.eq_none (h : Alike v none) : v = none := by
  have hsurface := h []
  cases v with
  | none => rfl
  | some v => cases hsurface

/-- Lists with the same data have it at each position. -/
theorem Alike.getElem? {items items' : List Value}
    (h : Alike (some (.list items)) (some (.list items'))) (position : Nat) :
    Alike items[position]? items'[position]? := by
  intro path
  exact h (.item position :: path)

theorem find?_setEntry (key other : String) (value : Value) (entries : List (String × Value)) :
    find? other (setEntry key value entries) =
      if key = other then some value else find? other entries := by
  induction entries with
  | nil =>
    rw [setEntry, Value.find?, List.find?_cons]
    by_cases hkey : key = other
    · simp only [hkey, beq_self_eq_true, if_true, Option.map_some]
    · simp only [beq_eq_false_iff_ne.mpr hkey, if_neg hkey, Value.find?]
  | cons entry rest ih =>
    rw [setEntry]
    by_cases hentry : entry.1 = key
    · rw [if_pos (beq_iff_eq.mpr hentry)]
      by_cases hkey : key = other
      · simp only [Value.find?, List.find?_cons, hkey, beq_self_eq_true, if_true, Option.map_some]
      · have hother : ¬ entry.1 = other := hentry ▸ hkey
        simp only [Value.find?, List.find?_cons, beq_eq_false_iff_ne.mpr hkey,
          beq_eq_false_iff_ne.mpr hother, if_neg hkey]
    · rw [if_neg (by simpa using hentry)]
      by_cases hother : entry.1 = other
      · have hkey : ¬ key = other := fun h => hentry (hother.trans h.symm)
        simp only [Value.find?, List.find?_cons, hother, beq_self_eq_true, if_neg hkey]
      · simp only [Value.find?, List.find?_cons, beq_eq_false_iff_ne.mpr hother] at ih ⊢
        exact ih

mutual

/-- Whether two values are spelled in the same way and have neither a floating-point number nor anything
of another kind in them. -/
def identical : Value → Value → Bool
  | .null, .null => true
  | .bool b, .bool b' => b == b'
  | .int i, .int i' => i == i'
  | .text s, .text s' => s == s'
  | .list items, .list items' => identicalItems items items'
  | .table entries, .table entries' => identicalEntries entries entries'
  | _, _ => false

/-- Whether the items of two lists are identical one by one. -/
def identicalItems : List Value → List Value → Bool
  | [], [] => true
  | item :: rest, item' :: rest' => identical item item' && identicalItems rest rest'
  | _, _ => false

/-- Whether the entries of two tables are identical one by one. -/
def identicalEntries : List (String × Value) → List (String × Value) → Bool
  | [], [] => true
  | (key, value) :: rest, (key', value') :: rest' =>
    key == key' && (identical value value' && identicalEntries rest rest')
  | _, _ => false

end

mutual

theorem eq_of_identical : ∀ v w : Value, identical v w = true → v = w
  | .null, .null, _ => rfl
  | .bool b, .bool b', h => by rw [identical, beq_iff_eq] at h; rw [h]
  | .int i, .int i', h => by rw [identical, beq_iff_eq] at h; rw [h]
  | .text s, .text s', h => by rw [identical, beq_iff_eq] at h; rw [h]
  | .list items, .list items', h => by
    rw [identical] at h
    rw [eq_of_identicalItems items items' h]
  | .table entries, .table entries', h => by
    rw [identical] at h
    rw [eq_of_identicalEntries entries entries' h]

theorem eq_of_identicalItems : ∀ items items' : List Value,
    identicalItems items items' = true → items = items'
  | [], [], _ => rfl
  | item :: rest, item' :: rest', h => by
    rw [identicalItems, Bool.and_eq_true] at h
    rw [eq_of_identical item item' h.1, eq_of_identicalItems rest rest' h.2]

theorem eq_of_identicalEntries : ∀ entries entries' : List (String × Value),
    identicalEntries entries entries' = true → entries = entries'
  | [], [], _ => rfl
  | (key, value) :: rest, (key', value') :: rest', h => by
    rw [identicalEntries, Bool.and_eq_true, Bool.and_eq_true, beq_iff_eq] at h
    rw [h.1, eq_of_identical value value' h.2.1, eq_of_identicalEntries rest rest' h.2.2]

end

end Value

end CodeSearch

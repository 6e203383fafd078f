/-!
Finite sets of names.

A set is the list of its names in increasing order, code point by code point, and carries the proof
that the order is strict. So two sets with the same names are equal, and the order in which
names are shown is the order in which they are kept.
-/
set_option autoImplicit false

namespace CodeSearch.Text

/-- A set of names, kept in strictly increasing order. -/
structure NameSet where
  names : List String
  increasing : names.Pairwise (· < ·)

namespace NameSet

instance : Membership String NameSet := ⟨fun s name => name ∈ s.names⟩

@[ext] theorem ext {s t : NameSet} (h : s.names = t.names) : s = t := by
  cases s; cases t; cases h; rfl

instance : DecidableEq NameSet := fun s t =>
  decidable_of_iff (s.names = t.names) ⟨ext, fun h => h ▸ rfl⟩

/-- The set with nothing in it. -/
def empty : NameSet := ⟨[], .nil⟩

instance : Inhabited NameSet := ⟨empty⟩

/-- A name put into its place in a list, unless it is there. -/
def place (name : String) : List String → List String
  | [] => [name]
  | first :: rest =>
    if name < first then name :: first :: rest
    else if name = first then first :: rest
    else first :: place name rest

/-- Placing a name adds that name and no other. -/
theorem mem_place {name other : String} {names : List String} :
    other ∈ place name names ↔ other = name ∨ other ∈ names := by
  induction names with
  | nil => simp [place]
  | cons first rest ih =>
    simp only [place]
    split
    · simp
    · split
      · next h => simp [h]
      · simp only [List.mem_cons, ih]
        constructor <;> (rintro (h | h | h) <;> simp [h])

/-- Of two different names one comes first. -/
theorem lt_of_not_lt {a b : String} (h : ¬a < b) (ne : a ≠ b) : b < a := by
  rcases String.le_total a b with hab | hba
  · exact absurd (String.le_antisymm hab (String.not_lt.mp h)) ne
  · exact String.not_le.mp fun hab => ne (String.le_antisymm hab hba)

/-- Placing a name keeps the order strict. -/
theorem pairwise_place (name : String) {names : List String} (h : names.Pairwise (· < ·)) :
    (place name names).Pairwise (· < ·) := by
  induction names with
  | nil => simp [place]
  | cons first rest ih =>
    obtain ⟨least, tail⟩ := List.pairwise_cons.mp h
    simp only [place]
    split
    · next lt =>
      refine List.pairwise_cons.mpr ⟨fun other mem => ?_, h⟩
      rcases List.mem_cons.mp mem with rfl | mem
      · exact lt
      · exact String.lt_trans lt (least other mem)
    · split
      · exact h
      · next notLt ne =>
        refine List.pairwise_cons.mpr ⟨fun other mem => ?_, ih tail⟩
        rcases mem_place.mp mem with rfl | mem
        · exact lt_of_not_lt notLt ne
        · exact least other mem

/-- The set with a name added. -/
def insert (name : String) (s : NameSet) : NameSet :=
  ⟨place name s.names, pairwise_place name s.increasing⟩

/-- The set of the names of a list. -/
def ofList (names : List String) : NameSet :=
  names.foldr insert empty

/-- The names of both sets. -/
def union (s t : NameSet) : NameSet :=
  s.names.foldr insert t

/-- Whether a name is in the set. -/
def contains (s : NameSet) (name : String) : Bool :=
  s.names.contains name

@[simp] theorem mem_insert {name other : String} {s : NameSet} :
    other ∈ insert name s ↔ other = name ∨ other ∈ s :=
  mem_place

@[simp] theorem not_mem_empty {name : String} : ¬name ∈ empty :=
  List.not_mem_nil

@[simp] theorem mem_ofList {name : String} {names : List String} :
    name ∈ ofList names ↔ name ∈ names := by
  induction names with
  | nil => simp [ofList]
  | cons first rest ih => simp [ofList, List.foldr] at ih ⊢; simp [ih]

@[simp] theorem mem_union {name : String} {s t : NameSet} :
    name ∈ union s t ↔ name ∈ s ∨ name ∈ t := by
  have go (names : List String) : name ∈ names.foldr insert t ↔ name ∈ names ∨ name ∈ t := by
    induction names with
    | nil => simp
    | cons first rest ih => simp [ih, or_assoc]
  exact go s.names

end NameSet

end CodeSearch.Text

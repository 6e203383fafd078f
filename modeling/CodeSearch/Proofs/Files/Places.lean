import CodeSearch.Files.Tree

/-!
What is put at a place of a tree.

What is put at a place stands there (`at?_put`). If nothing is in what was there and in what is put
there, the tree is the same at every other place, except for what the directories above the place
hold (`alikeBut_put`).
-/
set_option autoImplicit false

namespace CodeSearch.Files

theorem entryAt?_eq_bind (entries : List (String × Item)) (step : String) (rest : List String) :
    entryAt? entries step rest = (entryAt? entries step []).bind (·.at? rest) := by
  induction entries with
  | nil => rw [entryAt?, entryAt?, Option.bind_none]
  | cons entry others ih =>
    rw [entryAt?, entryAt?]
    split
    · rw [Item.at?, Option.bind_some]
    · exact ih

/-- What stands below a place is looked up from there. -/
theorem at?_append (root : Item) (place below : List String) :
    root.at? (place ++ below) = (root.at? place).bind (·.at? below) := by
  induction place generalizing root with
  | nil => rw [List.nil_append, Item.at?, Option.bind_some]
  | cons step rest ih =>
    cases root with
    | directory entries access =>
      rw [List.cons_append, Item.at?, Item.at?, entryAt?_eq_bind, entryAt?_eq_bind entries step rest]
      cases entryAt? entries step [] with
      | none => rfl
      | some item => exact ih item
    | _ => rfl

section Change

variable {step : String} {change : Option Item → Option Item} {entries : List (String × Item)}

theorem entryAt?_changeEntry_self (hsome : ∀ item, (change item).isSome) :
    entryAt? (changeEntry step change entries) step [] = change (entryAt? entries step []) := by
  induction entries with
  | nil =>
    obtain ⟨made, hmade⟩ := Option.isSome_iff_exists.mp (hsome none)
    rw [changeEntry, hmade]
    simp only [entryAt?, if_pos, Item.at?, hmade]
  | cons entry others ih =>
    rw [changeEntry]
    by_cases hname : entry.1 = step
    · obtain ⟨changed, hchanged⟩ := Option.isSome_iff_exists.mp (hsome (some entry.2))
      rw [if_pos hname, hchanged]
      simp only [entryAt?, hname, if_pos, Item.at?, hchanged]
    · rw [if_neg hname, entryAt?, if_neg hname, ih, entryAt?, if_neg hname]

theorem entryAt?_changeEntry_of_ne {other : String} (hne : other ≠ step) (rest : List String) :
    entryAt? (changeEntry step change entries) other rest = entryAt? entries other rest := by
  induction entries with
  | nil =>
    rw [changeEntry]
    split
    · simp only [entryAt?, if_neg (Ne.symm hne)]
    · rfl
  | cons entry others ih =>
    obtain ⟨name, item⟩ := entry
    rw [changeEntry]
    by_cases hname : name = step
    · have hother : name ≠ other := hname ▸ Ne.symm hne
      rw [if_pos hname, entryAt?, if_neg hother]
      split
      · rw [entryAt?, if_neg (Ne.symm hne)]
      · rfl
    · rw [if_neg hname, entryAt?, entryAt?, ih]

end Change

theorem isSome_changeAt (item : Item) (place : List String) (found : Option Item) :
    (changeAt (fun _ => some item) place found).isSome := by
  cases place with
  | nil => rfl
  | cons step rest => rfl

theorem exists_changeAt_cons (change : Option Item → Option Item) (step : String)
    (rest : List String) (found : Option Item) :
    ∃ entries access, changeAt change (step :: rest) found =
      some (.directory (changeEntry step (changeAt change rest) entries) access) := ⟨_, _, rfl⟩

/-- What is put at a place stands there. -/
theorem at?_changeAt (item : Item) (place : List String) (found : Option Item) :
    (changeAt (fun _ => some item) place found).bind (·.at? place) = some item := by
  induction place generalizing found with
  | nil => rw [changeAt, Option.bind_some, Item.at?]
  | cons step rest ih =>
    obtain ⟨entries, access, hmade⟩ := exists_changeAt_cons (fun _ => some item) step rest found
    rw [hmade, Option.bind_some, Item.at?, entryAt?_eq_bind,
      entryAt?_changeEntry_self (isSome_changeAt item rest)]
    exact ih _

theorem at?_put (root item : Item) (place : List String) :
    (root.put place item).at? place = some item := by
  obtain ⟨made, hmade⟩ := Option.isSome_iff_exists.mp (isSome_changeAt item place (some root))
  have hfound := at?_changeAt item place (some root)
  rw [Item.put, hmade]
  rw [hmade] at hfound
  exact hfound

/-! ## Other places -/

/-- An item without what is in it if it is a directory. -/
def Item.outline : Item → Item
  | .directory _ access => .directory [] access
  | item => item

/-- Trees that differ at one place only, what is in directories left aside. -/
def AlikeBut (place : List String) (root root' : Item) : Prop :=
  ∀ other, other ≠ place → (root'.at? other).map Item.outline = (root.at? other).map Item.outline

/-- Nothing is in an item. -/
def Item.Bare (item : Item) : Prop :=
  ∀ step rest, item.at? (step :: rest) = none

theorem bare_file (octets : List UInt8) (access : Access) : (Item.file octets access).Bare :=
  fun _ _ => rfl

theorem bare_directory (access : Access) : (Item.directory [] access).Bare :=
  fun _ _ => rfl

theorem put_cons (entries : List (String × Item)) (access : Access) (step : String)
    (rest : List String) (item : Item) : (Item.directory entries access).put (step :: rest) item =
      .directory (changeEntry step (changeAt (fun _ => some item) rest) entries) access := rfl

section Put

variable {entries : List (String × Item)} {access : Access} {step : String} {rest : List String}
  {item : Item}

/-- Putting an item in a directory at a place below it changes one entry. -/
theorem at?_put_cons {child : Item} (hchild : entryAt? entries step [] = some child)
    (below : List String) : ((Item.directory entries access).put (step :: rest) item).at?
      (step :: below) = (child.put rest item).at? below := by
  obtain ⟨made, hmade⟩ := Option.isSome_iff_exists.mp (isSome_changeAt item rest (some child))
  rw [put_cons, Item.at?, entryAt?_eq_bind, entryAt?_changeEntry_self (isSome_changeAt item rest),
    hchild, Item.put, hmade]
  rfl

/-- Putting an item in a directory leaves what stands below its other entries. -/
theorem at?_put_of_ne {other : String} (hne : other ≠ step) (below : List String) :
    ((Item.directory entries access).put (step :: rest) item).at? (other :: below) =
      (Item.directory entries access).at? (other :: below) := by
  rw [put_cons, Item.at?, Item.at?, entryAt?_changeEntry_of_ne hne]

/-- An entry with nothing in it is put in place of one like that. -/
theorem alikeBut_put_entry {name : String} (hitem : item.Bare)
    (hplace : ∀ found ∈ (Item.directory entries access).at? [name], found.Bare) :
    AlikeBut [name] (.directory entries access)
      ((Item.directory entries access).put [name] item) := by
  intro other hne
  rcases other with - | ⟨step, rest⟩
  · rw [put_cons]
    rfl
  · by_cases hstep : step = name
    · subst hstep
      rcases rest with - | ⟨next, rest⟩
      · exact absurd rfl hne
      · -- below the entry there is nothing before and nothing after
        have hbelow : ∀ root : Item, root.at? (step :: next :: rest) =
            (root.at? [step]).bind (·.at? (next :: rest)) := fun root => at?_append root [step] _
        rw [hbelow, hbelow, at?_put, Option.bind_some, hitem next rest]
        cases hentry : (Item.directory entries access).at? [step] with
        | none => rfl
        | some child => rw [Option.bind_some, hplace child hentry next rest]
    · rw [at?_put_of_ne hstep]

end Put

/-- What is put in a directory that is there changes the tree in its own place only. -/
theorem alikeBut_put {root item : Item} {above : List String} {name : String}
    {entries : List (String × Item)} {access : Access} (hitem : item.Bare)
    (habove : root.at? above = some (.directory entries access))
    (hplace : ∀ found ∈ root.at? (above ++ [name]), found.Bare) :
    AlikeBut (above ++ [name]) root (root.put (above ++ [name]) item) := by
  induction above generalizing root with
  | nil =>
    obtain rfl : root = .directory entries access := by
      rw [Item.at?] at habove
      exact Option.some.inj habove
    exact alikeBut_put_entry hitem hplace
  | cons step above ih =>
    cases root with
    | directory outer outerAccess =>
      have hdown : ∃ child, entryAt? outer step [] = some child ∧
          child.at? above = some (.directory entries access) := by
        rw [Item.at?, entryAt?_eq_bind] at habove
        exact Option.bind_eq_some_iff.mp habove
      obtain ⟨child, hchild, hinner⟩ := hdown
      have hat : ∀ below,
          (Item.directory outer outerAccess).at? (step :: below) = child.at? below := by
        intro below
        rw [Item.at?, entryAt?_eq_bind, hchild, Option.bind_some]
      have halike := ih hinner fun found h => hplace found (by rwa [List.cons_append, hat])
      intro other hne
      rcases other with - | ⟨next, rest⟩
      · rw [List.cons_append, put_cons]
        rfl
      · rw [List.cons_append]
        by_cases hnext : next = step
        · subst hnext
          rw [at?_put_cons hchild, hat]
          exact halike rest fun h => hne (by rw [h, List.cons_append])
        · rw [at?_put_of_ne hnext]
    | _ => cases habove

/-- What is put in the place of a tree that has nothing in it is all there is. -/
theorem alikeBut_put_nil {root item : Item} (hroot : root.Bare) (hitem : item.Bare) :
    AlikeBut [] root (root.put [] item) := by
  intro other hne
  rcases other with - | ⟨step, rest⟩
  · exact absurd rfl hne
  · have hput : root.put [] item = item := rfl
    rw [hput, hroot step rest, hitem step rest]

/-- What is there stands in a directory. -/
theorem exists_directory_above {root item : Item} {above : List String} {name : String}
    (hitem : root.at? (above ++ [name]) = some item) :
    ∃ entries access, root.at? above = some (.directory entries access) := by
  rw [at?_append, Option.bind_eq_some_iff] at hitem
  obtain ⟨found, hfound, hitem⟩ := hitem
  cases found with
  | directory entries access => exact ⟨entries, access, hfound⟩
  | _ => cases hitem

section Alike

variable {place other : List String} {root root' : Item}

/-- A file is in one of the trees exactly if it is in the other one. -/
theorem AlikeBut.file_iff (halike : AlikeBut place root root') (hne : other ≠ place)
    (octets : List UInt8) (access : Access) : root'.at? other = some (.file octets access) ↔
      root.at? other = some (.file octets access) := by
  have houtline : ∀ {item : Item}, item.outline = .file octets access ↔
      item = .file octets access := by
    intro item
    cases item <;> simp [Item.outline]
  have hfile : ∀ {found : Option Item}, found.map Item.outline = some (.file octets access) ↔
      found = some (.file octets access) := by
    intro found
    rw [Option.map_eq_some_iff]
    simp [houtline]
  exact hfile.symm.trans ((iff_of_eq (congrArg (· = _) (halike other hne))).trans hfile)

/-- A link is in one of the trees exactly if it is in the other one. -/
theorem AlikeBut.link_iff (halike : AlikeBut place root root') (hne : other ≠ place)
    (target : Path) : root'.at? other = some (.link target) ↔
      root.at? other = some (.link target) := by
  have houtline : ∀ {item : Item}, item.outline = .link target ↔ item = .link target := by
    intro item
    cases item <;> simp [Item.outline]
  have hlink : ∀ {found : Option Item}, found.map Item.outline = some (.link target) ↔
      found = some (.link target) := by
    intro found
    rw [Option.map_eq_some_iff]
    simp [houtline]
  exact hlink.symm.trans ((iff_of_eq (congrArg (· = _) (halike other hne))).trans hlink)

end Alike

end CodeSearch.Files

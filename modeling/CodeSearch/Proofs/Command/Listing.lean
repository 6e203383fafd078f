import Mathlib
import CodeSearch.Command.Output

/-!
What is printed of a graph of names.

Of each name there is a line for the name, one for each of the names it needs up to a limit, and one for
how many more there are (`Listing`). The three kinds of lines begin differently, so what is printed tells
which names were listed and what was said of each (`printed_injective`). The lines for needs are cut off
at the limit, where a limit below zero counts from the end, but what is left over is counted as if
nothing was printed and the limit owed to it. So what is said of a name adds up for every limit of zero or
more, and for no other one (`fairly_listed_iff`).
-/
set_option autoImplicit false

namespace CodeSearch.Command

open CodeSearch.Text (NameSet)

/-! ## Listings -/

/-- What is said of one name: needs that are shown, and how many more there are said to be. -/
structure Listing where
  name : String
  shown : List String
  more : Option Int
  deriving DecidableEq

/-- The line for a name. -/
def nameLine (name : String) : Output :=
  .line ("[bold]" ++ name ++ "[/bold]")

/-- The line for a need. -/
def needLine (need : String) : Output :=
  .line ("  ├─ " ++ need)

/-- The line for what is not shown. -/
def moreLine (count : Int) : Output :=
  .line ("  └─ ... and " ++ count.repr ++ " more")

/-- The line for a graph without any name to show. -/
def noneLine : Output :=
  .line "[yellow]No dependencies found.[/yellow]"

def Listing.lines (l : Listing) : List Output :=
  nameLine l.name :: (l.shown.map needLine ++ l.more.toList.map moreLine)

/-- Listings as they are printed. -/
def printed : List Listing → List Output
  | [] => [noneLine]
  | l :: rest => (l :: rest).flatMap Listing.lines

/-! ### Lines tell what they are about -/

/-- The third character of a line. -/
def third? : Output → Option Char
  | .line markup => markup.toList[2]?
  | _ => none

theorem third?_nameLine (name : String) : third? (nameLine name) = some 'o' := by
  simp [third?, nameLine, String.toList_append]

theorem third?_needLine (need : String) : third? (needLine need) = some '├' := by
  simp [third?, needLine, String.toList_append]

theorem third?_moreLine (count : Int) : third? (moreLine count) = some '└' := by
  simp [third?, moreLine, String.toList_append]

theorem third?_noneLine : third? noneLine = some 'e' := by
  decide

theorem nameLine_injective {a b : String} (h : nameLine a = nameLine b) : a = b := by
  simpa [nameLine, ← String.toList_inj, String.toList_append] using h

theorem needLine_injective {a b : String} (h : needLine a = needLine b) : a = b := by
  simpa [needLine, ← String.toList_inj, String.toList_append] using h

theorem moreLine_injective {a b : Int} (h : moreLine a = moreLine b) : a = b := by
  refine Int.repr_injective ?_
  simpa [moreLine, ← String.toList_inj, String.toList_append] using h

/-! ### What is printed tells the listings -/

/-- What comes after a listing: nothing, or the line for another name. -/
def AtName (rest : List Output) : Prop :=
  ∀ o ∈ rest.head?, third? o = some 'o'

theorem atName_flatMap (listings : List Listing) : AtName (listings.flatMap Listing.lines) := by
  cases listings with
  | nil => exact fun o ho => by simp at ho
  | cons l rest =>
    intro o ho
    rw [List.flatMap_cons, Listing.lines, List.cons_append, List.head?_cons, Option.mem_some] at ho
    rw [← ho]
    exact third?_nameLine l.name

/-- The lines for needs end where another line comes. -/
theorem needLines_inj {needs needs' : List String} {rest rest' : List Output}
    (hrest : ∀ o ∈ rest.head?, third? o ≠ some '├') (hrest' : ∀ o ∈ rest'.head?, third? o ≠ some '├')
    (h : needs.map needLine ++ rest = needs'.map needLine ++ rest') : needs = needs' ∧ rest = rest' := by
  induction needs generalizing needs' with
  | nil =>
    cases needs' with
    | nil => exact ⟨rfl, h⟩
    | cons need' needs' =>
      -- the line for a need stands where the rest begins, which has none there
      rw [List.map_nil, List.nil_append] at h
      exact absurd (third?_needLine need') (hrest _ (by rw [h]; rfl))
  | cons need needs ih =>
    cases needs' with
    | nil =>
      rw [List.map_nil, List.nil_append] at h
      exact absurd (third?_needLine need) (hrest' _ (by rw [← h]; rfl))
    | cons need' needs' =>
      rw [List.map_cons, List.map_cons, List.cons_append, List.cons_append, List.cons.injEq] at h
      obtain ⟨rfl, hrests⟩ := ih h.2
      exact ⟨by rw [needLine_injective h.1], hrests⟩

/-- There is at most one line for what is not shown. -/
theorem moreLines_inj {more more' : Option Int} {rest rest' : List Output} (hrest : AtName rest)
    (hrest' : AtName rest') (h : more.toList.map moreLine ++ rest = more'.toList.map moreLine ++ rest') :
    more = more' ∧ rest = rest' := by
  have hother (count : Int) {rest : List Output} (hrest : AtName rest)
      (hhead : rest.head? = some (moreLine count)) : False := by
    have hthird := hrest _ hhead
    rw [third?_moreLine] at hthird
    cases hthird
  cases more with
  | none =>
    cases more' with
    | none => exact ⟨rfl, h⟩
    | some count' => exact (hother count' hrest (by simpa using congrArg List.head? h)).elim
  | some count =>
    cases more' with
    | none => exact (hother count hrest' (by simpa using congrArg List.head? h.symm)).elim
    | some count' =>
      simp only [Option.toList_some, List.map_singleton, List.singleton_append, List.cons.injEq] at h
      exact ⟨by rw [moreLine_injective h.1], h.2⟩

/-- Where one listing ends and the next begins can be told from the lines. -/
theorem lines_append_inj {l l' : Listing} {rest rest' : List Output} (hrest : AtName rest)
    (hrest' : AtName rest') (h : l.lines ++ rest = l'.lines ++ rest') : l = l' ∧ rest = rest' := by
  have hmore (more : Option Int) {rest : List Output} (hrest : AtName rest) :
      ∀ o ∈ (more.toList.map moreLine ++ rest).head?, third? o ≠ some '├' := by
    intro o ho
    cases more with
    | none => rw [hrest o ho]; decide
    | some count =>
      rw [Option.toList_some, List.map_singleton, List.singleton_append, List.head?_cons,
        Option.mem_some] at ho
      rw [← ho, third?_moreLine]
      decide
  rw [Listing.lines, Listing.lines, List.cons_append, List.cons_append, List.append_assoc,
    List.append_assoc, List.cons.injEq] at h
  obtain ⟨hshown, hbehind⟩ := needLines_inj (hmore l.more hrest) (hmore l'.more hrest') h.2
  obtain ⟨hcount, hrests⟩ := moreLines_inj hrest hrest' hbehind
  have hname := nameLine_injective h.1
  cases l
  cases l'
  simp only at hname hshown hcount
  exact ⟨by rw [hname, hshown, hcount], hrests⟩

theorem flatMap_lines_injective {ls ls' : List Listing}
    (h : ls.flatMap Listing.lines = ls'.flatMap Listing.lines) : ls = ls' := by
  induction ls generalizing ls' with
  | nil =>
    cases ls' with
    | nil => rfl
    | cons l' ls' => simp [Listing.lines] at h
  | cons l ls ih =>
    cases ls' with
    | nil => simp [Listing.lines] at h
    | cons l' ls' =>
      rw [List.flatMap_cons, List.flatMap_cons] at h
      obtain ⟨rfl, hrest⟩ := lines_append_inj (atName_flatMap ls) (atName_flatMap ls') h
      rw [ih hrest]

theorem printed_eq_flatMap {ls : List Listing} (h : ls ≠ []) :
    printed ls = ls.flatMap Listing.lines := by
  cases ls with
  | nil => exact absurd rfl h
  | cons l rest => rfl

/-- The line that there is nothing to show is printed exactly if no name is listed. -/
theorem noneLine_mem_printed_iff {ls : List Listing} : noneLine ∈ printed ls ↔ ls = [] := by
  constructor
  · intro hmem
    by_contra hne
    rw [printed_eq_flatMap hne, List.mem_flatMap] at hmem
    obtain ⟨l, -, hl⟩ := hmem
    have hthird : third? noneLine ∈ [some 'o', some '├', some '└'] := by
      rw [Listing.lines, List.mem_cons, List.mem_append, List.mem_map, List.mem_map] at hl
      rcases hl with hl | ⟨need, -, hl⟩ | ⟨count, -, hl⟩
      · rw [hl, third?_nameLine]
        decide
      · rw [← hl, third?_needLine]
        decide
      · rw [← hl, third?_moreLine]
        decide
    rw [third?_noneLine] at hthird
    exact absurd hthird (by decide)
  · rintro rfl
    exact List.mem_singleton_self _

/-- What is printed tells which names were listed, and what was said of each. -/
theorem printed_injective {ls ls' : List Listing} (h : printed ls = printed ls') : ls = ls' := by
  have hnone : ls = [] ↔ ls' = [] := by
    rw [← noneLine_mem_printed_iff, ← noneLine_mem_printed_iff, h]
  by_cases hempty : ls = []
  · rw [hempty, hnone.mp hempty]
  · rw [printed_eq_flatMap hempty, printed_eq_flatMap (mt hnone.mpr hempty)] at h
    exact flatMap_lines_injective h

/-! ## The listings of a graph -/

section Graph

variable (graph : List (String × NameSet)) (symbol : Option String) (limit : Int)

/-- What is said of a name: the front part of its needs up to the limit, and a number unless the limit
is enough for all. -/
def listingOf (name : String) : Listing where
  name := name
  shown := Cut.upTo limit (targetsOf graph name)
  more :=
    if limit < (targetsOf graph name).length then some ((targetsOf graph name).length - limit) else none

/-- The names that are listed. -/
def listedNames : List String :=
  (shownNames graph symbol).filter fun name => !(targetsOf graph name).isEmpty

theorem targetsOutput_eq (name : String) :
    targetsOutput limit name (targetsOf graph name) = (listingOf graph limit name).lines := by
  rw [targetsOutput, Listing.lines, listingOf]
  dsimp only
  split <;> rfl

theorem graphOutput_eq_printed :
    graphOutput graph symbol limit = printed ((listedNames graph symbol).map (listingOf graph limit)) := by
  have houtput : graphOutput graph symbol limit =
      if (listedNames graph symbol).isEmpty then [noneLine]
      else (listedNames graph symbol).flatMap fun name =>
        targetsOutput limit name (targetsOf graph name) := rfl
  rw [houtput]
  split
  · rename_i hnone
    rw [List.isEmpty_iff.mp hnone]
    rfl
  · rename_i hsome
    have hne : (listedNames graph symbol).map (listingOf graph limit) ≠ [] := by
      simpa using hsome
    rw [printed_eq_flatMap hne, List.flatMap_map]
    exact congrArg (List.flatMap · _) (funext fun name => targetsOutput_eq graph limit name)

/-- A name that is asked for: the one that is named, if one is, and otherwise any. -/
def Asked (name : String) : Prop :=
  ∀ wanted, symbol = some wanted → wanted ≠ "" → name = wanted

/-- Names that are asked for and need something, each once and in order. -/
structure Covers (names : List String) : Prop where
  increasing : names.Pairwise (· < ·)
  mem_iff (name : String) : name ∈ names ↔ Asked symbol name ∧ targetsOf graph name ≠ []

/-- A name that needs something is a name of the graph. -/
theorem mem_of_targetsOf_ne_nil {name : String} (h : targetsOf graph name ≠ []) :
    name ∈ graph.map (·.1) := by
  rw [targetsOf] at h
  cases hfound : graph.lookup name with
  | none =>
    rw [hfound] at h
    exact absurd rfl h
  | some needed =>
    obtain ⟨front, behind, hgraph, -⟩ := List.lookup_eq_some_iff.mp hfound
    rw [hgraph]
    simp

theorem covers_listedNames : Covers graph symbol (listedNames graph symbol) := by
  rw [listedNames, shownNames]
  cases hwanted : symbol.filter fun name => !name.isEmpty with
  | some wanted =>
    rw [Option.filter_eq_some_iff] at hwanted
    obtain ⟨rfl, hsome⟩ := hwanted
    refine ⟨(List.pairwise_singleton _ _).sublist List.filter_sublist, fun name => ?_⟩
    have hne : wanted ≠ "" := by simpa using hsome
    have hasked : Asked (some wanted) name ↔ name = wanted := by
      constructor
      · intro h
        exact h wanted rfl hne
      · rintro rfl other hother -
        exact Option.some.inj hother
    rw [List.mem_filter, List.mem_singleton, hasked]
    simp
  | none =>
    rw [Option.filter_eq_none_iff] at hwanted
    refine ⟨(NameSet.ofList _).increasing.sublist List.filter_sublist, fun name => ?_⟩
    have hasked : Asked symbol name := by
      intro wanted hsymbol hne
      exact absurd (hwanted wanted hsymbol) (by simpa using hne)
    have hmem : name ∈ (NameSet.ofList (graph.map (·.1))).names ↔ name ∈ graph.map (·.1) :=
      NameSet.mem_ofList
    rw [List.mem_filter, hmem]
    constructor
    · rintro ⟨-, hneeds⟩
      exact ⟨hasked, by simpa using hneeds⟩
    · rintro ⟨-, hneeds⟩
      exact ⟨mem_of_targetsOf_ne_nil graph hneeds, by simpa using hneeds⟩

/-! ## What adds up -/

/-- A listing that is true: it shows a front part of what the name needs that is within the limit, and
together with what it says there is more, that is all. -/
structure Listing.Fair (l : Listing) : Prop where
  front : l.shown <+: targetsOf graph l.name
  few : (l.shown.length : Int) ≤ max 0 limit
  complete : (l.shown.length : Int) + l.more.getD 0 = (targetsOf graph l.name).length

/-- What a listing with a limit below zero has: needs up to that place from the end, and a number that
is too great. -/
structure Listing.Overstated (l : Listing) : Prop where
  front : l.shown <+: targetsOf graph l.name
  few : (l.shown.length : Int) = max 0 ((targetsOf graph l.name).length + limit)
  more : l.more = some ((targetsOf graph l.name).length - limit)

theorem fair_listingOf {limit : Int} (h : 0 ≤ limit) (name : String) :
    (listingOf graph limit name).Fair graph limit := by
  have hlength : (Cut.upTo limit (targetsOf graph name)).length =
      min limit.toNat (targetsOf graph name).length := by
    rw [Cut.upTo, Cut.place, if_neg (by omega), List.length_take]
    omega
  refine ⟨List.take_prefix _ _, ?_, ?_⟩
  · change ((Cut.upTo limit (targetsOf graph name)).length : Int) ≤ max 0 limit
    omega
  · change ((Cut.upTo limit (targetsOf graph name)).length : Int) + _ = _
    rw [listingOf]
    dsimp only
    split
    · rw [Option.getD_some]
      omega
    · rw [Option.getD_none]
      omega

theorem overstated_listingOf {limit : Int} (h : limit < 0) (name : String) :
    (listingOf graph limit name).Overstated graph limit := by
  refine ⟨List.take_prefix _ _, ?_, if_pos ?_⟩
  · change ((Cut.upTo limit (targetsOf graph name)).length : Int) =
      max 0 ((targetsOf graph name).length + limit)
    rw [Cut.upTo, Cut.place, if_pos h, List.length_take]
    omega
  · omega

theorem not_fair_of_overstated {limit : Int} (h : limit < 0) {l : Listing}
    (hl : l.Overstated graph limit) : ¬ l.Fair graph limit := by
  intro hfair
  have hcomplete := hfair.complete
  rw [hl.more, Option.getD_some] at hcomplete
  omega

/-- What is printed is one list of listings, for the names that are asked for and need something, each
once and in order; if there is none, and only then, it is that there is nothing. Every listing adds up
exactly if the limit is not below zero, or there is none. With a limit below zero, each one says that
there are more than there are. -/
theorem fairly_listed_iff :
    ∃ listings, (∀ others, graphOutput graph symbol limit = printed others ↔ others = listings) ∧
      Covers graph symbol (listings.map (·.name)) ∧
      (noneLine ∈ graphOutput graph symbol limit ↔ listings = []) ∧
      ((∀ l ∈ listings, l.Fair graph limit) ↔ 0 ≤ limit ∨ listings = []) ∧
      (limit < 0 → ∀ l ∈ listings, l.Overstated graph limit) := by
  have houtput := graphOutput_eq_printed graph symbol limit
  refine ⟨(listedNames graph symbol).map (listingOf graph limit), fun others => ?_, ?_, ?_, ?_, ?_⟩
  · rw [houtput]
    exact ⟨fun h => (printed_injective h).symm, fun h => by rw [h]⟩
  · have hnames : ((listedNames graph symbol).map (listingOf graph limit)).map (·.name) =
        listedNames graph symbol := by
      rw [List.map_map]
      exact List.map_id' _
    rw [hnames]
    exact covers_listedNames graph symbol
  · rw [houtput, noneLine_mem_printed_iff]
  · constructor
    · intro hfair
      -- below zero any listing there is would have to be overstated and fair
      by_contra hnot
      rw [not_or, Int.not_le] at hnot
      obtain ⟨l, hl⟩ := List.exists_mem_of_ne_nil _ hnot.2
      obtain ⟨name, -, rfl⟩ := List.mem_map.mp hl
      exact not_fair_of_overstated graph hnot.1 (overstated_listingOf graph hnot.1 name) (hfair _ hl)
    · rintro (h | hnone) l hl
      · obtain ⟨name, -, rfl⟩ := List.mem_map.mp hl
        exact fair_listingOf graph h name
      · rw [hnone] at hl
        exact absurd hl List.not_mem_nil
  · intro h l hl
    obtain ⟨name, -, rfl⟩ := List.mem_map.mp hl
    exact overstated_listingOf graph h name

end Graph

/-! ### Three needs -/

/-- A name that needs three others. -/
def threeNeeds : List (String × NameSet) := [("f", NameSet.ofList ["a", "b", "c"])]

/-- Two of the three are shown, and four more are said to be there. -/
theorem not_fairly_listed_belowZero :
    graphOutput threeNeeds none (-1) = printed [⟨"f", ["a", "b"], some 4⟩] ∧
      targetsOf threeNeeds "f" = ["a", "b", "c"] ∧
      ¬ ∃ listings, graphOutput threeNeeds none (-1) = printed listings ∧
        ∀ l ∈ listings, l.Fair threeNeeds (-1) := by
  have houtput : graphOutput threeNeeds none (-1) = printed [⟨"f", ["a", "b"], some 4⟩] := by
    rw [graphOutput_eq_printed]
    exact congrArg printed (by decide +kernel)
  refine ⟨houtput, by decide +kernel, ?_⟩
  rintro ⟨listings, hlistings, hfair⟩
  obtain rfl := printed_injective (houtput.symm.trans hlistings)
  have hfew := (hfair _ List.mem_cons_self).few
  exact absurd hfew (by decide)

theorem fairly_listed_iff_threeNeeds :
    (-1 : Int) < 0 ∧
      (∃ listings, graphOutput threeNeeds (some "f") (-1) = printed listings ∧ listings ≠ [] ∧
        ∀ l ∈ listings, l.Overstated threeNeeds (-1)) ∧
      ∃ listings, graphOutput threeNeeds none 2 = printed listings ∧ listings ≠ [] ∧
        ∀ l ∈ listings, l.Fair threeNeeds 2 := by
  obtain ⟨below, hbelow, hcovers, -, -, hoverstated⟩ := fairly_listed_iff threeNeeds (some "f") (-1)
  obtain ⟨listings, hprinted, hcovers', -, hfair, -⟩ := fairly_listed_iff threeNeeds none 2
  have hneeds : targetsOf threeNeeds "f" ≠ [] := by decide +kernel
  refine ⟨by decide, ⟨below, (hbelow below).mpr rfl, ?_, hoverstated (by decide)⟩,
    listings, (hprinted listings).mpr rfl, ?_, hfair.mpr (.inl (by decide))⟩
  · rintro rfl
    have hmem := (hcovers.mem_iff "f").mpr ⟨fun wanted h _ => Option.some.inj h, hneeds⟩
    exact absurd hmem List.not_mem_nil
  · rintro rfl
    have hmem := (hcovers'.mem_iff "f").mpr ⟨(fun wanted h _ => by cases h), hneeds⟩
    exact absurd hmem List.not_mem_nil

end CodeSearch.Command

import CodeSearch.Proofs.Chunk.Identity
import CodeSearch.Proofs.Tree.Naming

/-!
How the chunks of one file are numbered.

The first chunk with a base has the base as its id, the second one, third one and so on the base with that
number behind it (`getElem?_filter_base`). Line numbers have no colon in them, so in one file a base is
known to be cut into line and name at its first colon behind the path. A base that looks like a numbered one
is therefore that of a name which looks numbered, and if no name of the file does, no two ids of it are the
same (`numbered_in_order`).
-/
set_option autoImplicit false

namespace CodeSearch.Chunk

open CodeSearch.Tree (Parsed Node leaf)

variable {radius : Int} {file : Parsed} {c : Chunk}

/-! ## Numbers -/

/-- Among bases that are counted, a base has the numbers from the next one on, one after the other. -/
theorem filter_counted (earlier bases : List String) (base : String) :
    (counted earlier bases).filter (fun m => m.1 = base) =
      (List.range' (earlier.count base + 1) (bases.count base)).map fun k => (base, k) := by
  induction bases generalizing earlier with
  | nil => rfl
  | cons first rest ih =>
    rw [counted]
    by_cases hfirst : first = base
    · subst hfirst
      rw [List.filter_cons_of_pos (by simp), ih, List.count_cons_self, List.count_cons_self,
        List.range'_succ, List.map_cons]
    · rw [List.filter_cons_of_neg (by simpa using hfirst), ih, List.count_cons_of_ne hfirst,
        List.count_cons_of_ne hfirst]

/-- The chunks with a base, in the order of their file, have the ids that the base gives to its numbers. -/
theorem getElem?_filter_base {base : String} {k : Nat}
    (hc : ((ofParsed radius file).filter fun d => d.base = base)[k]? = some c) :
    c.id = idAt base (k + 1) := by
  obtain ⟨bases, htags⟩ := exists_map_tag_ofParsed radius file
  have hsame : ((ofParsed radius file).filter fun d => d.base = base).map tag =
      ((List.range' 1 (bases.count base)).map fun j => (base, j)).map
        fun m => ⟨file.path, m.1, idAt m.1 m.2⟩ := by
    have hcounted := filter_counted [] bases base
    rw [List.count_nil, Nat.zero_add] at hcounted
    have hfilter := congrArg (List.filter fun t : Tag => t.base = base) htags
    rw [tagsOf, List.filter_map, List.filter_map] at hfilter
    rw [← hcounted]
    exact hfilter
  have hkth := congrArg (fun tags : List Tag => tags[k]?) hsame
  rw [List.getElem?_map, hc, List.map_map, List.getElem?_map] at hkth
  obtain ⟨j, hj, htag⟩ := Option.map_eq_some_iff.mp hkth.symm
  obtain ⟨hlt, rfl⟩ := List.getElem?_eq_some_iff.mp hj
  rw [List.getElem_range', Nat.one_mul, Nat.add_comm] at htag
  exact (congrArg Tag.id htag).symm

/-! ## Names that look numbered -/

theorem toList_baseId (path : String) (line : Nat) (name : String) :
    (baseId path line name).toList =
      path.toList ++ ':' :: (Nat.toDigits 10 line ++ ':' :: name.toList) := by
  show (path ++ ":" ++ toString line ++ ":" ++ name).toList = _
  simp only [String.toList_append, Nat.toString_eq_repr, Nat.toList_repr]
  simp

/-- Whether a name ends in a sharp and decimal digits. -/
def EndsNumbered (name : String) : Prop :=
  ∃ stem digits : List Char, name.toList = stem ++ '#' :: digits ∧ digits ≠ [] ∧
    ∀ d ∈ digits, d.isDigit = true

theorem not_endsNumbered {name : String} (h : '#' ∉ name.toList) : ¬ EndsNumbered name := by
  rintro ⟨stem, digits, heq, -⟩
  exact h (by rw [heq]; simp)

/-- In one file a base that is another one with a number behind it is that of a name which ends so. -/
theorem endsNumbered_of_baseId {path name name' : String} {line line' k : Nat} (hk : 2 ≤ k)
    (h : baseId path line' name' = idAt (baseId path line name) k) : EndsNumbered name' := by
  have hlist := congrArg String.toList h
  rw [toList_idAt hk, toList_baseId, toList_baseId, List.append_assoc, List.cons_append,
    List.append_assoc, List.cons_append] at hlist
  -- behind the path comes a colon, then the line up to the next one
  have hbehind := (List.cons.inj (List.append_cancel_left hlist)).2
  obtain ⟨-, hname⟩ :=
    eq_of_append_cons (not_mem_toDigits rfl line') (not_mem_toDigits rfl line) hbehind
  refine ⟨name.toList, Nat.toDigits 10 k, hname, Nat.toDigits_ne_nil, ?_⟩
  intro d hd
  exact Nat.isDigit_of_mem_toDigits (by decide) (by decide) hd

theorem path_of_mem_ofParsed (hc : c ∈ ofParsed radius file) : c.path = file.path := by
  obtain ⟨bases, htags⟩ := exists_map_tag_ofParsed radius file
  have hmem : tag c ∈ tagsOf file.path bases := htags ▸ List.mem_map_of_mem hc
  obtain ⟨m, -, htag⟩ := List.mem_map.mp hmem
  exact (congrArg Tag.path htag).symm

/-- In a file without names that look numbered nothing clashes. -/
theorem not_clash_of_names (hnames : ∀ c ∈ ofParsed radius file, ¬ EndsNumbered c.name) :
    ¬ Clash (ofParsed radius file) := by
  rintro (⟨c, hc, d, hd, hpath, -⟩ | ⟨c, hc, d, hd, k, hk, -, hbase⟩)
  · exact hpath ((path_of_mem_ofParsed hc).trans (path_of_mem_ofParsed hd).symm)
  · have hnumbered : d.base = idAt c.base k := by
      rw [hbase, idAt, if_neg (by omega)]
    rw [base, base, path_of_mem_ofParsed hc, path_of_mem_ofParsed hd] at hnumbered
    exact hnames d hd (endsNumbered_of_baseId hk hnumbered)

/-- Of the chunks of a file with the same base, the first one has the base as its id and every other one the
base with its number behind it; and if no name in the file ends in a sharp and digits, all ids of the file
are different. -/
theorem numbered_in_order (radius : Int) (file : Parsed) :
    (∀ (base : String) (k : Nat) (c : Chunk),
        ((ofParsed radius file).filter fun d => baseId d.path d.line.toNat d.name = base)[k]? = some c →
        c.id = if k = 0 then base else s!"{base}#{k + 1}") ∧
      ((∀ c ∈ ofParsed radius file, ¬ EndsNumbered c.name) →
        ((ofParsed radius file).map (·.id)).Nodup) := by
  constructor
  · intro base k c hc
    rw [getElem?_filter_base hc, idAt]
    by_cases hk : k = 0
    · rw [if_pos hk, if_pos (by omega)]
    · rw [if_neg hk, if_neg (by omega)]
  · intro hnames
    obtain ⟨bases, htags⟩ := exists_map_tag_ofParsed radius file
    have hfile : (ofParsed radius file).map tag = tagsIn [(file.path, bases)] := by
      rw [htags, tagsIn, List.flatMap_singleton]
    apply nodup_ids_of_not_clash _ hfile (not_clash_of_names hnames)
    exact List.nodup_singleton _

/-- A variable that is bound to a function, which takes its name from it. -/
def doubled : Parsed where
  path := "d.js"
  language := .javascript
  source := .ofText "const double = (n) => n * 2;".toList
  root := ⟨"program", 0, 28, true, false, false, "", [
    ⟨"lexical_declaration", 0, 28, true, false, false, "", [
      ⟨"variable_declarator", 6, 27, true, false, false, "", [
        leaf "identifier" 6 12 true "name",
        ⟨"arrow_function", 15, 27, true, false, false, "value", [
          ⟨"formal_parameters", 15, 18, true, false, false, "parameters",
            [leaf "identifier" 16 17 true ""]⟩,
          ⟨"binary_expression", 22, 27, true, false, false, "body",
            [leaf "identifier" 22 23 true "left", leaf "number" 26 27 true "right"]⟩]⟩]⟩]⟩]⟩

/-- The function is the second one with the base of the variable. -/
theorem numbered_in_order_doubled :
    ∃ c d, ofParsed 0 doubled = [c, d] ∧ c.id = "d.js:1:double" ∧ d.id = "d.js:1:double#2" ∧
      (∀ e ∈ ofParsed 0 doubled, ¬ EndsNumbered e.name) ∧
        ((ofParsed 0 doubled).map (·.id)).Nodup := by
  have hbases : (ofParsed 0 doubled).map base = ["d.js:1:double", "d.js:1:double"] := by
    decide +kernel
  have hplain : ∀ e ∈ ofParsed 0 doubled, '#' ∉ e.name.toList := by decide +kernel
  have hnames : ∀ e ∈ ofParsed 0 doubled, ¬ EndsNumbered e.name :=
    fun e he => not_endsNumbered (hplain e he)
  obtain ⟨c, rest, hchunks, hc, hrest⟩ := List.map_eq_cons_iff.mp hbases
  obtain ⟨d, rest, rfl, hd, hnil⟩ := List.map_eq_cons_iff.mp hrest
  obtain rfl := List.map_eq_nil_iff.mp hnil
  obtain ⟨hids, hnodup⟩ := numbered_in_order 0 doubled
  have hsame : (ofParsed 0 doubled).filter
      (fun e => baseId e.path e.line.toNat e.name = "d.js:1:double") = [c, d] := by
    rw [hchunks, List.filter_eq_self]
    intro e he
    rcases List.mem_pair.mp he with rfl | rfl
    · exact decide_eq_true hc
    · exact decide_eq_true hd
  refine ⟨c, d, hchunks, ?_, ?_, hnames, hnodup hnames⟩
  · exact hids "d.js:1:double" 0 c (by rw [hsame]; rfl)
  · exact hids "d.js:1:double" 1 d (by rw [hsame]; rfl)

end CodeSearch.Chunk

import Mathlib.Tactic.SplitIfs
import CodeSearch.Json.Parser
import CodeSearch.Json.Printer

/-!
A list of texts is read back from its JSON text.

A text is printed character by character, and read unit by unit. So the argument has two halves that
meet at the UTF-16 units of a character (`unitsOf`): whatever form the printer chooses for a
character, the reader takes its units off the front of the text (`readUnits_escapedChar`), and
the units of some characters are joined to these characters again (`joinUnits_flatMap`). A character
outside the basic plane has two units, which are joined because both are surrogates; no character
is a surrogate itself, so nothing else is joined.
-/
set_option autoImplicit false

namespace CodeSearch.Json

/-- The UTF-16 units of a character. -/
def unitsOf (c : Char) : List Nat :=
  if c.toNat < 0x10000 then [c.toNat]
  else [0xD800 + (c.toNat - 0x10000) / 0x400, 0xDC00 + (c.toNat - 0x10000) % 0x400]

/-! ## Reading the units of a character -/

theorem hexDigit?_digitChar {d : Nat} (h : d < 16) : hexDigit? (Nat.digitChar d) = some d := by
  have hall : ∀ e : Fin 16, hexDigit? (Nat.digitChar e) = some e.val := by decide
  exact hall ⟨d, h⟩

/-- A unit has four digits to the base sixteen. -/
theorem hex_four {n : Nat} (h : n < 0x10000) :
    Text.hex 4 n = [Nat.digitChar (n / 16 / 16 / 16), Nat.digitChar (n / 16 / 16 % 16),
      Nat.digitChar (n / 16 % 16), Nat.digitChar (n % 16)] := by
  have htop : n / 16 / 16 / 16 < 16 := by omega
  have hzero : Nat.digitChar 0 = '0' := rfl
  unfold Text.hex
  dsimp only
  -- a digit that is missing in front is a zero, and the quotient there is none
  by_cases h₁ : n < 16
  · rw [Nat.toDigits_of_lt_base h₁]
    simp [Nat.div_eq_of_lt h₁, Nat.mod_eq_of_lt h₁, hzero, List.replicate]
  · rw [Nat.toDigits_of_base_le (by decide) (by omega)]
    by_cases h₂ : n / 16 < 16
    · rw [Nat.toDigits_of_lt_base h₂]
      simp [Nat.div_eq_of_lt h₂, Nat.mod_eq_of_lt h₂, hzero, List.replicate]
    · rw [Nat.toDigits_of_base_le (by decide) (by omega)]
      by_cases h₃ : n / 16 / 16 < 16
      · rw [Nat.toDigits_of_lt_base h₃]
        simp [Nat.div_eq_of_lt h₃, Nat.mod_eq_of_lt h₃, hzero]
      · rw [Nat.toDigits_of_base_le (by decide) (by omega), Nat.toDigits_of_lt_base htop]
        simp

variable (read : List Nat) (rest : List Char)

theorem readUnits_unitEscape {n : Nat} (h : n < 0x10000) :
    readUnits read (unitEscape n ++ rest) = readUnits (n :: read) rest := by
  have htop : n / 16 / 16 / 16 < 16 := by omega
  have hvalue : ((n / 16 / 16 / 16 * 16 + n / 16 / 16 % 16) * 16 + n / 16 % 16) * 16 + n % 16 = n := by
    omega
  unfold unitEscape
  rw [hex_four h]
  simp only [List.cons_append, List.nil_append]
  rw [readUnits, hexDigit?_digitChar htop, hexDigit?_digitChar (Nat.mod_lt _ (by decide)),
    hexDigit?_digitChar (Nat.mod_lt _ (by decide)), hexDigit?_digitChar (Nat.mod_lt _ (by decide))]
  dsimp only
  rw [hvalue]

/-- A letter behind a backslash is the character that it stands for. -/
theorem readUnits_simpleEscape {c : Char} {n : Nat} (hmeans : simpleEscape? c = some n) :
    readUnits read ('\\' :: c :: rest) = readUnits (n :: read) rest := by
  have hne : c ≠ 'u' := by
    rintro rfl
    simp [simpleEscape?] at hmeans
  rw [readUnits.eq_4 read c rest fun _ _ _ _ _ hu _ => hne hu, hmeans]

theorem readUnits_plain {c : Char} (hquote : c ≠ '"') (hslash : c ≠ '\\') (hseen : 0x20 ≤ c.toNat) :
    readUnits read (c :: rest) = readUnits (c.toNat :: read) rest := by
  have hgood : ¬ (c.toNat < 0x20 ∨ c = '\\') := by
    rintro (hlow | heq)
    · omega
    · exact hslash heq
  rw [readUnits.eq_5 read c rest hquote (fun _ _ _ _ _ heq _ => hslash heq)
    (fun _ _ heq _ => hslash heq), if_neg hgood]

theorem toNat_lt (c : Char) : c.toNat < 0x110000 := by
  have hvalid : c.toNat < 0xD800 ∨ 0xDFFF < c.toNat ∧ c.toNat < 0x110000 := c.valid
  omega

/-- Whatever form the printer chooses for a character, the reader takes its units. -/
theorem readUnits_escapedChar (c : Char) :
    readUnits read (escapedChar c ++ rest) = readUnits ((unitsOf c).reverse ++ read) rest := by
  have hunits : c.toNat < 0x10000 → (unitsOf c).reverse = [c.toNat] := by
    intro hlow
    rw [unitsOf, if_pos hlow, List.reverse_singleton]
  have hletter : ∀ {letter : Char} {n : Nat}, simpleEscape? letter = some n → c.toNat = n →
      readUnits read (['\\', letter] ++ rest) = readUnits ((unitsOf c).reverse ++ read) rest := by
    intro letter n hmeans hn
    have hlow : c.toNat < 0x10000 := by
      rw [hn]
      unfold simpleEscape? at hmeans
      split at hmeans <;> simp_all <;> omega
    rw [hunits hlow, hn]
    exact readUnits_simpleEscape read rest hmeans
  -- one case for every form that a character can have
  unfold escapedChar
  dsimp only
  split_ifs with hquoted hnewline hreturn htab hback hfeed hseen hbasic
  · rcases hquoted with rfl | rfl
    · exact hletter rfl rfl
    · exact hletter rfl rfl
  · exact hletter rfl (by rw [hnewline]; rfl)
  · exact hletter rfl (by rw [hreturn]; rfl)
  · exact hletter rfl (by rw [htab]; rfl)
  · exact hletter rfl hback
  · exact hletter rfl hfeed
  · rw [hunits (by omega)]
    exact readUnits_plain read rest (fun h => hquoted (Or.inl h)) (fun h => hquoted (Or.inr h))
      hseen.1
  · rw [hunits hbasic]
    exact readUnits_unitEscape read rest hbasic
  · have hlast : c.toNat < 0x110000 := toNat_lt c
    rw [unitsOf, if_neg hbasic, List.append_assoc, readUnits_unitEscape _ _ (by omega),
      readUnits_unitEscape _ _ (by omega)]
    rfl

theorem readUnits_flatMap (cs : List Char) :
    readUnits read (cs.flatMap escapedChar ++ '"' :: rest) =
      some (read.reverse ++ cs.flatMap unitsOf, rest) := by
  induction cs generalizing read with
  | nil =>
    rw [List.flatMap_nil, List.flatMap_nil, List.append_nil, List.nil_append, readUnits]
  | cons c cs ih =>
    rw [List.flatMap_cons, List.append_assoc, readUnits_escapedChar, ih, List.flatMap_cons,
      List.reverse_append, List.reverse_reverse, List.append_assoc]

/-! ## Joining units -/

theorem joinUnits_cons {n : Nat} (h : ¬ (0xD800 ≤ n ∧ n < 0xE000)) (units : List Nat) :
    joinUnits (n :: units) = Char.ofNat n :: joinUnits units := by
  cases units with
  | nil => simp only [joinUnits, if_neg h]
  | cons low units =>
    have hpair : ¬ (0xD800 ≤ n ∧ n < 0xDC00 ∧ 0xDC00 ≤ low ∧ low < 0xE000) := by omega
    rw [joinUnits, if_neg hpair, if_neg h]

theorem joinUnits_unitsOf (c : Char) (units : List Nat) :
    joinUnits (unitsOf c ++ units) = c :: joinUnits units := by
  have hvalid : c.toNat < 0xD800 ∨ 0xDFFF < c.toNat ∧ c.toNat < 0x110000 := c.valid
  unfold unitsOf
  by_cases hbasic : c.toNat < 0x10000
  · rw [if_pos hbasic, List.singleton_append, joinUnits_cons (by omega), Char.ofNat_toNat]
  · have hpair : 0xD800 ≤ 0xD800 + (c.toNat - 0x10000) / 0x400 ∧
        0xD800 + (c.toNat - 0x10000) / 0x400 < 0xDC00 ∧
        0xDC00 ≤ 0xDC00 + (c.toNat - 0x10000) % 0x400 ∧
        0xDC00 + (c.toNat - 0x10000) % 0x400 < 0xE000 := by omega
    have hvalue : 0x10000 + (0xD800 + (c.toNat - 0x10000) / 0x400 - 0xD800) * 0x400 +
        (0xDC00 + (c.toNat - 0x10000) % 0x400 - 0xDC00) = c.toNat := by omega
    rw [if_neg hbasic, List.cons_append, List.singleton_append, joinUnits, if_pos hpair, hvalue,
      Char.ofNat_toNat]

theorem joinUnits_flatMap (cs : List Char) : joinUnits (cs.flatMap unitsOf) = cs := by
  induction cs with
  | nil => rfl
  | cons c cs ih => rw [List.flatMap_cons, joinUnits_unitsOf, ih]

/-! ## Texts and lists of texts -/

theorem readString_flatMap (s : String) :
    readString (s.toList.flatMap escapedChar ++ '"' :: rest) = some (s, rest) := by
  unfold readString
  rw [readUnits_flatMap, List.reverse_nil, List.nil_append, Option.map_some, joinUnits_flatMap,
    String.ofList_toList]

theorem printString_append (s : String) :
    printString s ++ rest = '"' :: (s.toList.flatMap escapedChar ++ '"' :: rest) := by
  simp [printString]

theorem readValue_text (fuel : Nat) (s : String) :
    readValue (fuel + 1) (printString s ++ rest) = some (.text s, rest) := by
  rw [printString_append, readValue, readString_flatMap]
  rfl

/-- Items begin with the quote of the first one. -/
theorem exists_printItems (name : String) (names : List String) :
    ∃ tail, printItems ((name :: names).map .text) = '"' :: tail := by
  cases names with
  | nil => exact ⟨_, rfl⟩
  | cons next names => exact ⟨_, rfl⟩

/-- A list that is not empty is read item by item, with one unit of fuel for each. -/
theorem readItems_texts (name : String) (names : List String) {fuel : Nat}
    (h : names.length < fuel) :
    readItems (fuel + 1) (printItems ((name :: names).map .text) ++ rest) =
      some ((name :: names).map .text, rest) := by
  obtain ⟨fuel, rfl⟩ : ∃ m, fuel = m + 1 := ⟨fuel - 1, by omega⟩
  induction names generalizing name fuel with
  | nil =>
    rw [List.map_cons, List.map_nil, printItems, print, List.append_assoc, readItems,
      readValue_text]
    rfl
  | cons next names ih =>
    have hleft : names.length < fuel := by simpa using h
    obtain ⟨fuel, rfl⟩ : ∃ m, fuel = m + 1 := ⟨fuel - 1, by omega⟩
    -- between two items stand a comma and a space
    have hprinted : printItems ((name :: next :: names).map .text) ++ rest =
        printString name ++ (',' :: ' ' :: (printItems ((next :: names).map .text) ++ rest)) := by
      simp [printItems, print]
    have hskip : skip (' ' :: (printItems ((next :: names).map .text) ++ rest)) =
        printItems ((next :: names).map .text) ++ rest := by
      obtain ⟨tail, htail⟩ := exists_printItems next names
      rw [htail]
      rfl
    have hcomma : ∀ cs, skip (',' :: cs) = ',' :: cs := fun _ => rfl
    rw [hprinted, readItems, readValue_text]
    simp only [hcomma]
    rw [hskip, ih next fuel hleft]
    rfl

theorem readValue_texts (names : List String) {fuel : Nat} (h : names.length < fuel) :
    readValue (fuel + 1) ('[' :: (printItems (names.map .text) ++ rest)) =
      some (.list (names.map .text), rest) := by
  cases names with
  | nil => rfl
  | cons name names =>
    obtain ⟨fuel, rfl⟩ : ∃ m, fuel = m + 1 := ⟨fuel - 1, by omega⟩
    have hread := readItems_texts rest name names (Nat.lt_of_succ_lt_succ h)
    obtain ⟨tail, htail⟩ := exists_printItems name names
    have hquote : ∀ cs, skip ('"' :: cs) = '"' :: cs := fun _ => rfl
    rw [htail] at hread ⊢
    rw [List.cons_append] at hread ⊢
    simp only [readValue, hquote]
    -- what follows the bracket is a quote, so the list is not the empty one
    show (readItems (fuel + 1) ('"' :: (tail ++ rest))).map _ = _
    rw [hread]
    rfl

/-- Every item takes up some of the text, so that its length is fuel enough. -/
theorem length_lt_printItems (names : List String) :
    names.length < (printItems (names.map .text)).length := by
  induction names with
  | nil => simp [printItems]
  | cons name names ih =>
    cases names with
    | nil => simp [printItems, print, printString]
    | cons next names =>
      simp only [List.map_cons, printItems, List.length_append, List.length_cons] at ih ⊢
      omega

/-- The JSON text of a list of texts stands for that list. -/
theorem parse_render_texts (names : List String) :
    parse (render (.list (names.map .text))) = some (.list (names.map .text)) := by
  have hread := readValue_texts [] names (Nat.lt_succ_of_lt (length_lt_printItems names))
  have hbracket : ∀ cs, skip ('[' :: cs) = '[' :: cs := fun _ => rfl
  rw [List.append_nil] at hread
  unfold parse render
  rw [String.toList_ofList, print]
  simp only [hbracket, List.length_cons]
  rw [hread]
  rfl

/-- Quotes, backslashes, controls and characters of two units are no exception. -/
example : render (.list [.text "a\"\\\n", .text "😀"]) = "[\"a\\\"\\\\\\n\", \"\\ud83d\\ude00\"]" := by
  decide

end CodeSearch.Json

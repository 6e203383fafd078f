import Mathlib
import CodeSearch.Proofs.Embedding.Contract

/-!
Counting words does not depend on their order.

The words of a text are what a reader finds who goes through it from the left (`identifiers`): where an
identifier can begin, it goes on as far as it can, and the next one is looked for behind it. The scan
that counts the words goes from the right and finds the same (`tokens_eq_identifiers`). Each word is one
vote up or down, and two votes can be cast in either order (`countVote_comm`). So texts with the same
words, each as often in the one as in the other, have the same counts (`countsOf_perm`). A vote moves one
count by one, which takes the sum of the sizes of all counts one up or one down (`size_countVote`): it
never grows beyond the number of votes, and keeps its parity.

What is said of a text holds for every dimension of one or more that a list can have for its length; the
room for the counts is made before the text is looked at, and for a greater dimension there is none.
-/
set_option autoImplicit false

namespace CodeSearch.Embedding

/-! ## Words -/

/-- The identifiers in a text, one after the other from the left, each as long as it can be. -/
def identifiers : List Char → List (List Char)
  | [] => []
  | c :: rest =>
    if isTokenStart c then
      (c :: rest.takeWhile isTokenPart) :: identifiers (rest.dropWhile isTokenPart)
    else identifiers rest
termination_by cs => cs.length
decreasing_by
  · exact Nat.lt_succ_of_le (List.dropWhile_sublist _).length_le
  · exact Nat.lt_succ_self _

theorem identifiers_nil : identifiers [] = [] := by
  rw [identifiers]

theorem identifiers_cons_of_start {c : Char} (h : isTokenStart c = true) (rest : List Char) :
    identifiers (c :: rest) =
      (c :: rest.takeWhile isTokenPart) :: identifiers (rest.dropWhile isTokenPart) := by
  rw [identifiers, if_pos h]

theorem identifiers_cons_of_not_start {c : Char} (h : isTokenStart c = false) (rest : List Char) :
    identifiers (c :: rest) = identifiers rest := by
  rw [identifiers, if_neg (by rw [h]; exact Bool.false_ne_true)]

theorem isTokenPart_of_start {c : Char} (h : isTokenStart c = true) : isTokenPart c = true := by
  rw [isTokenPart, h, Bool.true_or]

/-- A run of characters that could go on an identifier, with the identifiers behind it: the run holds
one from the first character on that can begin it. -/
def withRun (run : List Char) (behind : List (List Char)) : List (List Char) :=
  match run.dropWhile fun c => !isTokenStart c with
  | [] => behind
  | token => token :: behind

/-- The identifiers of a text are that of the run in front, if it holds one, and those behind the run. -/
theorem identifiers_eq_withRun (cs : List Char) :
    identifiers cs = withRun (cs.takeWhile isTokenPart) (identifiers (cs.dropWhile isTokenPart)) := by
  induction cs with
  | nil => rfl
  | cons c rest ih =>
    by_cases hpart : isTokenPart c = true
    · rw [List.takeWhile_cons_of_pos hpart, List.dropWhile_cons_of_pos hpart]
      -- a digit in front of the first letter is dropped by both
      by_cases hstart : isTokenStart c = true
      · rw [identifiers_cons_of_start hstart, withRun,
          List.dropWhile_cons_of_neg (by rw [hstart]; exact Bool.false_ne_true)]
      · have hno : isTokenStart c = false := Bool.eq_false_iff.mpr hstart
        rw [identifiers_cons_of_not_start hno, ih, withRun, withRun,
          List.dropWhile_cons_of_pos (by rw [hno]; rfl)]
    · rw [List.takeWhile_cons_of_neg hpart, List.dropWhile_cons_of_neg hpart]
      rfl

theorem tokenStep_eq (c : Char) (run : List Char) (behind : List (List Char)) :
    tokenStep c (run, behind) =
      if isTokenPart c then (c :: run, behind) else ([], withRun run behind) := by
  rw [tokenStep, withRun]
  split
  · rfl
  · cases run.dropWhile fun c => !isTokenStart c <;> rfl

/-- The scan from the right has the run in front in its hand, and all identifiers behind it. -/
theorem foldr_tokenStep (cs : List Char) :
    cs.foldr tokenStep ([], []) =
      (cs.takeWhile isTokenPart, identifiers (cs.dropWhile isTokenPart)) := by
  induction cs with
  | nil => rw [List.foldr_nil, List.takeWhile_nil, List.dropWhile_nil, identifiers_nil]
  | cons c rest ih =>
    rw [List.foldr_cons, ih, tokenStep_eq]
    by_cases hpart : isTokenPart c = true
    · rw [List.takeWhile_cons_of_pos hpart, List.dropWhile_cons_of_pos hpart, if_pos hpart]
    · have hno : isTokenStart c = false :=
        Bool.eq_false_iff.mpr fun hstart => hpart (isTokenPart_of_start hstart)
      rw [List.takeWhile_cons_of_neg hpart, List.dropWhile_cons_of_neg hpart,
        identifiers_cons_of_not_start hno, identifiers_eq_withRun rest, if_neg hpart]

theorem tokens_eq_identifiers (cs : List Char) : tokens cs = identifiers cs := by
  rw [identifiers_eq_withRun, tokens, foldr_tokenStep]
  rfl

theorem wordsOf_eq_identifiers (text : String) :
    wordsOf text = identifiers (Text.lower text).toList := by
  rw [wordsOf, tokens_eq_identifiers, Text.lower, String.toList_ofList]

/-! ## Votes -/

/-- Two votes can be cast in either order. -/
theorem countVote_comm (counts : List Int) (v w : Vote) :
    countVote (countVote counts v) w = countVote (countVote counts w) v := by
  refine List.ext_getElem? fun i => ?_
  simp only [countVote, List.length_modify, List.getElem?_modify]
  cases counts[i]? with
  | none => rfl
  | some n =>
    simp only [Option.map_eq_map, Option.map_some, Option.some.injEq]
    split <;> split <;> omega

/-- The counts are the same in whatever order the words come. -/
theorem countsOf_perm (vote : List Char → Vote) (dimension : Nat) {found found' : List (List Char)}
    (h : found.Perm found') : countsOf vote dimension found = countsOf vote dimension found' :=
  (h.map vote).foldl_eq' (fun v _ w _ counts => countVote_comm counts v w) _

/-- The sum of the sizes of some counts. -/
def size (counts : List Int) : Nat :=
  (counts.map Int.natAbs).sum

/-- When one count goes one up or down, the size does too. -/
theorem size_modify {counts : List Int} {i : Nat} {d : Int} (hi : i < counts.length)
    (hd : d.natAbs = 1) :
    size (counts.modify i (· + d)) = size counts + 1 ∨
      size (counts.modify i (· + d)) + 1 = size counts := by
  induction counts generalizing i with
  | nil => exact absurd hi (Nat.not_lt_zero i)
  | cons n rest ih =>
    simp only [size] at ih ⊢
    cases i with
    | zero =>
      rw [List.modify_zero_cons, List.map_cons, List.map_cons, List.sum_cons, List.sum_cons]
      omega
    | succ i =>
      have hrest := ih (Nat.lt_of_succ_lt_succ hi)
      rw [List.modify_succ_cons, List.map_cons, List.map_cons, List.sum_cons, List.sum_cons]
      omega

theorem size_countVote {counts : List Int} (h : 0 < counts.length) (v : Vote) :
    size (countVote counts v) = size counts + 1 ∨ size (countVote counts v) + 1 = size counts := by
  refine size_modify (Nat.mod_lt _ h) ?_
  split <;> rfl

/-- Many votes take the size no further than their number, and to the parity that goes with it. -/
theorem size_foldl_countVote (votes : List Vote) {counts : List Int} (h : 0 < counts.length) :
    size (votes.foldl countVote counts) ≤ size counts + votes.length ∧
      size (votes.foldl countVote counts) % 2 = (size counts + votes.length) % 2 := by
  induction votes generalizing counts with
  | nil => exact ⟨Nat.le_refl _, rfl⟩
  | cons v votes ih =>
    have hrest := ih (show 0 < (countVote counts v).length by rwa [length_countVote])
    have hstep := size_countVote h v
    rw [List.foldl_cons, List.length_cons]
    omega

/-- What is known of the counts of some words without looking at one. -/
structure Balanced (dimension : Int) (words : List (List Char)) (counts : List Int) : Prop where
  length : (counts.length : Int) = dimension
  size_le : size counts ≤ words.length
  parity : size counts % 2 = words.length % 2

theorem balanced_countsOf (vote : List Char → Vote) {dimension : Int} (h : 1 ≤ dimension)
    (words : List (List Char)) :
    Balanced dimension words (countsOf vote dimension.toNat words) := by
  have hzero : size (List.replicate dimension.toNat 0) = 0 := by
    rw [size, List.map_replicate, List.sum_replicate_nat]
    rfl
  have hcast := size_foldl_countVote (words.map vote)
    (show 0 < (List.replicate dimension.toNat (0 : Int)).length by rw [List.length_replicate]; omega)
  rw [hzero, List.length_map, Nat.zero_add] at hcast
  refine ⟨?_, hcast.1, hcast.2⟩
  rw [length_countsOf]
  omega

/-! ## Texts with the same words -/

/-- The fault of a dimension that no list can have for its length. -/
def noRoom : Fault :=
  .foreign "OverflowError" "cannot fit 'int' into an index-sized integer"

/-- Without room for the counts no text is looked at. -/
theorem hashEmbed_of_le {dimension : Int} (hbeyond : (Nat.pow 2 63 : Int) ≤ dimension)
    (text : String) : hashEmbed dimension text = .crash noRoom := by
  have hno : isIndex dimension = false := by
    rw [Bool.eq_false_iff, ne_eq, isIndex_iff]
    omega
  unfold hashEmbed
  rw [hno]
  rfl

theorem hashEmbed_eq {dimension : Int} (h : 1 ≤ dimension)
    (hfits : dimension < (Nat.pow 2 63 : Int)) (text : String) :
    hashEmbed dimension text =
      if identifiers (Text.lower text).toList = [] then .failure .noTokens
      else .vector (normalize ((countsOf voteOf dimension.toNat
        (identifiers (Text.lower text).toList)).map Float.ofInt)) := by
  have hwords : tokens (Text.lowerFrom [] text.toList) = identifiers (Text.lower text).toList :=
    wordsOf_eq_identifiers text
  have hindex : isIndex dimension = true := (isIndex_iff dimension).mpr ⟨by omega, hfits⟩
  unfold hashEmbed
  rw [hindex, hwords]
  split
  · rename_i hsome
    exact absurd hsome (by decide)
  split
  · rename_i hnone
    rw [if_pos hnone]
  · rename_i hsome
    rw [if_neg hsome, if_neg (by omega), if_neg (by omega)]

/-- Two texts with the same identifiers in lower case, each as often in the one as in the other, have
the same counts, whatever the votes of the words are: there is one for each component, and their sizes
add up to no more than the number of the words, with the same parity. So, for a dimension that a list can
have for its length, either both texts are refused for having no words, or both have the vector of these
counts. With a greater dimension there is no room for any text. -/
theorem embedded_alike {dimension : Int} {a b : String} (h : 1 ≤ dimension)
    (hwords : (identifiers (Text.lower a).toList).Perm (identifiers (Text.lower b).toList)) :
    (∀ vote : List Char → Vote, ∃ counts,
      countsOf vote dimension.toNat (identifiers (Text.lower a).toList) = counts ∧
        countsOf vote dimension.toNat (identifiers (Text.lower b).toList) = counts ∧
        Balanced dimension (identifiers (Text.lower a).toList) counts) ∧
      (dimension < (Nat.pow 2 63 : Int) →
        (hashEmbed dimension a = .failure .noTokens ∧ hashEmbed dimension b = .failure .noTokens) ∨
          ∃ counts, countsOf voteOf dimension.toNat (identifiers (Text.lower a).toList) = counts ∧
            countsOf voteOf dimension.toNat (identifiers (Text.lower b).toList) = counts ∧
            Balanced dimension (identifiers (Text.lower a).toList) counts ∧
            hashEmbed dimension a = .vector (normalize (counts.map Float.ofInt)) ∧
            hashEmbed dimension b = .vector (normalize (counts.map Float.ofInt))) ∧
      ((Nat.pow 2 63 : Int) ≤ dimension →
        hashEmbed dimension a = .crash noRoom ∧ hashEmbed dimension b = .crash noRoom) := by
  have hsame (vote : List Char → Vote) := countsOf_perm vote dimension.toNat hwords
  have hbalanced (vote : List Char → Vote) :=
    balanced_countsOf vote h (identifiers (Text.lower a).toList)
  refine ⟨fun vote => ⟨_, rfl, (hsame vote).symm, hbalanced vote⟩, fun hfits => ?_, fun hbeyond =>
    ⟨hashEmbed_of_le hbeyond a, hashEmbed_of_le hbeyond b⟩⟩
  rw [hashEmbed_eq h hfits, hashEmbed_eq h hfits]
  by_cases hnone : identifiers (Text.lower a).toList = []
  · have hnone' : identifiers (Text.lower b).toList = [] := by
      rw [hnone] at hwords
      exact hwords.nil_eq.symm
    rw [if_pos hnone, if_pos hnone']
    exact .inl ⟨rfl, rfl⟩
  · have hsome' : identifiers (Text.lower b).toList ≠ [] := by
      intro hnone'
      rw [hnone'] at hwords
      exact hnone hwords.eq_nil
    rw [if_neg hnone, if_neg hsome']
    exact .inr ⟨_, rfl, (hsame voteOf).symm, hbalanced voteOf, rfl, by rw [hsame]⟩

/-- With a dimension beyond the length of every list, even a text without words is not refused. -/
theorem not_refused_without_room :
    (1 : Int) ≤ (Nat.pow 2 63 : Int) ∧
      (identifiers (Text.lower "").toList).Perm (identifiers (Text.lower "").toList) ∧
      hashEmbed (Nat.pow 2 63 : Int) "" = .crash noRoom ∧
      hashEmbed (Nat.pow 2 63 : Int) "" ≠ .failure .noTokens ∧
      ∀ v, hashEmbed (Nat.pow 2 63 : Int) "" ≠ .vector v := by
  have hcrash : hashEmbed (Nat.pow 2 63 : Int) "" = .crash noRoom :=
    hashEmbed_of_le (Int.le_refl _) ""
  refine ⟨by decide, .refl _, hcrash, ?_, fun v => ?_⟩
  · rw [hcrash]
    exact fun h => by cases h
  · rw [hcrash]
    exact fun h => by cases h

theorem embedded_alike_reordered :
    (1 : Int) ≤ 4 ∧
      (identifiers (Text.lower "add(x, Y1); x").toList).Perm
        (identifiers (Text.lower "X 2y1 x ADD").toList) ∧
      hashEmbed 4 "add(x, Y1); x" = hashEmbed 4 "X 2y1 x ADD" ∧
      ∃ counts, Balanced 4 ["add".toList, "x".toList, "y1".toList, "x".toList] counts ∧
        hashEmbed 4 "X 2y1 x ADD" = .vector (normalize (counts.map Float.ofInt)) := by
  have hfirst : identifiers (Text.lower "add(x, Y1); x").toList =
      ["add".toList, "x".toList, "y1".toList, "x".toList] := by
    rw [← tokens_eq_identifiers]
    decide +kernel
  have hsecond : identifiers (Text.lower "X 2y1 x ADD").toList =
      ["x".toList, "y1".toList, "x".toList, "add".toList] := by
    rw [← tokens_eq_identifiers]
    decide +kernel
  have hwords : (identifiers (Text.lower "add(x, Y1); x").toList).Perm
      (identifiers (Text.lower "X 2y1 x ADD").toList) := by
    rw [hfirst, hsecond]
    decide +kernel
  obtain ⟨-, hembedded, -⟩ := embedded_alike (show (1 : Int) ≤ 4 by decide) hwords
  refine ⟨by decide, hwords, ?_⟩
  rcases hembedded (by decide) with ⟨hrefused, -⟩ | ⟨counts, -, -, hbalanced, ha, hb⟩
  · rw [hashEmbed_eq (by decide) (by decide), hfirst, if_neg (by decide)] at hrefused
    cases hrefused
  · exact ⟨ha.trans hb.symm, counts, hfirst ▸ hbalanced, hb⟩

end CodeSearch.Embedding

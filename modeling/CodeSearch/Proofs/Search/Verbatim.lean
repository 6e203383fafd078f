import CodeSearch.Proofs.Search.Ranking
import CodeSearch.Proofs.Text.Steady
import CodeSearch.Search.Lexical

/-!
Which chunks are found that have a word of the question in them, character by character.

A chunk is found if a word of the question, put in lower case on its own, stands in the lower-case form
of its name, its text or its context (`returned_iff`). That is so for a word that stands in one of them
as it is written, unless what surrounds it changes the form of a capital sigma in it. The words that
are never lost in this way are exactly the steady ones (`verbatim_found_iff_steady`).
-/
set_option autoImplicit false

namespace CodeSearch.Search

open CodeSearch.Text (KeepsForm Steady isBlank lowerFrom words)

/-! ## Words and texts -/

/-- A text without a certain character stands on one side of it. -/
theorem infix_append_cons_iff {α : Type} {part xs ys : List α} {b : α} (hb : b ∉ part) :
    part <:+: xs ++ b :: ys ↔ part <:+: xs ∨ part <:+: ys := by
  constructor
  · intro h
    rcases List.infix_append_iff.mp h with hleft | hright | ⟨front, back, rfl, hfront, hback⟩
    · exact .inl hleft
    · rcases List.infix_cons_iff.mp hright with hstart | hlater
      · rcases List.prefix_cons_iff.mp hstart with rfl | ⟨rest, rfl, -⟩
        · exact .inl List.nil_infix
        · exact absurd List.mem_cons_self hb
      · exact .inr hlater
    · rcases List.prefix_cons_iff.mp hback with rfl | ⟨rest, rfl, -⟩
      · exact .inl (by simpa using hfront.isInfix)
      · exact absurd (List.mem_append_right front List.mem_cons_self) hb
  · rintro (h | h)
    · exact h.trans (List.prefix_append xs _).isInfix
    · exact h.trans ((List.suffix_cons b ys).trans (List.suffix_append xs _)).isInfix

/-- The texts of a chunk that words are looked for in. -/
def fieldsOf (c : Chunk) : List String := [c.name, c.text, c.context]

/-- The document of a chunk is made of its texts in lower case. -/
theorem text_ofChunk (c : Chunk) : (Document.ofChunk c).text =
    lowerFrom [] c.name.toList ++ ' ' :: (lowerFrom [] c.text.toList ++
      ' ' :: lowerFrom [] c.context.toList) := by
  have hspace : isBlank ' ' = true := by decide
  have hjoined : (c.name ++ " " ++ c.text ++ " " ++ c.context).toList =
      c.name.toList ++ ' ' :: (c.text.toList ++ ' ' :: c.context.toList) := by
    simp only [String.toList_append, List.append_assoc]
    rfl
  rw [Document.ofChunk]
  dsimp only
  rw [hjoined, Text.lowerFrom_append_blank hspace, Text.lowerFrom_append_blank hspace]

/-- A word stands in the document of a chunk exactly if it stands in one of its texts. -/
theorem infix_text_iff {word : List Char} (hword : ∀ c ∈ word, isBlank c = false) (c : Chunk) :
    word <:+: (Document.ofChunk c).text ↔
      ∃ field ∈ fieldsOf c, word <:+: lowerFrom [] field.toList := by
  have hspace : ' ' ∉ word := fun h => absurd (hword ' ' h) (by decide)
  rw [text_ofChunk, infix_append_cons_iff hspace, infix_append_cons_iff hspace]
  simp only [fieldsOf, List.mem_cons, List.not_mem_nil, or_false, exists_eq_or_imp, exists_eq_left]

/-! ## What is returned -/

section Returned

variable {chunks : List Chunk} {question : String} {limit : Int} {c : Chunk}

/-- A chunk is among the answers to a question about all kinds: its own match is. -/
def Returned (chunks : List Chunk) (question : String) (limit : Int) (c : Chunk) : Prop :=
  ∃ m ∈ (Lexical.ofChunks chunks).query question none limit,
    (Document.ofChunk c).match? (termsOf question) = some m

/-- With room for all chunks every match is an answer. -/
theorem mem_query_iff (hlimit : (chunks.length : Int) ≤ limit) {m : Match} :
    m ∈ (Lexical.ofChunks chunks).query question none limit ↔
      ∃ c ∈ chunks, (Document.ofChunk c).match? (termsOf question) = some m := by
  have hall : ((chunks.map Document.ofChunk).filter (Document.isOfKind none)) =
      chunks.map Document.ofChunk := List.filter_eq_self.mpr fun _ _ => rfl
  unfold Lexical.query
  dsimp only [Lexical.ofChunks]
  rw [hall, upTo_eq_take (by omega), List.take_of_length_le, (bestFirst_perm _ _).mem_iff,
    List.mem_filterMap]
  · simp only [List.mem_map, exists_exists_and_eq_and]
  · rw [(bestFirst_perm _ _).length_eq]
    have hshorter := List.length_filterMap_le (Document.match? (termsOf question))
      (chunks.map Document.ofChunk)
    rw [List.length_map] at hshorter
    omega

/-- A document is matched exactly if one of the words stands in it. -/
theorem isSome_match?_iff (terms : List (List Char)) (d : Document) :
    (d.match? terms).isSome = true ↔ ∃ term ∈ terms, term <:+: d.text := by
  have hhits : 0 < d.hits terms ↔ ∃ term ∈ terms, term <:+: d.text := by
    rw [Document.hits, List.countP_pos_iff]
    simp only [Text.contains_iff_infix]
  rw [← hhits, Document.match?]
  cases d.hits terms with
  | zero => exact iff_of_false Bool.false_ne_true (Nat.lt_irrefl 0)
  | succ n => exact iff_of_true rfl (Nat.succ_pos n)

/-- A chunk is returned exactly if a word of the question, in lower case on its own, stands in the
lower-case form of one of its texts. -/
theorem returned_iff (hc : c ∈ chunks) (hlimit : (chunks.length : Int) ≤ limit) :
    Returned chunks question limit c ↔
      ∃ word ∈ words question.toList, ∃ field ∈ fieldsOf c,
        lowerFrom [] word <:+: lowerFrom [] field.toList := by
  have hmatched : Returned chunks question limit c ↔
      ((Document.ofChunk c).match? (termsOf question)).isSome = true := by
    rw [Option.isSome_iff_exists]
    constructor
    · rintro ⟨m, -, hm⟩
      exact ⟨m, hm⟩
    · rintro ⟨m, hm⟩
      exact ⟨m, (mem_query_iff hlimit).mpr ⟨c, hc, hm⟩, hm⟩
  rw [hmatched, isSome_match?_iff, termsOf, Text.words_lowerFrom]
  simp only [List.mem_map, exists_exists_and_eq_and]
  refine exists_congr fun word => and_congr_right fun hword => infix_text_iff ?_ c
  rw [← Text.lowerWithin_nil]
  exact Text.isBlank_lowerWithin (Text.run_of_mem_words hword).1

/-- A word of the question that stands in a chunk, character by character. -/
def Stands (question : String) (c : Chunk) (word : List Char) : Prop :=
  word ∈ words question.toList ∧ ∃ field ∈ fieldsOf c, word <:+: field.toList

/-- A chunk is returned if a word of the question keeps its form somewhere in one of its texts. -/
theorem returned_of_keepsForm {word : List Char} (hc : c ∈ chunks)
    (hlimit : (chunks.length : Int) ≤ limit) (hword : word ∈ words question.toList) {field : String}
    (hfield : field ∈ fieldsOf c) {before after : List Char}
    (hat : field.toList = before ++ word ++ after) (hkeeps : KeepsForm before.reverse word after) :
    Returned chunks question limit c := by
  refine (returned_iff hc hlimit).mpr ⟨word, hword, field, hfield, ?_⟩
  rw [hat]
  exact Text.lower_infix_of_keepsForm hkeeps

/-- A chunk is lost with a word that is not steady: one with nothing but the right name. -/
theorem exists_not_returned {word : List Char} (hword : words word = [word])
    (hunsteady : ¬ Steady word) :
    ∃ c, Stands (String.ofList word) c word ∧ ¬ Returned [c] (String.ofList word) 1 c := by
  obtain ⟨text, hstands, hlost⟩ := Text.exists_lost_of_not_steady hunsteady
  have hmem : word ∈ words word := by
    rw [hword]
    exact List.mem_cons_self
  let c : Chunk := { id := "", kind := "", name := String.ofList text, text := "", path := ""
                     line := 1, context := "" }
  refine ⟨c, ⟨by rwa [String.toList_ofList], c.name, List.mem_cons_self, by simpa [c] using hstands⟩,
    fun hreturned => ?_⟩
  obtain ⟨word', hword', field, hfield, hin⟩ :=
    (returned_iff List.mem_cons_self (Int.le_refl 1)).mp hreturned
  rw [String.toList_ofList, hword, List.mem_singleton] at hword'
  subst hword'
  simp only [fieldsOf, List.mem_cons, List.not_mem_nil, or_false, c] at hfield
  rcases hfield with rfl | rfl | rfl
  · rw [String.toList_ofList] at hin
    exact hlost hin
  all_goals
    -- the other two texts are empty, and a word is not
    have hempty : lowerFrom [] word' = [] := List.infix_nil.mp hin
    exact Text.lowerFrom_ne_nil (Text.run_of_mem_words hmem).2 hempty

/-- A chunk with a word of the question in one of its texts, character by character, is returned if the
word keeps its form there. A word is one that no chunk is lost with exactly if it is steady. -/
theorem verbatim_found_iff_steady (word : List Char) :
    (∀ (chunks : List Chunk) (question : String) (limit : Int), ∀ c ∈ chunks,
      (chunks.length : Int) ≤ limit → word ∈ words question.toList → ∀ field ∈ fieldsOf c,
      ∀ before after, field.toList = before ++ word ++ after →
        KeepsForm before.reverse word after → Returned chunks question limit c) ∧
    (words word = [word] →
      ((∀ (chunks : List Chunk) (question : String) (limit : Int), ∀ c ∈ chunks,
        (chunks.length : Int) ≤ limit → Stands question c word →
          Returned chunks question limit c) ↔ Steady word)) := by
  refine ⟨?_, fun hword => ⟨fun hfound => ?_, fun hsteady => ?_⟩⟩
  · intro chunks question limit c hc hlimit hasked field hfield before after hat hkeeps
    exact returned_of_keepsForm hc hlimit hasked hfield hat hkeeps
  · by_contra hunsteady
    obtain ⟨c, hstands, hlost⟩ := exists_not_returned hword hunsteady
    exact hlost (hfound [c] (String.ofList word) 1 c List.mem_cons_self (Int.le_refl 1) hstands)
  · rintro chunks question limit c hc hlimit ⟨hasked, field, hfield, before, after, hat⟩
    exact returned_of_keepsForm hc hlimit hasked hfield hat.symm (hsteady.keepsForm _ _)

end Returned

/-! ### Two words of Greek -/

/-- A chunk with nothing but a name. -/
def named (name : String) : Chunk where
  id := "names.py:1:" ++ name
  kind := "variable"
  name := name
  text := ""
  path := "names.py"
  line := 1
  context := ""

/-- Inside a longer word a sigma does not end the word, as it does in the question. -/
theorem lost_inside_word :
    Stands "ΑΣ" (named "ΑΣΑ") "ΑΣ".toList ∧
      (Lexical.ofChunks [named "ΑΣΑ"]).query "ΑΣ" none 1 = [] ∧
      ¬ Returned [named "ΑΣΑ"] "ΑΣ" 1 (named "ΑΣΑ") := by
  have hstands : Stands "ΑΣ" (named "ΑΣΑ") "ΑΣ".toList :=
    ⟨by decide +kernel, "ΑΣΑ", List.mem_cons_self, [], ['Α'], by decide +kernel⟩
  have hnothing : (Lexical.ofChunks [named "ΑΣΑ"]).query "ΑΣ" none 1 = [] :=
    List.isEmpty_iff.mp (by decide +kernel)
  refine ⟨hstands, hnothing, ?_⟩
  rintro ⟨m, hm, -⟩
  rw [hnothing] at hm
  cases hm

/-- As a word of its own it is found, and so is a word without a sigma inside another one. -/
theorem verbatim_found_iff_steady_greek :
    KeepsForm [] "ΟΔΟΣ".toList " 1".toList ∧
      Returned [named "ΟΔΟΣ 1", named "x"] "x ΟΔΟΣ" 2 (named "ΟΔΟΣ 1") ∧
      Steady "Α".toList ∧ Stands "ΑΣ Α" (named "ΑΣΑ") "Α".toList ∧
      Returned [named "ΑΣΑ"] "ΑΣ Α" 1 (named "ΑΣΑ") := by
  obtain ⟨hplace, -⟩ := verbatim_found_iff_steady "ΟΔΟΣ".toList
  obtain ⟨-, hword⟩ := verbatim_found_iff_steady "Α".toList
  have hkeeps : KeepsForm [] "ΟΔΟΣ".toList " 1".toList :=
    Text.keepsForm_iff.mpr (by decide +kernel)
  have hsteady : Steady "Α".toList := Text.steady_of_not_mem (by decide +kernel)
  have hstands : Stands "ΑΣ Α" (named "ΑΣΑ") "Α".toList :=
    ⟨by decide +kernel, "ΑΣΑ", List.mem_cons_self, [], "ΣΑ".toList, by decide +kernel⟩
  refine ⟨hkeeps, ?_, hsteady, hstands, ?_⟩
  · exact hplace [named "ΟΔΟΣ 1", named "x"] "x ΟΔΟΣ" 2 _ List.mem_cons_self (by decide)
      (by decide +kernel) "ΟΔΟΣ 1" List.mem_cons_self [] " 1".toList
      (by decide +kernel) hkeeps
  · exact (hword (by decide +kernel)).mpr hsteady [named "ΑΣΑ"] "ΑΣ Α" 1 _
      List.mem_cons_self (by decide) hstands

end CodeSearch.Search

import CodeSearch.Embedding.Selection
import CodeSearch.Proofs.Explain.Replies

/-!
What comes of a text.

An embedder is meant to give a vector with at least one component, or to refuse the text
(`Outcome.Proper`). Both embedders do whatever the text is, with an exception each. Counting words
needs a component for each word that there is, and dimensions are taken as they come, so a dimension
below one breaks on the first text that has a word. What a service sends is looked into with care up to
the place of the vector, and what stands there is turned into numbers without any, so an answer with
something else in that place breaks too. What a text needs so that it breaks nothing is said in terms
of the choice that was made (`Served`), and it is exactly that (`proper_embed_iff`).
-/
set_option autoImplicit false

namespace CodeSearch.Embedding

open CodeSearch.Explain (Part standing? standing?_nil standing?_key standing?_first_key
  toOption_bind)
open CodeSearch.Service

variable {σ : Type}

/-- What is meant to come of a text: a vector that is not empty, or a refusal. -/
def Outcome.Proper : Outcome → Prop
  | .vector v => v ≠ []
  | .failure _ => True
  | .crash _ => False

/-- Where no vector is empty, only what breaks is not as it is meant to be. -/
theorem proper_iff_unbroken {outcome : Outcome} (h : ∀ v, outcome = .vector v → v ≠ []) :
    outcome.Proper ↔ ∀ fault, outcome ≠ .crash fault := by
  cases outcome with
  | vector v => exact iff_of_true (h v rfl) fun fault => by simp
  | failure reason => exact iff_of_true trivial fun fault => by simp
  | crash fault => exact iff_of_false id fun hnever => hnever fault rfl

/-! ## Counting words -/

theorem length_countVote (counts : List Int) (v : Vote) :
    (countVote counts v).length = counts.length :=
  List.length_modify ..

/-- However many words there are, each component has its count. -/
theorem length_countsOf (vote : List Char → Vote) (dimension : Nat) (found : List (List Char)) :
    (countsOf vote dimension found).length = dimension := by
  -- a vote changes one count, and never how many there are
  have hfold : ∀ (votes : List Vote) (counts : List Int),
      (votes.foldl countVote counts).length = counts.length := by
    intro votes
    induction votes with
    | nil => exact fun _ => rfl
    | cons v votes ih => exact fun counts => (ih _).trans (length_countVote counts v)
  rw [countsOf, hfold, List.length_replicate]

theorem length_normalize (v : List Float) : (normalize v).length = v.length := by
  unfold normalize
  dsimp only
  split
  · rfl
  · exact List.length_map _

/-- The words of a text. -/
def wordsOf (text : String) : List (List Char) :=
  tokens (Text.lowerFrom [] text.toList)

/-- The words of a text can be counted: a list can have the dimension for its length, and there is a
component if there is a word. -/
structure Countable (dimension : Int) (text : String) : Prop where
  fits : -(Nat.pow 2 63 : Int) ≤ dimension ∧ dimension < (Nat.pow 2 63 : Int)
  places : wordsOf text ≠ [] → 0 < dimension

theorem isIndex_iff (dimension : Int) :
    isIndex dimension = true ↔
      -(Nat.pow 2 63 : Int) ≤ dimension ∧ dimension < (Nat.pow 2 63 : Int) := by
  rw [isIndex, Bool.and_eq_true, decide_eq_true_iff, decide_eq_true_iff]

/-- What counting words comes to: one constructor for each way it can go. -/
inductive Counted (dimension : Int) (text : String) (outcome : Outcome) : Prop where
  | refused (hcountable : Countable dimension text) (hnone : wordsOf text = [])
      (houtcome : outcome = .failure .noTokens)
  | counted (hcountable : Countable dimension text) (v : List Float)
      (houtcome : outcome = .vector v) (hlength : v.length = dimension.toNat)
      (hplaces : 0 < dimension)
  | broken (hnot : ¬ Countable dimension text) (fault : Fault) (houtcome : outcome = .crash fault)

theorem counted_hashEmbed (dimension : Int) (text : String) :
    Counted dimension text (hashEmbed dimension text) := by
  unfold hashEmbed
  by_cases hfits : isIndex dimension = true
  · have hbounds := (isIndex_iff dimension).mp hfits
    simp only [hfits, Bool.not_true, Bool.false_eq_true, if_false]
    split
    · rename_i hnone
      exact .refused ⟨hbounds, fun hwords => absurd hnone hwords⟩ hnone rfl
    · rename_i hwords
      -- there is a word, so there must be a component
      split
      · rename_i hzero
        refine .broken (fun h => ?_) _ rfl
        have := h.places hwords
        omega
      split
      · rename_i hnegative
        refine .broken (fun h => ?_) _ rfl
        have := h.places hwords
        omega
      · have hplaces : 0 < dimension := by omega
        refine .counted ⟨hbounds, fun _ => hplaces⟩ _ rfl ?_ hplaces
        rw [length_normalize, List.length_map, length_countsOf]
  · simp only [hfits, Bool.not_false, if_true]
    exact .broken (fun h => hfits ((isIndex_iff dimension).mpr h.fits)) _ rfl

/-- Counting words never gives a vector of another length than the dimension. -/
theorem length_of_hashEmbed {dimension : Int} {text : String} {v : List Float}
    (h : hashEmbed dimension text = .vector v) : v.length = dimension.toNat ∧ 0 < dimension := by
  cases counted_hashEmbed dimension text with
  | refused hcountable hnone houtcome =>
    rw [h] at houtcome
    cases houtcome
  | counted hcountable v' houtcome hlength hplaces =>
    rw [h] at houtcome
    obtain rfl := Outcome.vector.inj houtcome
    exact ⟨hlength, hplaces⟩
  | broken hnot fault houtcome =>
    rw [h] at houtcome
    cases houtcome

theorem unbroken_hashEmbed_iff (dimension : Int) (text : String) :
    (∀ fault, hashEmbed dimension text ≠ .crash fault) ↔ Countable dimension text := by
  cases counted_hashEmbed dimension text with
  | refused hcountable hnone houtcome =>
    exact iff_of_true (fun fault => by rw [houtcome]; simp) hcountable
  | counted hcountable v houtcome hlength hplaces =>
    exact iff_of_true (fun fault => by rw [houtcome]; simp) hcountable
  | broken hnot fault houtcome => exact iff_of_false (fun hnever => hnever fault houtcome) hnot

/-! ## Answers of a service -/

/-- The way to the vector in the answers of a service. -/
def vectorPath : List Part := [.key "data", .first, .key "embedding"]

theorem toOption_vectorIn (answer : Value) :
    (vectorIn answer).toOption = standing? vectorPath answer := by
  simp only [vectorIn, vectorPath, toOption_bind, standing?_nil, standing?_key,
    standing?_first_key, Option.bind_fun_some]

/-- A value that a number can be made of: a number that is not too large, a truth value, or a text that
spells a number. -/
inductive Numeric : Value → Prop where
  | float (x : Float) : Numeric (.float x)
  | bool (b : Bool) : Numeric (.bool b)
  | int {i : Int} (h : (Decimal.ofInt? i).isSome = true) : Numeric (.int i)
  | text {s : String} (h : (Decimal.float? s).isSome = true) : Numeric (.text s)

theorem exists_toFloat_iff (v : Value) : (∃ x, v.toFloat = .ok x) ↔ Numeric v := by
  cases v with
  | bool b => exact iff_of_true ⟨_, rfl⟩ (.bool b)
  | float x => exact iff_of_true ⟨_, rfl⟩ (.float x)
  | int i =>
    rw [Value.toFloat]
    cases hfound : Decimal.ofInt? i with
    | some x => exact iff_of_true ⟨x, rfl⟩ (.int (by rw [hfound]; rfl))
    | none =>
      refine iff_of_false (not_exists.mpr fun x hx => by cases hx) fun h => ?_
      cases h with
      | int hsome => simp [hfound] at hsome
  | text s =>
    rw [Value.toFloat]
    cases hfound : Decimal.float? s with
    | some x => exact iff_of_true ⟨x, rfl⟩ (.text (by rw [hfound]; rfl))
    | none =>
      refine iff_of_false (not_exists.mpr fun x hx => by cases hx) fun h => ?_
      cases h with
      | text hsome => simp [hfound] at hsome
  | _ => exact iff_of_false (not_exists.mpr fun x hx => by cases hx) fun h => by cases h

/-- A value that a vector can be made of: a list of numbers, but also a text whose characters are
digits, or a table whose keys spell numbers. -/
inductive MadeOfNumbers : Value → Prop where
  | list {items : List Value} (h : ∀ item ∈ items, Numeric item) : MadeOfNumbers (.list items)
  | text {s : String} (h : ∀ c ∈ s.toList, Numeric (.text (String.singleton c))) :
    MadeOfNumbers (.text s)
  | table {entries : List (String × Value)} (h : ∀ entry ∈ entries, Numeric (.text entry.1)) :
    MadeOfNumbers (.table entries)

/-- What is made of numbers is what has parts that are all numbers. -/
theorem madeOfNumbers_iff (v : Value) :
    MadeOfNumbers v ↔ ∃ items, v.items = .ok items ∧ ∀ item ∈ items, Numeric item := by
  constructor
  · rintro (h | h | h)
    · exact ⟨_, rfl, h⟩
    · exact ⟨_, rfl, List.forall_mem_map.mpr h⟩
    · exact ⟨_, rfl, List.forall_mem_map.mpr h⟩
  · rintro ⟨items, hitems, h⟩
    cases v with
    | list found =>
      obtain rfl := Except.ok.inj hitems
      exact .list h
    | text s =>
      obtain rfl := Except.ok.inj hitems
      exact .text (List.forall_mem_map.mp h)
    | table entries =>
      obtain rfl := Except.ok.inj hitems
      exact .table (List.forall_mem_map.mp h)
    | _ => cases hitems

/-- What counts as something has a part, if it has parts at all. -/
theorem items_ne_nil {v : Value} {items : List Value} (hholds : v.holds = true)
    (hitems : v.items = .ok items) : items ≠ [] := by
  cases v with
  | list found =>
    obtain rfl := Except.ok.inj hitems
    simpa [Value.holds] using hholds
  | text s =>
    obtain rfl := Except.ok.inj hitems
    simpa [Value.holds] using hholds
  | table entries =>
    obtain rfl := Except.ok.inj hitems
    simpa [Value.holds] using hholds
  | _ => cases hitems

theorem ne_nil_of_vectorOf {found : Value} {v : List Float} (h : vectorOf found = .vector v) :
    v ≠ [] := by
  unfold vectorOf at h
  split at h
  · cases h
  · rename_i hholds
    split at h
    · cases h
    · rename_i items hitems
      split at h
      · rename_i v' hv
        obtain rfl := Outcome.vector.inj h
        -- there is a component for each part
        have hlength := (Vector.mapM_eq_ok_iff.mp hv).length_eq
        have hsome := List.length_pos_iff.mpr (items_ne_nil (by simpa using hholds) hitems)
        exact List.length_pos_iff.mp (hlength ▸ hsome)
      · cases h

/-- Something in the place of a vector breaks the embedder unless it counts as nothing or is made of
numbers. -/
theorem unbroken_vectorOf_iff (found : Value) :
    (∀ fault, vectorOf found ≠ .crash fault) ↔ (found.holds = true → MadeOfNumbers found) := by
  rw [madeOfNumbers_iff]
  unfold vectorOf
  by_cases hholds : found.holds = true
  · simp only [hholds, Bool.not_true, Bool.false_eq_true, if_false, true_imp_iff]
    cases hitems : found.items with
    | error fault => simp
    | ok items =>
      have hnumbers : (∃ v, items.mapM Value.toFloat = .ok v) ↔ ∀ item ∈ items, Numeric item := by
        simp only [Vector.exists_mapM_eq_ok_iff, exists_toFloat_iff]
      dsimp only
      -- the first part that is no number ends the list, so one that is none suffices
      cases hfloats : items.mapM Value.toFloat with
      | error fault =>
        refine iff_of_false (fun hnever => hnever fault rfl) ?_
        rintro ⟨items', heq, h⟩
        obtain rfl := Except.ok.inj heq
        obtain ⟨v, hv⟩ := hnumbers.mpr h
        rw [hfloats] at hv
        cases hv
      | ok v => exact iff_of_true (fun fault => by simp) ⟨items, rfl, hnumbers.mp ⟨v, hfloats⟩⟩
  · simp only [hholds, Bool.not_false, if_true]
    exact iff_of_true (fun fault => by simp) fun h => absurd h (by simp)

/-- An answer that can be used without another look: what stands in the place of the vector is made of
numbers unless it counts as nothing. -/
def Fit (answer : Value) : Prop :=
  ∀ found, standing? vectorPath answer = some found → found.holds = true → MadeOfNumbers found

theorem ne_nil_of_outcomeOf {reply : Reply} {v : List Float} (h : outcomeOf reply = .vector v) :
    v ≠ [] := by
  unfold outcomeOf at h
  split at h
  · cases h
  · cases h
  · split at h
    · cases h
    · exact ne_nil_of_vectorOf h

/-- A reply breaks the embedder exactly if it brings an answer that is not fit. -/
theorem unbroken_outcomeOf_iff (reply : Reply) :
    (∀ fault, outcomeOf reply ≠ .crash fault) ↔ ∀ answer, reply.data = .ok answer → Fit answer := by
  unfold outcomeOf
  cases hdata : reply.data with
  | error problem =>
    refine iff_of_true (fun fault => ?_) fun answer hanswer => by cases hanswer
    cases problem <;> simp
  | ok answer =>
    have hplace := toOption_vectorIn answer
    simp only [Except.ok.injEq, forall_eq']
    -- a path that leads nowhere is a refusal; what stands at its end is all that can break
    cases hfound : vectorIn answer with
    | error fault =>
      refine iff_of_true (fun _ => by simp) fun found hat => ?_
      rw [← hplace, hfound] at hat
      cases hat
    | ok found =>
      rw [hfound] at hplace
      refine (unbroken_vectorOf_iff found).trans ⟨fun h found' hat => ?_, fun h => h found hplace.symm⟩
      obtain rfl : found = found' := Option.some.inj (hplace.trans hat)
      exact h

/-! ## Choices -/

/-- The service that a choice of one means. -/
def serviceOf (c : Choice) : Remote :=
  Remote.new c.apiKey (orElse c.model remoteModel) c.endpoint (.float 30.0)

/-- There are embedders of two kinds, by the name of the provider. -/
theorem select_eq_some {c : Choice} {s : Selection} (h : select c = .ok (some s)) :
    Text.lower c.provider = "hash" ∧ s = .hash c.dimension ∨
      Text.lower c.provider = "openai" ∧ s = .remote (serviceOf c) := by
  unfold select at h
  dsimp only at h
  split at h
  · cases h
  split at h
  · rename_i hhash
    cases h
    exact Or.inl ⟨by simpa using hhash, rfl⟩
  split at h
  · rename_i hopenai
    split at h
    · cases h
    · cases h
      exact Or.inr ⟨by simpa using hopenai, rfl⟩
  · cases h

/-- A text is served by what was chosen: its words can be counted if that is what is done with it, and
the answer to its request is fit, if there is one, if a service is asked. -/
structure Served (c : Choice) (exchange : Exchange σ) (text : String) (world : σ) : Prop where
  counted : Text.lower c.provider = "hash" → Countable c.dimension text
  answered : Text.lower c.provider = "openai" → ∀ answer,
    (exchange ((serviceOf c).request text) world).1.data = .ok answer → Fit answer

section Chosen

variable {c : Choice} {s : Selection} (hselect : select c = .ok (some s)) (exchange : Exchange σ)
  (text : String) (world : σ)

include hselect

/-- A text that is served, and no other, does not break the embedder. -/
theorem unbroken_embed_iff :
    (∀ fault, ((s.embedder exchange).embed text world).1 ≠ .crash fault) ↔
      Served c exchange text world := by
  rcases select_eq_some hselect with ⟨hprovider, rfl⟩ | ⟨hprovider, rfl⟩
  · refine (unbroken_hashEmbed_iff c.dimension text).trans ⟨fun h => ⟨fun _ => h, ?_⟩, ?_⟩
    · intro hopenai
      rw [hprovider] at hopenai
      exact absurd hopenai (by decide)
    · exact fun h => h.counted hprovider
  · refine (unbroken_outcomeOf_iff _).trans ⟨fun h => ⟨?_, fun _ => h⟩, ?_⟩
    · intro hhash
      rw [hprovider] at hhash
      exact absurd hhash (by decide)
    · exact fun h => h.answered hprovider

/-- A vector that a text is given has a component. -/
theorem ne_nil_of_embed {v : List Float}
    (h : ((s.embedder exchange).embed text world).1 = .vector v) : v ≠ [] := by
  rcases select_eq_some hselect with ⟨-, rfl⟩ | ⟨-, rfl⟩
  · -- there are as many components as the dimension says, and it is at least one
    obtain ⟨hlength, hplaces⟩ := length_of_hashEmbed h
    refine List.length_pos_iff.mp ?_
    omega
  · exact ne_nil_of_outcomeOf h

/-- A text comes to a vector that is not empty or to a refusal exactly if it is served. -/
theorem proper_embed_iff :
    ((s.embedder exchange).embed text world).1.Proper ↔ Served c exchange text world :=
  (proper_iff_unbroken fun _ => ne_nil_of_embed hselect exchange text world).trans
    (unbroken_embed_iff hselect exchange text world)

end Chosen

end CodeSearch.Embedding

import CodeSearch.Text.Utf8

/-!
Reading back what was spelled in octets.

The octets of a character are its code point cut into groups of six bits, with the highest group in the
first octet, and a step of reading puts the groups together again. The octets of a text are read one
character after the other, so reading gives the text back, whether faults are reported or replaced
(`decode_encode`, `decodeLenient_encode`). An octet below 0x80 stands for itself and is no part of a
longer character, so line feeds can be counted in the octets (`count_encode`).
-/
set_option autoImplicit false

namespace CodeSearch.Text

/-! ## One character -/

theorem toNat_ofNat {n : Nat} (hn : n < 256) : (UInt8.ofNat n).toNat = n := by
  rw [UInt8.toNat_ofNat', Nat.mod_eq_of_lt hn]

theorem ofNat_lt_iff {n : Nat} (hn : n < 256) {b : UInt8} : UInt8.ofNat n < b ↔ n < b.toNat := by
  rw [UInt8.lt_iff_toNat_lt, toNat_ofNat hn]

theorem ofNat_eq_iff {n : Nat} (hn : n < 256) {b : UInt8} : UInt8.ofNat n = b ↔ n = b.toNat := by
  rw [← UInt8.toNat_inj, toNat_ofNat hn]

/-- An octet that continues a character adds its six bits. -/
theorem readTail_succ {owed payload taken six : Nat} {low high : UInt8} {rest : List UInt8}
    (hsix : six < 64) (hlow : low.toNat ≤ six + 128) (hhigh : six + 128 ≤ high.toNat) :
    readTail (owed + 1) low high payload taken (UInt8.ofNat (six + 128) :: rest) =
      readTail owed 0x80 0xBF (payload * 64 + six) (taken + 1) rest := by
  have hoctet : (UInt8.ofNat (six + 128)).toNat = six + 128 := toNat_ofNat (by omega)
  have htail : tail? low high (UInt8.ofNat (six + 128)) = some six := by
    simp only [tail?, UInt8.le_iff_toNat_le, hoctet, hlow, hhigh, decide_true, Bool.and_self, if_true]
    congr 1
    omega
  rw [readTail, htail]

section FirstOctet

variable {n : Nat} {rest : List UInt8}

theorem readStep_one (hn : n < 0x80) :
    readStep (UInt8.ofNat n) rest = .char (Char.ofNat n) rest := by
  rw [readStep, if_pos ((ofNat_lt_iff (by omega)).mpr hn), toNat_ofNat (by omega)]

theorem readStep_two (hlow : 0xC2 ≤ n) (hhigh : n < 0xE0) :
    readStep (UInt8.ofNat n) rest = readTail 1 0x80 0xBF (n - 0xC0) 1 rest := by
  have hn : n < 256 := by omega
  simp only [readStep, ofNat_lt_iff hn, toNat_ofNat hn, UInt8.reduceToNat]
  rw [if_neg (by omega), if_neg (by omega), if_pos hhigh]

theorem readStep_three (hlow : 0xE0 ≤ n) (hhigh : n < 0xF0) :
    readStep (UInt8.ofNat n) rest =
      readTail 2 (if n = 0xE0 then 0xA0 else 0x80) (if n = 0xED then 0x9F else 0xBF) (n - 0xE0) 1
        rest := by
  have hn : n < 256 := by omega
  simp only [readStep, ofNat_lt_iff hn, ofNat_eq_iff hn, toNat_ofNat hn, UInt8.reduceToNat]
  rw [if_neg (by omega), if_neg (by omega), if_neg (by omega), if_pos hhigh]

theorem readStep_four (hlow : 0xF0 ≤ n) (hhigh : n < 0xF5) :
    readStep (UInt8.ofNat n) rest =
      readTail 3 (if n = 0xF0 then 0x90 else 0x80) (if n = 0xF4 then 0x8F else 0xBF) (n - 0xF0) 1
        rest := by
  have hn : n < 256 := by omega
  simp only [readStep, ofNat_lt_iff hn, ofNat_eq_iff hn, toNat_ofNat hn, UInt8.reduceToNat]
  rw [if_neg (by omega), if_neg (by omega), if_neg (by omega), if_neg (by omega), if_pos hhigh]

end FirstOctet

/-- The octets of a character are read as this character, whatever follows. -/
theorem readStep_encodeChar (c : Char) : ∃ b bs, String.utf8EncodeChar c = b :: bs ∧
    ∀ rest, readStep b (bs ++ rest) = .char c rest := by
  have hrange : c.toNat < 0xD800 ∨ 0xDFFF < c.toNat ∧ c.toNat < 0x110000 := c.valid
  have hback : Char.ofNat c.toNat = c := Char.ofNat_toNat c
  unfold String.utf8EncodeChar
  rw [show c.val.toNat = c.toNat from rfl]
  generalize c.toNat = v at hrange hback
  subst hback
  dsimp only
  -- the ranges of the second octet exclude what is too long a form, a surrogate, or too large
  split
  · exact ⟨_, _, rfl, fun rest => readStep_one (by omega)⟩
  · split
    · refine ⟨_, _, rfl, fun rest => ?_⟩
      rw [readStep_two (by omega) (by omega), List.singleton_append,
        readTail_succ (by omega) (by simp) (by simp; omega), readTail]
      congr 2
      omega
    · split
      · refine ⟨_, _, rfl, fun rest => ?_⟩
        rw [readStep_three (by omega) (by omega), List.cons_append, List.singleton_append,
          readTail_succ (by omega) (by split <;> simp; omega) (by split <;> simp <;> omega),
          readTail_succ (by omega) (by simp) (by simp; omega), readTail]
        congr 2
        omega
      · refine ⟨_, _, rfl, fun rest => ?_⟩
        rw [readStep_four (by omega) (by omega), List.cons_append, List.cons_append,
          List.singleton_append,
          readTail_succ (by omega) (by split <;> simp; omega) (by split <;> simp <;> omega),
          readTail_succ (by omega) (by simp) (by simp; omega),
          readTail_succ (by omega) (by simp) (by simp; omega), readTail]
        congr 2
        omega

/-! ## Texts -/

theorem encode_cons (c : Char) (cs : List Char) :
    encode (c :: cs) = String.utf8EncodeChar c ++ encode cs := rfl

theorem encode_append (cs ds : List Char) : encode (cs ++ ds) = encode cs ++ encode ds :=
  List.flatMap_append

/-- Reading the octets of a text with replacements gives the text. -/
theorem decodeLenient_encode (cs : List Char) : decodeLenient (encode cs) = cs := by
  induction cs with
  | nil => rw [encode, List.flatMap_nil, decodeLenient]
  | cons c cs ih =>
    obtain ⟨b, bs, hoctets, hstep⟩ := readStep_encodeChar c
    rw [encode_cons, hoctets, List.cons_append, decodeLenient]
    split
    · rename_i d rest hread
      rw [hstep] at hread
      obtain ⟨rfl, rfl⟩ := Octet.Step.char.inj hread
      rw [ih]
    · rename_i hread
      rw [hstep] at hread
      exact absurd hread (by simp)

theorem decodeFrom_encode (position : Nat) (read cs : List Char) :
    decodeFrom position read (encode cs) = .ok (read.reverse ++ cs) := by
  induction cs generalizing position read with
  | nil => rw [encode, List.flatMap_nil, decodeFrom, List.append_nil]
  | cons c cs ih =>
    obtain ⟨b, bs, hoctets, hstep⟩ := readStep_encodeChar c
    rw [encode_cons, hoctets, List.cons_append, decodeFrom]
    split
    · rename_i d rest hread
      rw [hstep] at hread
      obtain ⟨rfl, rfl⟩ := Octet.Step.char.inj hread
      rw [ih, List.reverse_cons, List.append_assoc, List.singleton_append]
    · rename_i hread
      rw [hstep] at hread
      exact absurd hread (by simp)

/-- Reading the octets of a text gives the text. -/
theorem decode_encode (cs : List Char) : decode (encode cs) = .ok cs :=
  decodeFrom_encode 0 [] cs

/-- The octets of a character of several octets are no line feeds. -/
theorem count_encodeChar (c : Char) :
    (String.utf8EncodeChar c).count 10 = if c = '\n' then 1 else 0 := by
  have hfeed : c = '\n' ↔ c.toNat = 10 := by
    rw [← Char.toNat_inj]
    rfl
  have hrange : c.toNat < 0xD800 ∨ 0xDFFF < c.toNat ∧ c.toNat < 0x110000 := c.valid
  unfold String.utf8EncodeChar
  rw [show c.val.toNat = c.toNat from rfl]
  simp only [hfeed]
  generalize c.toNat = v at hrange
  have hother : ∀ n, 128 ≤ n → n < 256 → UInt8.ofNat n ≠ 10 := by
    intro n hlow hhigh heq
    have hn : n = 10 := (ofNat_eq_iff hhigh).mp heq
    omega
  split
  · by_cases hv : v = 10
    · rw [hv]
      rfl
    · have hne : UInt8.ofNat v ≠ 10 := by
        rw [ne_eq, ofNat_eq_iff (by omega)]
        exact hv
      rw [List.count_singleton, if_neg (by simpa using hne), if_neg hv]
  · rw [if_neg (show v ≠ 10 by omega), List.count_eq_zero]
    split
    · simp only [List.mem_cons, List.not_mem_nil, or_false, not_or]
      refine ⟨?_, ?_⟩ <;> exact (hother _ (by omega) (by omega)).symm
    · split
      · simp only [List.mem_cons, List.not_mem_nil, or_false, not_or]
        refine ⟨?_, ?_, ?_⟩ <;> exact (hother _ (by omega) (by omega)).symm
      · simp only [List.mem_cons, List.not_mem_nil, or_false, not_or]
        refine ⟨?_, ?_, ?_, ?_⟩ <;> exact (hother _ (by omega) (by omega)).symm

/-- A line feed among the octets of a text is a line feed of the text. -/
theorem count_encode (cs : List Char) : (encode cs).count 10 = cs.count '\n' := by
  induction cs with
  | nil => rfl
  | cons c cs ih =>
    rw [encode_cons, List.count_append, ih, count_encodeChar, List.count_cons, Nat.add_comm]
    simp only [beq_iff_eq]

end CodeSearch.Text

import CodeSearch.Proofs.Decimal.Order

/-!
Shares as floating-point numbers.

A share of a whole is more than zero and at most one, and so is its floating-point number: the
quotient is scaled until it has 53 bits and then rounded, which cannot carry it beyond one. Only the
share of a whole of more than a thousand bits could be too small for a normal number.
-/
set_option autoImplicit false

namespace CodeSearch.Decimal

/-! ## Rounded quotients -/

theorem le_roundDiv (num den : Nat) : num / den ≤ roundDiv num den := by
  unfold roundDiv
  dsimp only
  split
  · exact Nat.le_refl _
  · split <;> omega

theorem roundDiv_le (num den : Nat) : roundDiv num den ≤ num / den + 1 := by
  unfold roundDiv
  dsimp only
  split
  · omega
  · split <;> omega

/-- A quotient without a rest is not rounded. -/
theorem roundDiv_mul_self {den : Nat} (hden : 0 < den) (q : Nat) : roundDiv (den * q) den = q := by
  unfold roundDiv
  rw [Nat.mul_mod_right, Nat.mul_zero, if_pos hden, Nat.mul_div_cancel_left q hden]

/-! ## Numbers of 53 bits -/

theorem ofParts_normal {mantissa : Nat} (hlow : 2 ^ 52 ≤ mantissa) (hhigh : mantissa < 2 ^ 53)
    (k : Nat) : ofParts false mantissa (-(k : Int)) =
      Float.ofBits (UInt64.ofNat ((1075 - k) * 2 ^ 52 + (mantissa - 2 ^ 52))) := by
  have htop : mantissa.log2 = 52 := (Nat.log2_eq_iff (by omega)).mpr ⟨hlow, hhigh⟩
  have hbiased : (-(k : Int) + (52 : Nat) + 1023).toNat = 1075 - k := by omega
  have hmantissa : mantissa * 2 ^ (52 - 52) / 2 ^ (52 - 52) = mantissa := by omega
  unfold ofParts
  simp only [Nat.pow_eq]
  rw [if_neg (by omega), htop, hbiased, hmantissa]
  simp only [Bool.false_eq_true, if_false, Nat.zero_add]

theorem ofParts_power (k : Nat) : ofParts false (2 ^ 53) (-(k : Int)) =
    Float.ofBits (UInt64.ofNat ((1076 - k) * 2 ^ 52)) := by
  have htop : (2 ^ 53).log2 = 53 := Nat.log2_two_pow
  have hbiased : (-(k : Int) + (53 : Nat) + 1023).toNat = 1076 - k := by omega
  have hmantissa : 2 ^ 53 * 2 ^ (52 - 53) / 2 ^ (53 - 52) - 2 ^ 52 = 0 := by decide
  unfold ofParts
  simp only [Nat.pow_eq]
  rw [if_neg (by decide), htop, hbiased, hmantissa]
  simp only [Bool.false_eq_true, if_false, Nat.zero_add, Nat.add_zero]

/-- A mantissa of 53 bits or the next power of two, so far to the right that it is at most one. -/
theorem exists_bits {mantissa k : Nat} (hlow : 2 ^ 52 ≤ mantissa) (hhigh : mantissa ≤ 2 ^ 53)
    (hk : 52 ≤ k) (hone : k = 52 → mantissa = 2 ^ 52) :
    ∃ n, ofParts false mantissa (-(k : Int)) = Float.ofBits (UInt64.ofNat n) ∧
      n ≤ 1023 * 2 ^ 52 ∧ (k ≤ 1074 → 0 < n) := by
  rcases Nat.lt_or_eq_of_le hhigh with hless | rfl
  · refine ⟨_, ofParts_normal hlow hless k, ?_, ?_⟩
    · -- at the exponent of one there is one itself only
      rcases Nat.lt_or_eq_of_le hk with hfar | hnear
      · omega
      · have hmantissa := hone hnear.symm
        omega
    · intro hnormal
      omega
  · refine ⟨_, ofParts_power k, ?_, ?_⟩
    · have hfar : k ≠ 52 := fun h => absurd (hone h) (by decide)
      omega
    · intro hnormal
      omega

/-! ## Shares -/

section Scaled

variable {num den : Nat}

theorem log2_le_log2 (hnum : 0 < num) (hle : num ≤ den) : num.log2 ≤ den.log2 :=
  (Nat.le_log2 (by omega)).mpr (Nat.le_trans (Nat.log2_self_le (by omega)) hle)

/-- The quotient of a share, scaled by the difference of the lengths, has 52 or 53 bits. -/
theorem scaled_bounds (hnum : 0 < num) (hle : num ≤ den) :
    2 ^ 51 * den ≤ num * 2 ^ (52 + den.log2 - num.log2) ∧
      num * 2 ^ (52 + den.log2 - num.log2) < 2 ^ 53 * den := by
  have hlog := log2_le_log2 hnum hle
  constructor
  · calc 2 ^ 51 * den
        ≤ 2 ^ 51 * 2 ^ (den.log2 + 1) := Nat.mul_le_mul_left _ (Nat.le_of_lt Nat.lt_log2_self)
      _ = 2 ^ num.log2 * 2 ^ (52 + den.log2 - num.log2) := by
          rw [← Nat.pow_add, ← Nat.pow_add]
          congr 1
          omega
      _ ≤ num * 2 ^ (52 + den.log2 - num.log2) :=
          Nat.mul_le_mul_right _ (Nat.log2_self_le (by omega))
  · calc num * 2 ^ (52 + den.log2 - num.log2)
        < 2 ^ (num.log2 + 1) * 2 ^ (52 + den.log2 - num.log2) :=
          Nat.mul_lt_mul_of_pos_right Nat.lt_log2_self (Nat.two_pow_pos _)
      _ = 2 ^ 53 * 2 ^ den.log2 := by
          rw [← Nat.pow_add, ← Nat.pow_add]
          congr 1
          omega
      _ ≤ 2 ^ 53 * den := Nat.mul_le_mul_left _ (Nat.log2_self_le (by omega))

/-- A share is the rounded quotient, scaled so far that it has 53 bits. -/
theorem exists_scaled (hnum : 0 < num) (hle : num ≤ den) :
    ∃ k : Nat, ratio num den = ofParts false (roundDiv (num * 2 ^ k) den) (-(k : Int)) ∧
      2 ^ 52 ≤ num * 2 ^ k / den ∧ num * 2 ^ k / den < 2 ^ 53 ∧ 52 ≤ k ∧ k ≤ 53 + den.log2 := by
  have hden : 0 < den := by omega
  have hlog := log2_le_log2 hnum hle
  obtain ⟨hlow, hhigh⟩ := scaled_bounds hnum hle
  obtain ⟨k, hk⟩ : ∃ k, k = 52 + den.log2 - num.log2 := ⟨_, rfl⟩
  have hshift : (52 : Int) + den.log2 - num.log2 = (k : Int) := by omega
  rw [← hk] at hlow hhigh
  unfold ratio
  rw [if_neg (by omega)]
  simp only [Nat.pow_eq, hshift, Int.toNat_natCast, Int.toNat_neg_natCast, Nat.pow_zero,
    Nat.mul_one]
  by_cases hshort : num * 2 ^ k / den < 2 ^ 52
  · -- one bit is lacking
    have hless : num * 2 ^ k < 2 ^ 52 * den := (Nat.div_lt_iff_lt_mul hden).mp hshort
    have hdouble : num * 2 ^ (k + 1) = 2 * (num * 2 ^ k) := by rw [Nat.pow_succ]; ring
    have hnext : ((k : Int) + 1) = ((k + 1 : Nat) : Int) := by omega
    rw [if_pos hshort, hnext]
    refine ⟨k + 1, ?_, ?_, ?_, by omega, by omega⟩
    · rw [Int.toNat_natCast, Int.toNat_neg_natCast, Nat.pow_zero, Nat.mul_one]
    · rw [hdouble, Nat.le_div_iff_mul_le hden]
      omega
    · rw [hdouble, Nat.div_lt_iff_lt_mul hden]
      omega
  · rw [if_neg hshort]
    refine ⟨k, ?_, by omega, ?_, by omega, by omega⟩
    · rw [Int.toNat_natCast, Int.toNat_neg_natCast, Nat.pow_zero, Nat.mul_one]
    · exact (Nat.div_lt_iff_lt_mul hden).mpr hhigh

/-- The share of a part in a whole is written by bits that are at most those of one, and not those
of zero unless the whole is beyond all measure. -/
theorem exists_bits_ratio (hnum : 0 < num) (hle : num ≤ den) :
    ∃ n, ratio num den = Float.ofBits (UInt64.ofNat n) ∧
      n ≤ 1023 * 2 ^ 52 ∧ (den.log2 < 1022 → 0 < n) := by
  have hden : 0 < den := by omega
  obtain ⟨k, hratio, hlow, hhigh, hk, hkle⟩ := exists_scaled hnum hle
  have hround := le_roundDiv (num * 2 ^ k) den
  have hround' := roundDiv_le (num * 2 ^ k) den
  -- without a scale beyond the bits of one the part is the whole
  have hwhole : k = 52 → roundDiv (num * 2 ^ k) den = 2 ^ 52 := by
    rintro rfl
    have hnumden : num = den := by
      have := (Nat.le_div_iff_mul_le hden).mp hlow
      omega
    rw [hnumden, roundDiv_mul_self hden]
  have hmantissa : 2 ^ 52 ≤ roundDiv (num * 2 ^ k) den ∧ roundDiv (num * 2 ^ k) den ≤ 2 ^ 53 := by
    omega
  obtain ⟨n, hbits, hle', hpos⟩ := exists_bits hmantissa.1 hmantissa.2 hk hwhole
  refine ⟨n, hratio.trans hbits, hle', fun hsmall => hpos ?_⟩
  omega

/-- A share is a number, and at most one. -/
theorem ratio_le_one (hnum : 0 < num) (hle : num ≤ den) :
    IsNumber (ratio num den) ∧ ratio num den ≤ 1.0 := by
  obtain ⟨n, hbits, hone, -⟩ := exists_bits_ratio hnum hle
  obtain ⟨hnumber, hplace⟩ := isNumber_ofBits (n := n) (by omega)
  have hself : (1.0 : Float) ≤ 1.0 := by decide +kernel
  have hnumber' : IsNumber (1.0 : Float) := (isNumber_of_le hself).1
  have hplace' : place 1.0 = 1023 * 2 ^ 52 := by decide +kernel
  rw [hbits]
  refine ⟨hnumber, (le_iff_place_le hnumber hnumber').mpr ?_⟩
  omega

/-- A share is not less than zero, in however great a whole. -/
theorem zero_le_ratio (hnum : 0 < num) (hle : num ≤ den) : 0.0 ≤ ratio num den := by
  obtain ⟨n, hbits, hone, -⟩ := exists_bits_ratio hnum hle
  obtain ⟨hnumber, hplace⟩ := isNumber_ofBits (n := n) (by omega)
  have hself : (0.0 : Float) ≤ 0.0 := by decide +kernel
  have hnumber' : IsNumber (0.0 : Float) := (isNumber_of_le hself).1
  have hplace' : place 0.0 = 0 := by decide +kernel
  rw [hbits]
  apply (le_iff_place_le hnumber' hnumber).mpr
  omega

/-- A share in a whole that is not beyond all measure is more than zero. -/
theorem ratio_pos (hnum : 0 < num) (hle : num ≤ den) (hsmall : den.log2 < 1022) :
    0.0 < ratio num den := by
  obtain ⟨n, hbits, hone, hpos⟩ := exists_bits_ratio hnum hle
  obtain ⟨hnumber, hplace⟩ := isNumber_ofBits (n := n) (by omega)
  have hself : (0.0 : Float) ≤ 0.0 := by decide +kernel
  have hnumber' : IsNumber (0.0 : Float) := (isNumber_of_le hself).1
  have hplace' : place 0.0 = 0 := by decide +kernel
  have hn := hpos hsmall
  rw [hbits]
  refine (lt_iff_place_lt hnumber' hnumber).mpr ?_
  omega

end Scaled

end CodeSearch.Decimal

import CodeSearch.Proofs.Decimal.Ratio

/-!
Rounded differences.

A finite number is a whole number of units, a unit being the least positive one. The exact
difference of two numbers is a whole number of units too, and what is computed is the number at the
place that this rounds to (`roundedAt`). A greater count of units rounds to no lower place. So a
difference never grows when more is taken away (`one_sub_le_one_sub`), however it is rounded.
-/
set_option autoImplicit false

namespace CodeSearch.Decimal

open Float.Model (UnpackedFloat Format totalExponent)
open Float.Model.UnpackedFloat (ExtendedMantissa Sign roundWithAccuracy shiftToTargetExponent)

/-! ## Places of counts -/

/-- The place that a count of units rounds to: with more than 53 bits it is rounded to 53 of them,
and beyond the greatest number comes infinity. -/
def roundedPlace (n : Nat) : Nat :=
  min ((n.log2 - 52) * 2 ^ 52 + roundDiv n (2 ^ (n.log2 - 52))) (2047 * 2 ^ 52)

/-- The place that a count with a sign rounds to. -/
def roundedAt (v : Int) : Int :=
  v.sign * roundedPlace v.natAbs

theorem roundDiv_mono {den n n' : Nat} (hle : n ≤ n') : roundDiv n den ≤ roundDiv n' den := by
  have hquotient : n / den ≤ n' / den := Nat.div_le_div_right hle
  rcases Nat.lt_or_eq_of_le hquotient with hless | hsame
  · have hup := roundDiv_le n den
    have hdown := le_roundDiv n' den
    omega
  · -- the quotients are the same, so the rests decide
    have hrest : n % den ≤ n' % den := by
      have hn := Nat.div_add_mod n den
      have hn' := Nat.div_add_mod n' den
      rw [hsame] at hn
      omega
    unfold roundDiv
    dsimp only
    rw [hsame]
    split_ifs <;> omega

/-- A count has at most 53 bits left when it is cut to its place, and exactly so many if any are
cut off. -/
theorem quotient_bounds (n : Nat) :
    n / 2 ^ (n.log2 - 52) < 2 ^ 53 ∧ (52 < n.log2 → 2 ^ 52 ≤ n / 2 ^ (n.log2 - 52)) := by
  have hpow : 0 < 2 ^ (n.log2 - 52) := Nat.two_pow_pos _
  constructor
  · rw [Nat.div_lt_iff_lt_mul hpow, ← Nat.pow_add]
    exact Nat.lt_of_lt_of_le Nat.lt_log2_self (Nat.pow_le_pow_right (by decide) (by omega))
  · intro hlong
    have hne : n ≠ 0 := by
      rintro rfl
      simp at hlong
    rw [Nat.le_div_iff_mul_le hpow, ← Nat.pow_add]
    exact Nat.le_trans (Nat.pow_le_pow_right (by decide) (by omega)) (Nat.log2_self_le hne)

theorem roundedPlace_mono {n n' : Nat} (hle : n ≤ n') : roundedPlace n ≤ roundedPlace n' := by
  have hlog : n.log2 ≤ n'.log2 := by
    by_cases hzero : n = 0
    · rw [hzero, Nat.log2_zero]
      exact Nat.zero_le _
    · exact log2_le_log2 (Nat.pos_of_ne_zero hzero) hle
  suffices (n.log2 - 52) * 2 ^ 52 + roundDiv n (2 ^ (n.log2 - 52)) ≤
      (n'.log2 - 52) * 2 ^ 52 + roundDiv n' (2 ^ (n'.log2 - 52)) by
    unfold roundedPlace
    omega
  by_cases hsame : n.log2 - 52 = n'.log2 - 52
  · rw [hsame]
    exact Nat.add_le_add_left (roundDiv_mono hle) _
  · -- the greater count has more bits, and stays above the next power of two
    have hup := roundDiv_le n (2 ^ (n.log2 - 52))
    have hdown := le_roundDiv n' (2 ^ (n'.log2 - 52))
    have hshort := (quotient_bounds n).1
    have hlong := (quotient_bounds n').2 (by omega)
    omega

theorem roundedAt_mono {v v' : Int} (hle : v ≤ v') : roundedAt v ≤ roundedAt v' := by
  have hzero : roundedPlace 0 = 0 := by decide
  have hcases : ∀ v : Int, 0 ≤ v ∧ roundedAt v = roundedPlace v.natAbs ∨
      v < 0 ∧ roundedAt v = -roundedPlace v.natAbs := by
    intro v
    unfold roundedAt
    rcases Int.lt_trichotomy v 0 with hneg | rfl | hpos
    · rw [Int.sign_eq_neg_one_of_neg hneg]
      exact Or.inr ⟨hneg, by omega⟩
    · exact Or.inl ⟨Int.le_refl 0, by simp [hzero]⟩
    · rw [Int.sign_eq_one_of_pos hpos]
      exact Or.inl ⟨by omega, by omega⟩
  rcases hcases v with ⟨hv, hat⟩ | ⟨hv, hat⟩ <;> rcases hcases v' with ⟨hv', hat'⟩ | ⟨hv', hat'⟩
  · have hsizes : v.natAbs ≤ v'.natAbs := by omega
    have hmono := roundedPlace_mono hsizes
    omega
  · omega
  · omega
  · have hsizes : v'.natAbs ≤ v.natAbs := by omega
    have hmono := roundedPlace_mono hsizes
    omega

/-! ## Rounding as it is done

The bits that are shifted out of a mantissa are kept as two: the last one, and whether there is a one
among the others. -/

/-- After some shifts the two bits tell how the rest compares with a half. -/
theorem shiftRight_eq (m k : Nat) :
    (ExtendedMantissa.mk m false false >>> k) =
      ⟨m / 2 ^ k, decide (2 ^ k ≤ 2 * (m % 2 ^ k)), decide (2 * (m % 2 ^ k) % 2 ^ k ≠ 0)⟩ := by
  induction k with
  | zero => simp [HShiftRight.hShiftRight, Nat.repeat, Nat.mod_one]
  | succ k ih =>
    show ExtendedMantissa.shiftRightOne (ExtendedMantissa.mk m false false >>> k) = _
    rw [ih, ExtendedMantissa.shiftRightOne, Nat.mod_pow_succ, Nat.pow_succ,
      ← Nat.div_div_eq_div_mul]
    have hrest : m % 2 ^ k < 2 ^ k := Nat.mod_lt _ (Nat.two_pow_pos k)
    generalize 2 ^ k = p at hrest ⊢
    generalize m % p = r at hrest ⊢
    -- there is a one among the others exactly if there was a rest
    have hothers : (p ≤ 2 * r ∨ 2 * r % p ≠ 0) ↔ r ≠ 0 := by
      by_cases hhalf : p ≤ 2 * r
      · exact ⟨fun _ => by omega, fun _ => Or.inl hhalf⟩
      · rw [Nat.mod_eq_of_lt (by omega)]
        omega
    have hothers' : 2 * (r + p * (m / p % 2)) % (p * 2) ≠ 0 ↔ r ≠ 0 := by
      rw [show 2 * (r + p * (m / p % 2)) = 2 * r + p * 2 * (m / p % 2) by ring,
        Nat.add_mul_mod_self_left, Nat.mod_eq_of_lt (by omega)]
      omega
    have hlast : m / p % 2 ≠ 0 ↔ p * 2 ≤ 2 * (r + p * (m / p % 2)) := by
      rcases Nat.mod_two_eq_zero_or_one (m / p) with hbit | hbit
      · rw [hbit]
        omega
      · rw [hbit]
        omega
    congr 1
    · rw [Bool.eq_iff_iff, bne_iff_ne, decide_eq_true_iff]
      exact hlast
    · rw [← Bool.decide_or, decide_eq_decide.mpr (hothers.trans hothers'.symm)]

/-- A mantissa that is shifted and rounded is the rounded quotient. -/
theorem roundedMantissa_shiftRight (m k : Nat) :
    (ExtendedMantissa.mk m false false >>> k).roundedMantissa = roundDiv m (2 ^ k) := by
  have hrest : m % 2 ^ k < 2 ^ k := Nat.mod_lt _ (Nat.two_pow_pos k)
  rw [shiftRight_eq]
  unfold roundDiv ExtendedMantissa.roundedMantissa
  dsimp only
  generalize 2 ^ k = p at hrest ⊢
  generalize m % p = r at hrest ⊢
  by_cases hhalf : p ≤ 2 * r
  · have hover : 2 * r % p = 2 * r - p := by
      rw [Nat.mod_eq_sub_mod hhalf, Nat.mod_eq_of_lt (by omega)]
    by_cases hexact : 2 * r = p
    · have hnone : ¬ 2 * r % p ≠ 0 := by omega
      rw [decide_eq_true hhalf, decide_eq_false hnone, if_neg (by omega), if_neg (by omega)]
      rfl
    · have hsome : 2 * r % p ≠ 0 := by omega
      rw [decide_eq_true hhalf, decide_eq_true hsome, if_neg (by omega), if_pos (by omega)]
      rfl
  · rw [decide_eq_false hhalf, if_pos (by omega)]
    cases decide (2 * r % p ≠ 0) with
    | true => rfl
    | false => rfl

theorem roundDiv_mul_right {c : Nat} (hc : 0 < c) (num den : Nat) :
    roundDiv (num * c) (den * c) = roundDiv num den := by
  unfold roundDiv
  dsimp only
  rw [Nat.mul_div_mul_right _ _ hc, Nat.mul_mod_mul_right, ← Nat.mul_assoc]
  simp only [Nat.mul_lt_mul_right hc]

/-- The exponent that a mantissa with an exponent is brought to. -/
theorem target_eq (m : Nat) (e : Int) :
    Format.binary64.targetExponent (totalExponent m e) = max (m.log2 + e - 52) (-1074) := by
  have hleast : Format.binary64.minExponent = -1074 := rfl
  have hbits : (Format.binary64.mantissaBits : Int) = 53 := rfl
  unfold Format.targetExponent totalExponent
  rw [hleast, hbits]
  omega

/-- How many units a mantissa with an exponent stands for. -/
def count (m : Nat) (e : Int) : Nat :=
  m * 2 ^ (e + 1074).toNat

theorem log2_mul_two_pow {m : Nat} (hm : 0 < m) (j : Nat) : (m * 2 ^ j).log2 = m.log2 + j := by
  have hpow : 0 < 2 ^ j := Nat.two_pow_pos j
  have hne : m * 2 ^ j ≠ 0 := Nat.mul_ne_zero (by omega) (by omega)
  refine (Nat.log2_eq_iff hne).mpr ⟨?_, ?_⟩
  · rw [Nat.pow_add]
    exact Nat.mul_le_mul_right _ (Nat.log2_self_le (by omega))
  · rw [Nat.add_right_comm, Nat.pow_add]
    exact Nat.mul_lt_mul_of_pos_right Nat.lt_log2_self hpow

theorem log2_count {m : Nat} (hm : 0 < m) {e : Int} (he : -1074 ≤ e) :
    ((count m e).log2 : Int) = m.log2 + e + 1074 := by
  have hlog : (count m e).log2 = m.log2 + (e + 1074).toNat := log2_mul_two_pow hm _
  omega

theorem target_eq_cut {m : Nat} (hm : 0 < m) {e : Int} (he : -1074 ≤ e) :
    Format.binary64.targetExponent (totalExponent m e) =
      ((count m e).log2 - 52 : Nat) - (1074 : Int) := by
  have hlog := log2_count hm he
  rw [target_eq]
  omega

/-- A number with a sign that is what a count of units is rounded to, with whatever exponent that
takes. -/
def RoundedTo (s : Sign) (n : Nat) (u : UnpackedFloat) : Prop :=
  ∃ m e hm, u = .finite s m e hm ∧ m < 2 ^ 53 ∧ -1074 ≤ e ∧ (2 ^ 52 ≤ m ∨ e = -1074) ∧
    (e + 1074) * 2 ^ 52 + m =
      ((n.log2 - 52 : Nat) : Int) * 2 ^ 52 + roundDiv n (2 ^ (n.log2 - 52))

theorem shiftToTargetExponent_eq (m : Nat) (e : Int) {k : Nat}
    (hk : (Format.binary64.targetExponent (totalExponent m e) - e).toNat = k) :
    shiftToTargetExponent Format.binary64 m e .exact =
      (ExtendedMantissa.mk m false false >>> k, e + k) := by
  rw [← hk]
  rfl

/-- Too many bits are shifted out and the rest is rounded. If that carries into a bit more, one more
shift brings the mantissa back to its length. -/
theorem roundedTo_roundWithAccuracy (s : Sign) {m : Nat} (hm : 0 < m) {e : Int} (he : -1074 ≤ e)
    (hshort : e + 1074 ≤ ((count m e).log2 - 52 : Nat)) :
    RoundedTo s (count m e) (roundWithAccuracy Format.binary64 s m e .exact) := by
  obtain ⟨cut, hcut⟩ : ∃ cut, cut = (count m e).log2 - 52 := ⟨_, rfl⟩
  obtain ⟨q, hq⟩ : ∃ q, q = roundDiv (count m e) (2 ^ cut) := ⟨_, rfl⟩
  obtain ⟨k, hk⟩ : ∃ k : Nat, (cut : Int) = e + 1074 + k := ⟨(cut - (e + 1074)).toNat, by omega⟩
  have hpos : 0 < count m e := Nat.mul_pos hm (Nat.two_pow_pos _)
  -- the first shift leaves the rounded quotient
  have hfirst : shiftToTargetExponent Format.binary64 m e .exact =
      (ExtendedMantissa.mk m false false >>> k, e + k) := by
    apply shiftToTargetExponent_eq
    rw [target_eq_cut hm he, ← hcut]
    omega
  have hrounded : (ExtendedMantissa.mk m false false >>> k).roundedMantissa = q := by
    have hpow : 2 ^ cut = 2 ^ k * 2 ^ (e + 1074).toNat := by
      rw [← Nat.pow_add]
      congr 1
      omega
    rw [roundedMantissa_shiftRight, hq, hpow, count, roundDiv_mul_right (Nat.two_pow_pos _)]
  have hbounds : q ≤ 2 ^ 53 ∧ 0 < q ∧ (2 ^ 52 ≤ q ∨ cut = 0) := by
    have hquotient := quotient_bounds (count m e)
    have hup := roundDiv_le (count m e) (2 ^ cut)
    have hdown := le_roundDiv (count m e) (2 ^ cut)
    rw [← hcut] at hquotient
    by_cases hnone : cut = 0
    · simp only [hnone, Nat.pow_zero, Nat.div_one] at hq hdown hup hquotient
      omega
    · have hlong := hquotient.2 (by omega)
      omega
  have hround : roundWithAccuracy Format.binary64 s m e .exact =
      if h : (shiftToTargetExponent Format.binary64 q (e + k) .exact).1.mantissa = 0 then .zero s
      else .finite s (shiftToTargetExponent Format.binary64 q (e + k) .exact).1.mantissa
        (shiftToTargetExponent Format.binary64 q (e + k) .exact).2 (Nat.pos_of_ne_zero h) := by
    unfold roundWithAccuracy
    rw [hfirst]
    dsimp only
    simp only [hrounded]
  by_cases hcarry : q < 2 ^ 53
  · have hlog : q.log2 < 53 := (Nat.log2_lt (by omega)).mpr hcarry
    have hsecond : shiftToTargetExponent Format.binary64 q (e + k) .exact =
        (ExtendedMantissa.mk q false false, e + k) := by
      rw [shiftToTargetExponent_eq q (e + k) (k := 0) (by rw [target_eq]; omega)]
      exact Prod.ext rfl (Int.add_zero _)
    have hne : q ≠ 0 := by omega
    refine ⟨q, e + k, by omega, ?_, hcarry, by omega, by omega, ?_⟩
    · rw [hround, hsecond, dif_neg hne]
    · rw [← hcut, ← hq]
      omega
  · have hfull : q = 2 ^ 53 := by omega
    have hsecond : shiftToTargetExponent Format.binary64 q (e + k) .exact =
        (ExtendedMantissa.mk (2 ^ 52) false false, e + k + 1) := by
      rw [hfull, shiftToTargetExponent_eq (2 ^ 53) (e + k) (k := 1)
        (by rw [target_eq, Nat.log2_two_pow]; omega)]
      rfl
    refine ⟨2 ^ 52, e + k + 1, by decide, ?_, by decide, by omega, Or.inl (Nat.le_refl _), ?_⟩
    · rw [hround, hsecond, dif_neg (Nat.ne_of_gt (Nat.two_pow_pos 52))]
    · rw [← hcut, ← hq, hfull]
      omega

/-- With bits to spare the mantissa is first made longer, which leaves the count as it is. -/
theorem roundedTo_round (s : Sign) {m : Nat} (hm : 0 < m) {e : Int} (he : -1074 ≤ e) :
    RoundedTo s (count m e) (UnpackedFloat.round Format.binary64 s m e) := by
  have htarget := target_eq_cut hm he
  obtain ⟨j, hj⟩ : ∃ j, j = (e - Format.binary64.targetExponent (totalExponent m e)).toNat :=
    ⟨_, rfl⟩
  have hround : UnpackedFloat.round Format.binary64 s m e =
      roundWithAccuracy Format.binary64 s (m * 2 ^ j) (e - j) .exact := by
    rw [← Nat.shiftLeft_eq, hj]
    rfl
  have hlow : -1074 ≤ e - j := by omega
  have hcount : count (m * 2 ^ j) (e - j) = count m e := by
    unfold count
    rw [Nat.mul_assoc, ← Nat.pow_add]
    congr 2
    omega
  rw [hround, ← hcount]
  apply roundedTo_roundWithAccuracy s (Nat.mul_pos hm (Nat.two_pow_pos j)) hlow
  rw [hcount]
  omega

/-- Written in bits, what is too large becomes infinite. -/
theorem placeOf_pack {s : Sign} {n : Nat} {u : UnpackedFloat} (h : RoundedTo s n u) :
    UnpackedFloat.unpack Format.binary64 (UnpackedFloat.pack Format.binary64 u) ≠ .notANumber ∧
      placeOf (UnpackedFloat.unpack Format.binary64 (UnpackedFloat.pack Format.binary64 u)) =
        s.apply (roundedPlace n) := by
  obtain ⟨m, e, hm, rfl, hlength, hlow, hnormal, hplace⟩ := h
  have hrounded : (roundedPlace n : Int) = min ((e + 1074) * 2 ^ 52 + m) (2047 * 2 ^ 52) := by
    unfold roundedPlace
    push_cast
    omega
  by_cases hfits : e ≤ 971
  · have hcanonical : Canonical (.finite s m e hm) := ⟨hlength, hlow, hfits, hnormal⟩
    rw [unpack_pack hcanonical]
    refine ⟨by simp, ?_⟩
    rw [placeOf, hrounded]
    congr 1
    omega
  · have hlarge : 2 ^ Format.binary64.exponentBits ≤ (e + Format.binary64.exponentBias +
        Format.binary64.mantissaBitsWithoutImplicit).toNat + 1 := by
      show 2 ^ 11 ≤ (e + (1023 : Nat) + (52 : Nat)).toNat + 1
      omega
    have hinfinite : UnpackedFloat.unpack Format.binary64
        (UnpackedFloat.pack Format.binary64 (.finite s m e hm)) = .infinity s := by
      have hpack : UnpackedFloat.pack Format.binary64 (.finite s m e hm) =
          UnpackedFloat.pack Format.binary64 (.infinity s) := by
        rw [UnpackedFloat.pack]
        exact if_pos hlarge
      rw [hpack]
      exact unpack_pack (u := .infinity s) trivial
    rw [hinfinite]
    refine ⟨by simp, ?_⟩
    rw [placeOf, hrounded]
    congr 1
    omega

/-- The place that a mantissa with a sign of its own is rounded to is that of its count. -/
theorem placeOf_normalize (v : Int) {e : Int} (he : -1074 ≤ e) :
    UnpackedFloat.unpack Format.binary64 (UnpackedFloat.pack Format.binary64
        (UnpackedFloat.normalize Format.binary64 v e .positive)) ≠ .notANumber ∧
      placeOf (UnpackedFloat.unpack Format.binary64 (UnpackedFloat.pack Format.binary64
        (UnpackedFloat.normalize Format.binary64 v e .positive))) =
          roundedAt (v * 2 ^ (e + 1074).toNat) := by
  have hpow : (0 : Int) < 2 ^ (e + 1074).toNat := by positivity
  have habs : (v * 2 ^ (e + 1074).toNat).natAbs = count v.natAbs e := by
    rw [Int.natAbs_mul, count, Int.natAbs_pow]
    rfl
  have hsign : (v * 2 ^ (e + 1074).toNat).sign = v.sign := by
    rw [Int.sign_mul, Int.sign_eq_one_of_pos hpow, Int.mul_one]
  rw [roundedAt, habs, hsign]
  unfold UnpackedFloat.normalize
  rcases Int.lt_trichotomy v 0 with hneg | rfl | hpos
  · have hnat : (-v).toNat = v.natAbs := by omega
    obtain ⟨hnumber, hplace⟩ :=
      placeOf_pack (roundedTo_round .negative (m := v.natAbs) (by omega) he)
    rw [Int.compare_eq_lt.mpr hneg]
    dsimp only
    rw [hnat]
    refine ⟨hnumber, ?_⟩
    rw [hplace, Int.sign_eq_neg_one_of_neg hneg, Sign.apply]
    omega
  · have hzero : UnpackedFloat.unpack Format.binary64 (UnpackedFloat.pack Format.binary64
        (.zero .positive)) = .zero .positive := unpack_pack trivial
    rw [Int.compare_eq_eq.mpr rfl]
    dsimp only
    rw [hzero, Int.sign_zero, Int.zero_mul]
    exact ⟨by simp, rfl⟩
  · have hnat : v.toNat = v.natAbs := by omega
    obtain ⟨hnumber, hplace⟩ :=
      placeOf_pack (roundedTo_round .positive (m := v.natAbs) (by omega) he)
    rw [Int.compare_eq_gt.mpr hpos]
    dsimp only
    rw [hnat]
    refine ⟨hnumber, ?_⟩
    rw [hplace, Int.sign_eq_one_of_pos hpos, Sign.apply]
    omega

/-! ## Counts of numbers -/

/-- How many units a number is; a number that is not finite has none. -/
def unitsOf : UnpackedFloat → Int
  | .finite s m e _ => s.apply (count m e)
  | _ => 0

/-- Whether a number is finite. -/
def IsFinite : UnpackedFloat → Prop
  | .finite .. | .zero _ => True
  | _ => False

/-- Of two finite numbers the one with the higher place is more units. -/
theorem count_le_count {m n : Nat} {k l : Int} (hm : m < 2 ^ 53) (hn : n < 2 ^ 53)
    (hk : -1074 ≤ k) (hl : -1074 ≤ l) (hnormal : 2 ^ 52 ≤ n ∨ l = -1074)
    (hnormal' : 2 ^ 52 ≤ m ∨ k = -1074)
    (hle : (k + 1074) * 2 ^ 52 + (m : Int) ≤ (l + 1074) * 2 ^ 52 + (n : Int)) :
    count m k ≤ count n l := by
  unfold count
  rcases Int.lt_trichotomy k l with hless | rfl | hmore
  · -- the mantissa at the greater exponent has its full length
    obtain ⟨d, hd⟩ : ∃ d, (l + 1074).toNat = (k + 1074).toNat + 1 + d :=
      ⟨(l + 1074).toNat - ((k + 1074).toNat + 1), by omega⟩
    calc m * 2 ^ (k + 1074).toNat
        ≤ 2 ^ 53 * 2 ^ (k + 1074).toNat := Nat.mul_le_mul_right _ (by omega)
      _ = 2 ^ 52 * 2 ^ ((k + 1074).toNat + 1) := by ring
      _ ≤ n * 2 ^ ((k + 1074).toNat + 1) := Nat.mul_le_mul_right _ (by omega)
      _ ≤ n * 2 ^ (l + 1074).toNat := by
          rw [hd]
          exact Nat.mul_le_mul_left _ (Nat.pow_le_pow_right (by decide) (by omega))
  · exact Nat.mul_le_mul_right _ (by omega)
  · omega

theorem unitsOf_le_unitsOf {a b : UnpackedFloat} (ha : Canonical a) (hb : Canonical b)
    (hafinite : IsFinite a) (hbfinite : IsFinite b) (hle : placeOf a ≤ placeOf b) :
    unitsOf a ≤ unitsOf b := by
  -- a number that is not zero has its sign at its place and in its units
  cases a with
  | infinity s => exact absurd hafinite id
  | notANumber => exact absurd hafinite id
  | zero s =>
    cases b with
    | infinity t => exact absurd hbfinite id
    | notANumber => exact absurd hbfinite id
    | zero t => exact Int.le_refl 0
    | finite t n l hn =>
      obtain ⟨hnlt, hllow, hlhigh, hl⟩ := hb
      cases t <;> simp only [placeOf, unitsOf, Sign.apply] at hle ⊢ <;> omega
  | finite s m k hm =>
    obtain ⟨hmlt, hklow, hkhigh, hk⟩ := ha
    cases b with
    | infinity t => exact absurd hbfinite id
    | notANumber => exact absurd hbfinite id
    | zero t => cases s <;> simp only [placeOf, unitsOf, Sign.apply] at hle ⊢ <;> omega
    | finite t n l hn =>
      obtain ⟨hnlt, hllow, hlhigh, hl⟩ := hb
      cases s <;> cases t <;> simp only [placeOf, unitsOf, Sign.apply] at hle ⊢
      · have hcount := count_le_count hnlt hmlt hllow hklow hk hl (by omega)
        omega
      · omega
      · omega
      · have hcount := count_le_count hmlt hnlt hklow hllow hl hk hle
        omega

/-! ## Differences from one -/

/-- The difference of two numbers that are finite and not zero is where its exact count rounds to. -/
theorem placeOf_sub {s t : Sign} {m n : Nat} {k l : Int} (hm : 0 < m) (hn : 0 < n)
    (hk : -1074 ≤ k) (hl : -1074 ≤ l) :
    UnpackedFloat.unpack Format.binary64 (UnpackedFloat.pack Format.binary64
        (UnpackedFloat.sub Format.binary64 (.finite s m k hm) (.finite t n l hn))) ≠ .notANumber ∧
      placeOf (UnpackedFloat.unpack Format.binary64 (UnpackedFloat.pack Format.binary64
        (UnpackedFloat.sub Format.binary64 (.finite s m k hm) (.finite t n l hn)))) =
          roundedAt (unitsOf (.finite s m k hm) - unitsOf (.finite t n l hn)) := by
  have hscaled : ∀ (s : Sign) (m : Nat) (e : Int), min k l ≤ e →
      s.apply (m <<< (e - min k l).toNat : Nat) * 2 ^ (min k l + 1074).toNat =
        s.apply (count m e) := by
    intro s m e hleast
    have hcount : m <<< (e - min k l).toNat * 2 ^ (min k l + 1074).toNat = count m e := by
      rw [Nat.shiftLeft_eq, count, Nat.mul_assoc, ← Nat.pow_add]
      congr 2
      omega
    rw [← hcount]
    cases s <;> simp [Sign.apply]
  have hsub : UnpackedFloat.sub Format.binary64 (.finite s m k hm) (.finite t n l hn) =
      UnpackedFloat.normalize Format.binary64 (s.apply (m <<< (k - min k l).toNat : Nat) -
        t.apply (n <<< (l - min k l).toNat : Nat)) (min k l) .positive := rfl
  rw [hsub, unitsOf, unitsOf, ← hscaled s m k (Int.min_le_left k l),
    ← hscaled t n l (Int.min_le_right k l), ← Int.sub_mul]
  exact placeOf_normalize _ (by omega)

/-- The parts of one. -/
theorem unpack_one :
    (1.0 : Float).toModel.unpack = .finite .positive (2 ^ 52) (-52) (Nat.two_pow_pos 52) := by
  rfl

theorem unpack_sub (x y : Float) : (x - y).toModel.unpack =
    UnpackedFloat.unpack Format.binary64 (UnpackedFloat.pack Format.binary64
      (UnpackedFloat.sub Format.binary64 x.toModel.unpack y.toModel.unpack)) :=
  rfl

/-- The place of what a number leaves of one. -/
def placeLeft : UnpackedFloat → Int
  | .infinity s => -s.apply (2047 * 2 ^ 52)
  | u => roundedAt (2 ^ 1074 - unitsOf u)

/-- What a number leaves of one is a number. -/
theorem place_one_sub {x : Float} (hx : IsNumber x) :
    IsNumber (1.0 - x) ∧ place (1.0 - x) = placeLeft x.toModel.unpack := by
  have hcanonical := canonical_toModel x
  unfold IsNumber place at *
  rw [unpack_sub, unpack_one]
  cases hparts : x.toModel.unpack with
  | notANumber => exact absurd hparts hx
  | infinity s =>
    have hunpack : UnpackedFloat.unpack Format.binary64 (UnpackedFloat.pack Format.binary64
        (.infinity (-s))) = .infinity (-s) := unpack_pack trivial
    refine ⟨?_, ?_⟩
    · show UnpackedFloat.unpack Format.binary64 (UnpackedFloat.pack Format.binary64
        (.infinity (-s))) ≠ _
      rw [hunpack]
      simp
    · show placeOf (UnpackedFloat.unpack Format.binary64 (UnpackedFloat.pack Format.binary64
        (.infinity (-s)))) = _
      rw [hunpack]
      cases s <;> rfl
  | zero s =>
    have hone : UnpackedFloat.sub Format.binary64
        (.finite .positive (2 ^ 52) (-52) (Nat.two_pow_pos 52)) (.zero s) =
          .finite .positive (2 ^ 52) (-52) (Nat.two_pow_pos 52) := rfl
    have hunpack : UnpackedFloat.unpack Format.binary64 (UnpackedFloat.pack Format.binary64
        (.finite .positive (2 ^ 52) (-52) (Nat.two_pow_pos 52))) =
          .finite .positive (2 ^ 52) (-52) (Nat.two_pow_pos 52) :=
      unpack_pack ⟨by decide, by decide, by decide, Or.inl (Nat.le_refl _)⟩
    have hplace : (1023 * 2 ^ 52 : Int) = roundedAt (2 ^ 1074 - 0) := by
      decide +kernel
    rw [hone, hunpack]
    exact ⟨by simp, hplace⟩
  | finite s m e hm =>
    rw [hparts] at hcanonical
    obtain ⟨hlength, hlow, hhigh, hnormal⟩ := hcanonical
    have hunits : unitsOf (.finite .positive (2 ^ 52) (-52) (Nat.two_pow_pos 52)) = 2 ^ 1074 := by
      decide +kernel
    rw [placeLeft, ← hunits]
    · exact placeOf_sub _ hm (by decide) hlow
    · simp

theorem roundedAt_bounds (v : Int) :
    -(2047 * 2 ^ 52) ≤ roundedAt v ∧ roundedAt v ≤ 2047 * 2 ^ 52 := by
  have hplace : roundedPlace v.natAbs ≤ 2047 * 2 ^ 52 := Nat.min_le_right _ _
  unfold roundedAt
  rcases Int.sign_trichotomy v with hsign | hsign | hsign <;> rw [hsign] <;> omega

/-- Only infinity is at the last place. -/
theorem placeOf_bounds {u : UnpackedFloat} (h : Canonical u) (hfinite : IsFinite u) :
    -(2047 * 2 ^ 52) < placeOf u ∧ placeOf u < 2047 * 2 ^ 52 := by
  cases u with
  | infinity s => exact absurd hfinite id
  | notANumber => exact absurd hfinite id
  | zero s =>
    simp only [placeOf]
    omega
  | finite s m e hm =>
    obtain ⟨hlength, hlow, hhigh, hnormal⟩ := h
    cases s <;> simp only [placeOf, Sign.apply] <;> omega

/-- The more is taken away from one, the less is left. -/
theorem placeLeft_le_placeLeft {a b : UnpackedFloat} (ha : Canonical a) (hb : Canonical b)
    (hanum : a ≠ .notANumber) (hbnum : b ≠ .notANumber) (hle : placeOf a ≤ placeOf b) :
    placeLeft b ≤ placeLeft a := by
  have hleft : ∀ {u : UnpackedFloat}, IsFinite u → placeLeft u = roundedAt (2 ^ 1074 - unitsOf u) := by
    intro u hu
    cases u with
    | infinity s => exact absurd hu id
    | _ => rfl
  have hcases : ∀ {u : UnpackedFloat}, u ≠ .notANumber → IsFinite u ∨ u = .infinity .positive ∨
      u = .infinity .negative := by
    intro u hu
    cases u with
    | infinity s => cases s <;> simp
    | notANumber => exact absurd rfl hu
    | _ => exact Or.inl trivial
  rcases hcases hanum with hafinite | rfl | rfl <;> rcases hcases hbnum with hbfinite | rfl | rfl
  · rw [hleft hafinite, hleft hbfinite]
    apply roundedAt_mono
    have hunits := unitsOf_le_unitsOf ha hb hafinite hbfinite hle
    omega
  · rw [hleft hafinite]
    exact (roundedAt_bounds _).1
  · -- nothing is below negative infinity but itself
    have hplace := (placeOf_bounds ha hafinite).1
    have hlast : placeOf (.infinity .negative) = -(2047 * 2 ^ 52) := rfl
    omega
  · have hplace := (placeOf_bounds hb hbfinite).2
    have hlast : placeOf (.infinity .positive) = 2047 * 2 ^ 52 := rfl
    omega
  · exact Int.le_refl _
  · exact absurd hle (by decide)
  · rw [hleft hbfinite]
    exact (roundedAt_bounds _).2
  · decide
  · exact Int.le_refl _

theorem one_sub_le_one_sub {x y : Float} (hle : x ≤ y) : 1.0 - y ≤ 1.0 - x := by
  obtain ⟨hx, hy⟩ := isNumber_of_le hle
  obtain ⟨hxleft, hxplace⟩ := place_one_sub hx
  obtain ⟨hyleft, hyplace⟩ := place_one_sub hy
  rw [le_iff_place_le hyleft hxleft, hxplace, hyplace]
  exact placeLeft_le_placeLeft (canonical_toModel x) (canonical_toModel y) hx hy
    ((le_iff_place_le hx hy).mp hle)

end CodeSearch.Decimal

import CodeSearch.Decimal.Binary
import Mathlib

/-!
The order of floating-point numbers.

Floating-point numbers are compared by their exponents and mantissas, and a number that is none is
comparable with nothing. All others stand in a row in which each has a whole number for its place
(`place`), zero being at zero whatever its sign, and they are compared as these places are. So
everything that is known of the order of whole numbers holds of floating-point numbers too, once it
is known that each of them is a number.
-/
set_option autoImplicit false

namespace CodeSearch.Decimal

open Float.Model (UnpackedFloat Format)
open Float.Model.UnpackedFloat (Sign)

/-! ## Numbers taken apart -/

/-- What the parts of a number are like that is written in 64 bits. -/
def Canonical : UnpackedFloat → Prop
  | .finite _ mantissa exponent _ =>
    mantissa < 2 ^ 53 ∧ -1074 ≤ exponent ∧ exponent ≤ 971 ∧ (2 ^ 52 ≤ mantissa ∨ exponent = -1074)
  | _ => True

/-- The place of a number in the row of all numbers. -/
def placeOf : UnpackedFloat → Int
  | .infinity s => s.apply (2047 * 2 ^ 52)
  | .notANumber | .zero _ => 0
  | .finite s mantissa exponent _ => s.apply ((exponent + 1074) * 2 ^ 52 + mantissa)

/-- With parts like that the greater exponent decides, and then the greater mantissa. -/
theorem compare_then_eq {m n : Nat} {k l : Int} (hm : m < 2 ^ 53) (hn : n < 2 ^ 53)
    (hk : 2 ^ 52 ≤ m ∨ k = -1074) (hl : 2 ^ 52 ≤ n ∨ l = -1074) (hklow : -1074 ≤ k)
    (hllow : -1074 ≤ l) :
    (compare k l).then (compare m n) =
      compare ((k + 1074) * 2 ^ 52 + (m : Int)) ((l + 1074) * 2 ^ 52 + (n : Int)) := by
  rcases Int.lt_trichotomy k l with hlt | rfl | hlt
  · -- the number with the greater exponent is a normal one
    have hplaces : (k + 1074) * 2 ^ 52 + (m : Int) < (l + 1074) * 2 ^ 52 + (n : Int) := by omega
    rw [Int.compare_eq_lt.mpr hlt, Int.compare_eq_lt.mpr hplaces]
    rfl
  · rw [Int.compare_eq_eq.mpr rfl, Ordering.eq_then]
    rcases Nat.lt_trichotomy m n with hlt | rfl | hlt
    · rw [Nat.compare_eq_lt.mpr hlt, eq_comm, Int.compare_eq_lt]
      omega
    · rw [Nat.compare_eq_eq.mpr rfl, eq_comm, Int.compare_eq_eq]
    · rw [Nat.compare_eq_gt.mpr hlt, eq_comm, Int.compare_eq_gt]
      omega
  · have hplaces : (l + 1074) * 2 ^ 52 + (n : Int) < (k + 1074) * 2 ^ 52 + (m : Int) := by omega
    rw [Int.compare_eq_gt.mpr hlt, Int.compare_eq_gt.mpr hplaces]
    rfl

theorem compare_neg (a b : Int) : compare (-a) (-b) = compare b a := by
  rcases Int.lt_trichotomy a b with hlt | rfl | hlt
  · rw [Int.compare_eq_gt.mpr hlt, Int.compare_eq_gt]
    omega
  · rw [Int.compare_eq_eq.mpr rfl, Int.compare_eq_eq.mpr rfl]
  · rw [Int.compare_eq_lt.mpr hlt, Int.compare_eq_lt]
    omega

/-- Two numbers are compared as their places are. -/
theorem compare_eq {a b : UnpackedFloat} (ha : Canonical a) (hb : Canonical b)
    (hanum : a ≠ .notANumber) (hbnum : b ≠ .notANumber) :
    a.compare b = some (compare (placeOf a) (placeOf b)) := by
  cases a with
  | notANumber => exact absurd rfl hanum
  | infinity s =>
    cases b with
    | notANumber => exact absurd rfl hbnum
    | infinity t => cases s <;> cases t <;> rfl
    | zero t => cases s <;> rfl
    | finite t n l hn =>
      obtain ⟨hnlt, hllow, hlhigh, hl⟩ := hb
      cases s <;> cases t <;>
        simp only [UnpackedFloat.compare, placeOf, Sign.apply, Option.some.injEq] <;>
        first
        | (rw [eq_comm, Int.compare_eq_lt]; omega)
        | (rw [eq_comm, Int.compare_eq_gt]; omega)
  | zero s =>
    cases b with
    | notANumber => exact absurd rfl hbnum
    | infinity t => cases t <;> rfl
    | zero t => rfl
    | finite t n l hn =>
      obtain ⟨hnlt, hllow, hlhigh, hl⟩ := hb
      cases t <;> simp only [UnpackedFloat.compare, placeOf, Sign.apply, Option.some.injEq]
      · rw [eq_comm, Int.compare_eq_gt]; omega
      · rw [eq_comm, Int.compare_eq_lt]; omega
  | finite s m k hm =>
    obtain ⟨hmlt, hklow, hkhigh, hk⟩ := ha
    cases b with
    | notANumber => exact absurd rfl hbnum
    | infinity t =>
      cases s <;> cases t <;>
        simp only [UnpackedFloat.compare, placeOf, Sign.apply, Option.some.injEq] <;>
        first
        | (rw [eq_comm, Int.compare_eq_lt]; omega)
        | (rw [eq_comm, Int.compare_eq_gt]; omega)
    | zero t =>
      cases s <;> simp only [UnpackedFloat.compare, placeOf, Sign.apply, Option.some.injEq]
      · rw [eq_comm, Int.compare_eq_lt]; omega
      · rw [eq_comm, Int.compare_eq_gt]; omega
    | finite t n l hn =>
      obtain ⟨hnlt, hllow, hlhigh, hl⟩ := hb
      have hsame := compare_then_eq hmlt hnlt hk hl hklow hllow
      cases s <;> cases t <;>
        simp only [UnpackedFloat.compare, placeOf, Sign.apply, Option.some.injEq]
      · rw [hsame, Int.compare_swap, compare_neg]
      · rw [eq_comm, Int.compare_eq_lt]; omega
      · rw [eq_comm, Int.compare_eq_gt]; omega
      · exact hsame

/-! ## Numbers written in bits -/

/-- The number that a sign, an exponent and a fraction stand for. -/
def ofFields (s : Sign) (exponent : BitVec 11) (fraction : BitVec 52) : UnpackedFloat :=
  if exponent = -1#11 then
    if fraction = 0#52 then .infinity s else .notANumber
  else if exponent = 0#11 then
    if h : 0 < fraction.toNat then .finite s fraction.toNat (-1074) h else .zero s
  else .finite s (2 ^ 52 + fraction.toNat) (exponent.toNat - 1075) (by omega)

theorem toNat_implicit_append (fraction : BitVec 52) :
    (1#1 ++ fraction).toNat = 2 ^ 52 + fraction.toNat := by
  rw [BitVec.toNat_append, ← Nat.shiftLeft_add_eq_or_of_lt fraction.isLt]
  rfl

theorem finite_congr (s : Sign) {m m' : Nat} {k k' : Int} (hm : 0 < m) (hm' : 0 < m')
    (hmantissa : m = m') (hexponent : k = k') :
    UnpackedFloat.finite s m k hm = .finite s m' k' hm' := by
  subst hmantissa hexponent
  rfl

theorem unpack_eq_ofFields (bits : BitVec 64) :
    UnpackedFloat.unpack Format.binary64 bits =
      ofFields (Sign.ofBitVec (@UnpackedFloat.unpackSign Format.binary64 bits))
        (@UnpackedFloat.unpackExponent Format.binary64 bits)
        (@UnpackedFloat.unpackMantissa Format.binary64 bits) := by
  have hbias : ((Format.binary64.exponentBias : Nat) : Int) = 1023 := rfl
  have hwidth : ((Format.binary64.mantissaBitsWithoutImplicit : Nat) : Int) = 52 := rfl
  unfold UnpackedFloat.unpack ofFields
  dsimp only
  rw [hbias, hwidth]
  split
  · rfl
  split
  · rename_i hzero
    have hnone : (@UnpackedFloat.unpackExponent Format.binary64 bits).toNat = 0 := by
      rw [hzero]; rfl
    split
    · rename_i hfraction
      rw [dif_neg (by rw [hfraction]; decide)]
    · rename_i hfraction
      have hpos : 0 < (@UnpackedFloat.unpackMantissa Format.binary64 bits).toNat :=
        Nat.pos_of_ne_zero fun h => hfraction (BitVec.eq_of_toNat_eq h)
      rw [dif_pos hpos]
      exact finite_congr _ _ _ rfl (by rw [hnone]; rfl)
  · exact finite_congr _ _ _ (toNat_implicit_append _) (by omega)

/-- What is read off bits is canonical. -/
theorem canonical_ofFields (s : Sign) (exponent : BitVec 11) (fraction : BitVec 52) :
    Canonical (ofFields s exponent fraction) := by
  have hexponent := exponent.isLt
  have hfraction := fraction.isLt
  unfold ofFields
  split
  · split <;> trivial
  · rename_i hmax
    have hlarge : exponent.toNat ≠ 2047 := fun h => hmax (BitVec.eq_of_toNat_eq h)
    split
    · split
      · exact ⟨by omega, by omega, by omega, Or.inr rfl⟩
      · trivial
    · rename_i hzero
      have hsmall : exponent.toNat ≠ 0 := fun h => hzero (BitVec.eq_of_toNat_eq h)
      exact ⟨by omega, by omega, by omega, Or.inl (by omega)⟩

theorem canonical_unpack (bits : BitVec 64) :
    Canonical (UnpackedFloat.unpack Format.binary64 bits) := by
  rw [unpack_eq_ofFields]
  exact canonical_ofFields _ _ _

theorem unpack_packComponents (s : Sign) (exponent : BitVec 11) (fraction : BitVec 52) :
    UnpackedFloat.unpack Format.binary64
      (UnpackedFloat.packComponents Format.binary64 s exponent fraction) =
        ofFields s exponent fraction := by
  rw [unpack_eq_ofFields, UnpackedFloat.unpackSign_packComponents, Sign.ofBitVec_toBitVec,
    UnpackedFloat.unpackExponent_packComponents, UnpackedFloat.unpackMantissa_packComponents]

/-- A canonical number is what its bits are read as. -/
theorem unpack_pack {u : UnpackedFloat} (hu : Canonical u) :
    UnpackedFloat.unpack Format.binary64 (UnpackedFloat.pack Format.binary64 u) = u := by
  cases u with
  | notANumber => rfl
  | infinity s => cases s <;> rfl
  | zero s => cases s <;> rfl
  | finite s m k hm =>
    obtain ⟨hmlt, hklow, hkhigh, hk⟩ := hu
    have hbits : Format.binary64.mantissaBits = 53 := rfl
    have hbias : k + Format.binary64.exponentBias + Format.binary64.mantissaBitsWithoutImplicit =
        k + 1075 := by
      show k + (1023 : Nat) + (52 : Nat) = _
      omega
    have hlow : ¬ 2 ^ Format.binary64.exponentBits ≤ (k + 1075).toNat + 1 := by
      show ¬ 2 ^ 11 ≤ (k + 1075).toNat + 1
      omega
    rw [UnpackedFloat.pack]
    dsimp only
    rw [hbias, hbits, if_neg hlow]
    have hfraction : (BitVec.ofNat 52 m).toNat = m % 2 ^ 52 := BitVec.toNat_ofNat _ _
    have hexponent : (BitVec.ofNat 11 (k + 1075).toNat).toNat = (k + 1075).toNat := by
      rw [BitVec.toNat_ofNat]
      omega
    by_cases hnormal : 2 ^ 52 ≤ m
    · -- the implicit bit is left out, and is put back
      have htop : m.log2 = 52 := (Nat.log2_eq_iff (by omega)).mpr ⟨hnormal, hmlt⟩
      have hmax : BitVec.ofNat 11 (k + 1075).toNat ≠ -1#11 := fun h => by
        have := congrArg BitVec.toNat h
        rw [hexponent] at this
        simp at this
        omega
      have hzero : BitVec.ofNat 11 (k + 1075).toNat ≠ 0#11 := fun h => by
        have := congrArg BitVec.toNat h
        rw [hexponent] at this
        simp at this
        omega
      rw [if_pos (by rw [htop]), unpack_packComponents, ofFields, if_neg hmax, if_neg hzero]
      refine finite_congr s _ _ ?_ ?_
      · omega
      · omega
    · have htop : m.log2 < 52 := (Nat.log2_lt (by omega)).mpr (by omega)
      have hpos : 0 < (BitVec.ofNat 52 m).toNat := by omega
      rw [if_neg (by omega), unpack_packComponents, ofFields, if_neg (by decide), if_pos rfl,
        dif_pos hpos]
      refine finite_congr s _ _ ?_ ?_
      · omega
      · omega

/-! ## Floating-point numbers by their places -/

/-- The place of a floating-point number in the row of all of them. -/
def place (x : Float) : Int :=
  placeOf x.toModel.unpack

/-- Whether a floating-point number is a number. -/
def IsNumber (x : Float) : Prop :=
  x.toModel.unpack ≠ .notANumber

theorem canonical_toModel (x : Float) : Canonical x.toModel.unpack :=
  canonical_unpack x.toModel.toBits.toBitVec

theorem compare_toModel {x y : Float} (hx : IsNumber x) (hy : IsNumber y) :
    x.toModel.unpack.compare y.toModel.unpack = some (compare (place x) (place y)) :=
  compare_eq (canonical_toModel x) (canonical_toModel y) hx hy

/-- Numbers are in the order of their places. -/
theorem lt_iff_place_lt {x y : Float} (hx : IsNumber x) (hy : IsNumber y) :
    x < y ↔ place x < place y := by
  have hlt : x < y ↔ (x.toModel.unpack.compare y.toModel.unpack == some .lt) = true := by
    show decide (_ = true) = true ↔ _
    rw [decide_eq_true_iff]
    rfl
  rw [hlt, compare_toModel hx hy, beq_iff_eq, Option.some.injEq, Int.compare_eq_lt]

theorem le_iff_place_le {x y : Float} (hx : IsNumber x) (hy : IsNumber y) :
    x ≤ y ↔ place x ≤ place y := by
  have hle : x ≤ y ↔ (x.toModel.unpack.compare y.toModel.unpack).any (·.isLE) = true := by
    show decide (_ = true) = true ↔ _
    rw [decide_eq_true_iff]
    rfl
  rw [hle, compare_toModel hx hy, Option.any_some, Int.isLE_compare]

/-- Numbers are equal if they are at one place. -/
theorem beq_iff_place_eq {x y : Float} (hx : IsNumber x) (hy : IsNumber y) :
    (x == y) = true ↔ place x = place y := by
  have hbeq : (x == y) = (x.toModel.unpack.compare y.toModel.unpack == some .eq) := rfl
  rw [hbeq, compare_toModel hx hy, beq_iff_eq, Option.some.injEq, Int.compare_eq_eq]

/-- Only numbers are compared. -/
theorem isNumber_of_le {x y : Float} (h : x ≤ y) : IsNumber x ∧ IsNumber y := by
  have hle : (x.toModel.unpack.compare y.toModel.unpack).any (·.isLE) = true := by
    have hmodel : decide (x.toModel ≤ y.toModel) = true := h
    exact of_decide_eq_true hmodel
  constructor
  · intro hx
    rw [hx] at hle
    exact absurd hle Bool.false_ne_true
  · intro hy
    rw [hy] at hle
    cases hx : x.toModel.unpack with
    | notANumber => rw [hx] at hle; exact absurd hle Bool.false_ne_true
    | _ => rw [hx] at hle; exact absurd hle Bool.false_ne_true

theorem isNumber_of_lt {x y : Float} (h : x < y) : IsNumber x ∧ IsNumber y := by
  have hlt : (x.toModel.unpack.compare y.toModel.unpack == some .lt) = true := by
    have hmodel : decide (x.toModel < y.toModel) = true := h
    exact of_decide_eq_true hmodel
  constructor
  · intro hx
    rw [hx] at hlt
    exact absurd hlt Bool.false_ne_true
  · intro hy
    rw [hy] at hlt
    cases hx : x.toModel.unpack with
    | notANumber => rw [hx] at hlt; exact absurd hlt Bool.false_ne_true
    | _ => rw [hx] at hlt; exact absurd hlt Bool.false_ne_true

/-- Numbers at one place are above the same ones. -/
theorem lt_iff_of_place_eq {x y z : Float} (hx : IsNumber x) (hy : IsNumber y)
    (hplace : place x = place y) : z < x ↔ z < y := by
  by_cases hz : IsNumber z
  · rw [lt_iff_place_lt hz hx, lt_iff_place_lt hz hy, hplace]
  · constructor
    · intro hlt
      exact absurd (isNumber_of_lt hlt).1 hz
    · intro hlt
      exact absurd (isNumber_of_lt hlt).1 hz

/-- To add zero changes at most the sign of a zero. -/
theorem place_add_zero (x : Float) : place (x + 0.0) = place x := by
  have hsum : Canonical (UnpackedFloat.add Format.binary64 x.toModel.unpack (.zero .positive)) ∧
      placeOf (UnpackedFloat.add Format.binary64 x.toModel.unpack (.zero .positive)) = place x := by
    have hx := canonical_toModel x
    unfold place
    cases hparts : x.toModel.unpack with
    | notANumber => exact ⟨trivial, rfl⟩
    | infinity s => exact ⟨trivial, rfl⟩
    | zero s => cases s <;> exact ⟨trivial, rfl⟩
    | finite s m k hm =>
      rw [hparts] at hx
      exact ⟨hx, rfl⟩
  have hunpack : (x + 0.0).toModel.unpack =
      UnpackedFloat.add Format.binary64 x.toModel.unpack (.zero .positive) :=
    unpack_pack hsum.1
  rw [place, hunpack, hsum.2]

/-- Numbers that are written alike once zero is added to them are at one place. -/
theorem place_eq_of_toBits {x y : Float} (h : (x + 0.0).toBits = (y + 0.0).toBits) :
    place x = place y := by
  have hbits : (x + 0.0).toModel.toBits = (y + 0.0).toModel.toBits := h
  have hunpack : (x + 0.0).toModel.unpack = (y + 0.0).toModel.unpack :=
    congrArg (fun bits : UInt64 => UnpackedFloat.unpack Format.binary64 bits.toBitVec) hbits
  rw [← place_add_zero x, ← place_add_zero y, place, place, hunpack]

theorem unpack_ofBits (bits : UInt64) :
    (Float.ofBits bits).toModel.unpack = UnpackedFloat.unpack Format.binary64 bits.toBitVec :=
  unpack_pack (canonical_unpack _)

theorem placeOf_ofFields {exponent : BitVec 11} (fraction : BitVec 52)
    (hexponent : exponent ≠ -1#11) :
    ofFields .positive exponent fraction ≠ .notANumber ∧
      placeOf (ofFields .positive exponent fraction) =
        exponent.toNat * 2 ^ 52 + fraction.toNat := by
  unfold ofFields
  rw [if_neg hexponent]
  by_cases hzero : exponent = 0#11
  · rw [if_pos hzero, hzero]
    by_cases hpos : 0 < fraction.toNat
    · rw [dif_pos hpos]
      refine ⟨by simp, ?_⟩
      simp only [placeOf, Sign.apply, BitVec.toNat_ofNat]
      omega
    · rw [dif_neg hpos]
      refine ⟨by simp, ?_⟩
      simp only [placeOf, BitVec.toNat_ofNat]
      omega
  · rw [if_neg hzero]
    refine ⟨by simp, ?_⟩
    simp only [placeOf, Sign.apply]
    omega

/-- The bits of a number without a sign are its place. -/
theorem isNumber_ofBits {n : Nat} (hn : n < 2047 * 2 ^ 52) :
    IsNumber (Float.ofBits (UInt64.ofNat n)) ∧ place (Float.ofBits (UInt64.ofNat n)) = n := by
  rw [IsNumber, place, unpack_ofBits, unpack_eq_ofFields]
  have hbits : (UInt64.ofNat n).toBitVec.toNat = n := by
    show n % 2 ^ 64 = n
    omega
  generalize (UInt64.ofNat n).toBitVec = bits at hbits ⊢
  have hsign : @UnpackedFloat.unpackSign Format.binary64 bits = 0#1 := by
    refine BitVec.eq_of_toNat_eq ?_
    show bits.toNat >>> 63 % 2 ^ 1 = 0
    rw [hbits, Nat.shiftRight_eq_div_pow]
    omega
  have hexponent : (@UnpackedFloat.unpackExponent Format.binary64 bits).toNat =
      n / 2 ^ 52 := by
    show bits.toNat >>> 52 % 2 ^ 11 = _
    rw [hbits, Nat.shiftRight_eq_div_pow]
    omega
  have hfraction : (@UnpackedFloat.unpackMantissa Format.binary64 bits).toNat =
      n % 2 ^ 52 := by
    show bits.toNat >>> 0 % 2 ^ 52 = _
    rw [hbits]
    rfl
  have hmax : @UnpackedFloat.unpackExponent Format.binary64 bits ≠ -1#11 := by
    intro h
    rw [h] at hexponent
    have hfull : (-1#11 : BitVec 11).toNat = 2047 := rfl
    omega
  rw [hsign]
  obtain ⟨hnumber, hplace⟩ :=
    placeOf_ofFields (@UnpackedFloat.unpackMantissa Format.binary64 bits) hmax
  refine ⟨hnumber, hplace.trans ?_⟩
  rw [hexponent, hfraction]
  omega

end CodeSearch.Decimal

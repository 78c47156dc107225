import ChordSequencer.Proofs.Doubles

/-!
# The parts of a double

A double is its sign and its magnitude, the bits without the sign.  The magnitudes of finite doubles
lie below that of the infinity, and those above it are no numbers.  A magnitude is cut into a
mantissa and the place at which it begins (`mantissa`, `place`), and both together are a multiple of
the least positive double (`steps`).

* `Parts`, `parts` : what a double is, from its sign and its magnitude.
* `le_iff` : numbers are ordered as signed magnitudes.
* `packed_finite` : the sign and the magnitude of a mantissa at a place.
* `exact_eq`, `steps_mono` : what a magnitude is worth, and that larger ones are worth more.
-/

namespace ChordSequencer.Number

open Float.Model Float.Model.UnpackedFloat

variable {x y : Float} {b b' : Nat} {s s' : Sign}

/-- The bits of a double without its sign. -/
def magnitude (x : Float) : Nat := x.toBits.toNat % 2 ^ 63

/-- The sign of a double. -/
def sign (x : Float) : Sign := if x.toBits.toNat < 2 ^ 63 then .positive else .negative

/-! ### Magnitudes -/

/-- The mantissa of a magnitude, with its leading place. -/
def mantissa (b : Nat) : Nat := if b < 2 ^ 52 then b else b % 2 ^ 52 + 2 ^ 52

/-- The place at which the mantissa of a magnitude begins, counted from the last of all. -/
def place (b : Nat) : Nat := b / 2 ^ 52 - 1

/-- A magnitude as a multiple of the least positive double. -/
def steps (b : Nat) : Nat := mantissa b * 2 ^ place b

theorem infinityBits_eq : infinityBits = 2047 * 2 ^ 52 := by decide

theorem place_mantissa (b : Nat) : place b * 2 ^ 52 + mantissa b = b := by
  simp only [place, mantissa]
  split <;> omega

theorem mantissa_lt (b : Nat) : mantissa b < 2 ^ 53 := by
  simp only [mantissa]
  split <;> omega

theorem place_or_le (b : Nat) : place b = 0 ∨ 2 ^ 52 ≤ mantissa b := by
  simp only [place, mantissa]
  split <;> omega

theorem mantissa_pos (some : b ≠ 0) : 0 < mantissa b := by
  simp only [mantissa]
  split <;> omega

theorem steps_zero : steps 0 = 0 := rfl

theorem steps_pos (some : b ≠ 0) : 0 < steps b :=
  Nat.mul_pos (mantissa_pos some) (Nat.two_pow_pos _)

/-- Mantissas are compared only at the same place. -/
theorem compare_magnitudes (b b' : Nat) :
    (compare ((place b : Int) - 1074) (place b' - 1074)).then
      (compare (mantissa b) (mantissa b')) = compare b b' := by
  have split := place_mantissa b
  have split' := place_mantissa b'
  have below := mantissa_lt b
  have below' := mantissa_lt b'
  have canonical := place_or_le b
  have canonical' := place_or_le b'
  rcases Nat.lt_trichotomy (place b) (place b') with less | same | more
  · rw [compare_lt_iff_lt.2 (by omega), Ordering.lt_then, eq_comm, compare_lt_iff_lt]
    omega
  · rw [same, compare_eq_iff_eq.2 rfl, Ordering.eq_then]
    rcases Nat.lt_trichotomy (mantissa b) (mantissa b') with less | same' | more
    · rw [compare_lt_iff_lt.2 less, compare_lt_iff_lt.2 (by omega)]
    · rw [compare_eq_iff_eq.2 same', compare_eq_iff_eq.2 (by omega)]
    · rw [compare_gt_iff_gt.2 more, compare_gt_iff_gt.2 (by omega)]
  · rw [compare_gt_iff_gt.2 (by omega), Ordering.gt_then, eq_comm, compare_gt_iff_gt]
    omega

theorem steps_mono (h : b ≤ b') : steps b ≤ steps b' := by
  have split := place_mantissa b
  have split' := place_mantissa b'
  have below := mantissa_lt b
  rcases Nat.lt_trichotomy (place b) (place b') with less | same | more
  · have high := (place_or_le b').resolve_left (by omega)
    calc steps b ≤ 2 ^ 53 * 2 ^ place b := Nat.mul_le_mul_right _ below.le
      _ = 2 ^ 52 * 2 ^ (place b + 1) := by ring
      _ ≤ 2 ^ 52 * 2 ^ place b' :=
          Nat.mul_le_mul_left _ (Nat.pow_le_pow_right Nat.two_pos less)
      _ ≤ steps b' := Nat.mul_le_mul_right _ high
  · rw [steps, steps, same]
    exact Nat.mul_le_mul_right _ (by omega)
  · have below' := mantissa_lt b'
    have := (place_or_le b).resolve_left (by omega)
    omega

/-! ### What a double is -/

/-- What a sign and a magnitude stand for. -/
inductive Parts (s : Sign) (b : Nat) : UnpackedFloat → Prop
  | notANumber : infinityBits < b → Parts s b .notANumber
  | infinity : b = infinityBits → Parts s b (.infinity s)
  | zero : b = 0 → Parts s b (.zero s)
  | finite (pos : 0 < mantissa b) : b ≠ 0 → b < infinityBits →
      Parts s b (.finite s (mantissa b) (place b - 1074) pos)

theorem Parts.of_eq {m : Nat} {e : Int} (pos : 0 < m) (some : b ≠ 0) (below : b < infinityBits)
    (hm : m = mantissa b) (he : e = place b - 1074) : Parts s b (.finite s m e pos) := by
  subst hm he
  exact .finite pos some below

theorem toNat_append {v w : Nat} (high : BitVec v) (low : BitVec w) :
    (high ++ low).toNat = high.toNat * 2 ^ w + low.toNat := by
  rw [BitVec.toNat_append, ← Nat.shiftLeft_add_eq_or_of_lt low.isLt, Nat.shiftLeft_eq]

theorem unpackMantissa_toNat (bits : BitVec 64) :
    (@unpackMantissa .binary64 bits).toNat = bits.toNat % 2 ^ 52 := by
  simp [unpackMantissa, BitVec.extractLsb_toNat]

theorem unpackExponent_toNat (bits : BitVec 64) :
    (@unpackExponent .binary64 bits).toNat = bits.toNat / 2 ^ 52 % 2 ^ 11 := by
  simp [unpackExponent, BitVec.extractLsb_toNat, Nat.shiftRight_eq_div_pow]

theorem unpackSign_toNat (bits : BitVec 64) :
    (@unpackSign .binary64 bits).toNat = bits.toNat / 2 ^ 63 % 2 := by
  unfold unpackSign
  simp [BitVec.extractLsb_toNat, Nat.shiftRight_eq_div_pow]

theorem ofBitVec_unpackSign (x : Float) :
    Sign.ofBitVec (@unpackSign .binary64 x.toModel.toBits.toBitVec) = sign x := by
  have small : x.toBits.toNat < 2 ^ 64 := x.toBits.toNat_lt
  have bit : (@unpackSign .binary64 x.toModel.toBits.toBitVec).toNat =
      x.toBits.toNat / 2 ^ 63 % 2 := unpackSign_toNat _
  simp only [Sign.ofBitVec, ← BitVec.toNat_inj, bit, sign]
  congr 1
  simp
  omega

/-- **A double is what its sign and its magnitude stand for.** -/
theorem parts (x : Float) : Parts (sign x) (magnitude x) x.toModel.unpack := by
  have infinite := infinityBits_eq
  have small : x.toModel.toBits.toNat < 2 ^ 64 := x.toModel.toBits.toNat_lt
  have sized : magnitude x = x.toModel.toBits.toNat % 2 ^ 63 := rfl
  have fraction := unpackMantissa_toNat x.toModel.toBits.toBitVec
  have exponent := unpackExponent_toNat x.toModel.toBits.toBitVec
  rw [UInt64.toNat_toBitVec] at fraction exponent
  rw [← ofBitVec_unpackSign]
  unfold Float.Model.unpack UnpackedFloat.unpack
  dsimp only
  refine iteInduction (motive := Parts _ _) (fun ones => ?_) fun others => ?_
  · have ones : x.toModel.toBits.toNat / 2 ^ 52 % 2 ^ 11 = 2047 := by
      rw [← exponent, ones]
      rfl
    refine iteInduction (motive := Parts _ _) (fun none => ?_) fun some => ?_
    · have none : x.toModel.toBits.toNat % 2 ^ 52 = 0 := by
        rw [← fraction, none]
        rfl
      exact .infinity (by omega)
    · have some : x.toModel.toBits.toNat % 2 ^ 52 ≠ 0 := by
        rw [← fraction]
        simpa [← BitVec.toNat_inj] using some
      exact .notANumber (by omega)
  · have others : x.toModel.toBits.toNat / 2 ^ 52 % 2 ^ 11 ≠ 2047 := by
      rw [← exponent]
      simpa [← BitVec.toNat_inj] using others
    refine iteInduction (motive := Parts _ _) (fun zeros => ?_) fun normal => ?_
    · have zeros : x.toModel.toBits.toNat / 2 ^ 52 % 2 ^ 11 = 0 := by
        rw [← exponent, zeros]
        rfl
      by_cases none : @unpackMantissa .binary64 x.toModel.toBits.toBitVec = 0#_
      · rw [dif_pos none]
        have none : x.toModel.toBits.toNat % 2 ^ 52 = 0 := by
          rw [← fraction, none]
          rfl
        exact .zero (by omega)
      · rw [dif_neg none]
        have some : x.toModel.toBits.toNat % 2 ^ 52 ≠ 0 := by
          rw [← fraction]
          simpa [← BitVec.toNat_inj] using none
        have first : magnitude x / 2 ^ 52 - 1 = 0 := by omega
        refine .of_eq _ (by omega) (by omega) ?_ ?_
        · rw [fraction, mantissa, if_pos (by omega)]
          omega
        · rw [exponent, zeros, place, first]
          rfl
    · have normal : x.toModel.toBits.toNat / 2 ^ 52 % 2 ^ 11 ≠ 0 := by
        rw [← exponent]
        simpa [← BitVec.toNat_inj] using normal
      have bias : (Format.binary64.exponentBias : Int) = 1023 := rfl
      refine .of_eq _ (by omega) (by omega) ?_ ?_
      · rw [toNat_append, fraction, mantissa, if_neg (by omega)]
        change 1 * 2 ^ 52 + _ = _
        omega
      · rw [exponent, place, bias]
        omega

theorem isFinite_iff : x.isFinite = true ↔ magnitude x < infinityBits := by
  have positive : 0 < infinityBits := by decide
  change x.toModel.unpack.isFinite = true ↔ _
  have px := parts x
  generalize x.toModel.unpack = u at px ⊢
  unfold UnpackedFloat.isFinite
  cases px <;> simp only [Bool.false_eq_true, true_iff, false_iff] <;> omega

/-! ### The order of numbers -/

/-- A signed magnitude. -/
def signed (x : Float) : Int := (sign x).apply (magnitude x)

theorem isLE_compare_sign (s s' : Sign) :
    (compare s s').isLE = true ↔ s.apply 1 ≤ s'.apply 1 := by
  cases s <;> cases s' <;> decide

theorem Parts.le_iff {u u' : UnpackedFloat} (h : Parts s b u) (h' : Parts s' b' u') :
    u.le u' = true ↔ b ≤ infinityBits ∧ b' ≤ infinityBits ∧ s.apply b ≤ s'.apply b' := by
  have infinite := infinityBits_eq
  unfold UnpackedFloat.le UnpackedFloat.compare
  cases h with
  | notANumber more => simp [more.not_ge]
  | infinity hb =>
    cases h' with
    | notANumber more => simp [more.not_ge]
    | infinity hb' | zero hb' | finite pos' some' hb' =>
      cases s <;> cases s' <;> simp [isLE_compare_sign, Sign.apply] <;> omega
  | zero hb =>
    cases h' with
    | notANumber more => simp [more.not_ge]
    | infinity hb' | zero hb' | finite pos' some' hb' =>
      cases s <;> cases s' <;> simp [Sign.apply] <;> omega
  | finite pos some hb =>
    cases h' with
    | notANumber more => simp [more.not_ge]
    | infinity hb' | zero hb' =>
      cases s <;> cases s' <;> simp [Sign.apply] <;> omega
    | finite pos' some' hb' =>
      cases s <;> cases s' <;>
        simp [Sign.apply, compare_magnitudes, hb.le, hb'.le, Nat.isLE_compare, Nat.isGE_compare]
      omega

/-- **Numbers are ordered as signed magnitudes.** -/
theorem le_iff : x ≤ y ↔
    magnitude x ≤ infinityBits ∧ magnitude y ≤ infinityBits ∧ signed x ≤ signed y :=
  (le_iff_unpack x y).trans ((parts x).le_iff (parts y))

theorem not_le_zero_iff (number : magnitude x ≤ infinityBits) :
    ¬ x ≤ 0.0 ↔ sign x = .positive ∧ magnitude x ≠ 0 := by
  have zero : magnitude 0.0 = 0 := by decide +kernel
  have least : signed 0.0 = 0 := by decide +kernel
  rw [le_iff, zero, least, signed]
  cases sign x <;> simp [number, Sign.apply]

/-! ### Packing -/

/-- The bit of a sign. -/
def signBits : Sign → Nat
  | .negative => 2 ^ 63
  | .positive => 0

theorem packComponents_toNat (s : Sign) (e : BitVec 11) (m : BitVec 52) :
    (packComponents .binary64 s e m).toNat = signBits s + e.toNat * 2 ^ 52 + m.toNat := by
  simp only [packComponents, toNat_append]
  cases s
  · simp [Sign.toBitVec, signBits]
    omega
  · simp [Sign.toBitVec, signBits]

theorem parts_of_bits {bits : Nat} (h : x.toBits.toNat = signBits s + bits)
    (small : bits < 2 ^ 63) : sign x = s ∧ magnitude x = bits := by
  simp only [magnitude, sign, h]
  cases s <;> simp [signBits] <;> omega

/-- The double that something unpacked is packed into. -/
def packed (u : UnpackedFloat) : Float := .ofModel (.pack u)

theorem packed_toBits (u : UnpackedFloat) :
    (packed u).toBits.toNat = (UnpackedFloat.pack .binary64 u).toNat := rfl

theorem packed_zero (s : Sign) : sign (packed (.zero s)) = s ∧ magnitude (packed (.zero s)) = 0 :=
  parts_of_bits (packComponents_toNat s 0 0) (by decide)

theorem packed_infinity (s : Sign) :
    sign (packed (.infinity s)) = s ∧ magnitude (packed (.infinity s)) = infinityBits :=
  parts_of_bits (packComponents_toNat s _ 0) (by decide)

theorem packed_notANumber : infinityBits < magnitude (packed .notANumber) := by
  decide +kernel

/-- **A mantissa at a place is packed into its magnitude**, unless it is too large. -/
theorem packed_finite (s : Sign) {m p : Nat} (below : m < 2 ^ 53) (canonical : p = 0 ∨ 2 ^ 52 ≤ m) :
    let x := packed (if h : m = 0 then .zero s else .finite s m (p - 1074) (Nat.pos_of_ne_zero h))
    sign x = s ∧ magnitude x = min (p * 2 ^ 52 + m) infinityBits := by
  have infinite := infinityBits_eq
  refine parts_of_bits ?_ (by omega)
  rw [packed_toBits]
  by_cases none : m = 0
  · have bits : (UnpackedFloat.pack .binary64 (.zero s)).toNat = signBits s :=
      packComponents_toNat s 0 0
    rw [dif_pos none]
    omega
  · rw [dif_neg none]
    have biased : ((p : Int) - 1074 + Format.binary64.exponentBias +
        Format.binary64.mantissaBitsWithoutImplicit).toNat = p + 1 := by
      have bias : (Format.binary64.exponentBias : Int) = 1023 := rfl
      have bits : (Format.binary64.mantissaBitsWithoutImplicit : Int) = 52 := rfl
      omega
    have high : m.log2 + 1 = Format.binary64.mantissaBits ↔ 2 ^ 52 ≤ m := by
      have few := (Nat.log2_lt (k := 53) none).2 below
      rw [← Nat.le_log2 none, show Format.binary64.mantissaBits = 53 from rfl]
      omega
    unfold UnpackedFloat.pack
    dsimp only
    rw [biased]
    simp only [high]
    split
    · rename_i large
      have large : 2 ^ 11 ≤ p + 2 := large
      have ones : (BitVec.allOnes 11).toNat = 2047 := by decide
      have none : (0 : BitVec 52).toNat = 0 := rfl
      rw [packedInfinity, packComponents_toNat, BitVec.neg_one_eq_allOnes, ones, none]
      omega
    · rename_i fits
      have fits : ¬ 2 ^ 11 ≤ p + 2 := fits
      split
      · rw [packComponents_toNat]
        simp only [BitVec.toNat_ofNat]
        omega
      · rw [packComponents_toNat]
        simp only [BitVec.toNat_ofNat]
        omega

/-! ### What a double is worth -/

theorem exact_eq (x : Float) : exact x =
    if infinityBits < magnitude x then .undefined
    else if magnitude x = infinityBits then .infinite (sign x == .negative)
    else .finite (sign x == .negative) (mantissa (magnitude x)) (place (magnitude x) - 1074) := by
  have infinite := infinityBits_eq
  have small : x.toBits.toNat < 2 ^ 64 := x.toBits.toNat_lt
  have signed : (x.toBits.toNat / 2 ^ 63 == 1) = (sign x == .negative) := by
    rw [sign]
    split
    · rw [Nat.div_eq_of_lt (by omega)]
      rfl
    · rw [show x.toBits.toNat / 2 ^ 63 = 1 by omega]
      rfl
  have powers : Nat.pow 2 63 = 2 ^ 63 ∧ Nat.pow 2 52 = 2 ^ 52 ∧ Nat.pow 2 11 = 2 ^ 11 :=
    ⟨rfl, rfl, rfl⟩
  simp only [exact, powers, signed]
  have sized : magnitude x = x.toBits.toNat % 2 ^ 63 := rfl
  by_cases ones : x.toBits.toNat / 2 ^ 52 % 2 ^ 11 = 2047
  · rw [if_pos ones]
    by_cases none : x.toBits.toNat % 2 ^ 52 = 0
    · rw [if_pos none, if_neg (by omega), if_pos (by omega)]
    · rw [if_neg none, if_pos (by omega)]
  · rw [if_neg ones, if_neg (show ¬ infinityBits < magnitude x by omega),
      if_neg (show ¬ magnitude x = infinityBits by omega), mantissa, place]
    by_cases zeros : x.toBits.toNat / 2 ^ 52 % 2 ^ 11 = 0
    · rw [if_pos zeros, if_pos (by omega)]
      congr 1 <;> omega
    · rw [if_neg zeros, if_neg (by omega)]
      congr 1 <;> omega

end ChordSequencer.Number

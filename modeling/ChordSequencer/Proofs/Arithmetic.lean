import ChordSequencer.Proofs.Magnitudes

/-!
# Products and quotients of doubles

A product or a quotient of doubles is worked out with a mantissa that has places to spare, which is
then shifted to the last place that is kept.  The places that are shifted out leave behind all that
rounding needs to know (`shiftRight_shifted`), so that the outcome is the double nearest to the
exact product or quotient.

* `magnitude_mul`, `magnitude_div` : the signs and the magnitudes of products and quotients.
* `finite_of_mul`, `finite_of_div` : what a finite product or quotient is made of.
* `mul_le_mul`, `magnitude_div_le` : products by a positive number keep the order, and quotients
  with a larger divisor are no larger.
-/

namespace ChordSequencer.Number

open Float.Model Float.Model.UnpackedFloat

variable {num den : Nat} {s : Sign}

/-! ### Shifting -/

/-- A quotient as a mantissa and what rounding needs to know about the rest. -/
def shifted (num den : Nat) : ExtendedMantissa :=
  .ofMantissaAndAccuracy (num / den) (accuracyOfFraction (num % den) den)

theorem shifted_eq (num : Nat) (pos : 0 < den) : shifted num den =
    ⟨num / den, decide (den ≤ 2 * (num % den)),
      decide (num % den ≠ 0 ∧ 2 * (num % den) ≠ den)⟩ := by
  simp only [shifted, accuracyOfFraction]
  by_cases zero : num % den = 0
  · simp [ExtendedMantissa.ofMantissaAndAccuracy, zero, pos.ne']
  · rcases Nat.lt_trichotomy (2 * (num % den)) den with less | half | more
    · simp [ExtendedMantissa.ofMantissaAndAccuracy, zero, Nat.compare_eq_lt.2 less, less, less.ne]
    · simp [ExtendedMantissa.ofMantissaAndAccuracy, zero, half]
    · simp [ExtendedMantissa.ofMantissaAndAccuracy, zero, Nat.compare_eq_gt.2 more, more.le,
        more.ne']

theorem shifted_mantissa (num : Nat) (pos : 0 < den) : (shifted num den).mantissa = num / den := by
  rw [shifted_eq num pos]

/-- A shift halves the quotient and forgets nothing that rounding needs to know. -/
theorem shiftRightOne_shifted (num : Nat) (pos : 0 < den) :
    (shifted num den).shiftRightOne = shifted num (den * 2) := by
  have below := Nat.mod_lt num pos
  have rest : num % (den * 2) = num % den + den * (num / den % 2) := Nat.mod_mul
  rw [shifted_eq num pos, shifted_eq num (Nat.mul_pos pos Nat.two_pos), rest,
    ← Nat.div_div_eq_div_mul]
  simp only [ExtendedMantissa.shiftRightOne, ExtendedMantissa.mk.injEq, true_and,
    ← Bool.decide_or]
  -- the digit that is shifted out decides which half the rest is in
  rcases Nat.mod_two_eq_zero_or_one (num / den) with even | odd
  · have low : ¬ den * 2 ≤ 2 * (num % den) := by omega
    simp only [even, Nat.mul_zero, Nat.add_zero, low]
    exact ⟨rfl, decide_eq_decide.2 (by omega)⟩
  · have high : den * 2 ≤ 2 * (num % den + den) := by omega
    simp only [odd, Nat.mul_one, high]
    exact ⟨rfl, decide_eq_decide.2 (by omega)⟩

theorem shiftRight_shifted (num : Nat) (pos : 0 < den) (n : Nat) :
    shifted num den >>> n = shifted num (den * 2 ^ n) := by
  induction n with
  | zero =>
    rw [Nat.pow_zero, Nat.mul_one]
    rfl
  | succ n ih =>
    rw [Nat.pow_succ, ← Nat.mul_assoc,
      ← shiftRightOne_shifted num (Nat.mul_pos pos (Nat.two_pow_pos n)), ← ih]
    rfl

theorem shifted_rounded (num : Nat) (pos : 0 < den) :
    (shifted num den).roundedMantissa = roundQuotient num den := by
  simp only [shifted_eq num pos, roundQuotient, ExtendedMantissa.roundedMantissa]
  rcases Nat.lt_trichotomy (2 * (num % den)) den with less | half | more
  · by_cases zero : num % den = 0
    · simp [zero, ExtendedMantissa.accuracy, Accuracy.roundToNearestEven, pos.ne, pos.ne']
    · simp [zero, ExtendedMantissa.accuracy, Accuracy.roundToNearestEven, less.ne, less.not_ge,
        less.not_gt]
  · simp [half, ExtendedMantissa.accuracy, Accuracy.roundToNearestEven]
    split <;> omega
  · have some : num % den ≠ 0 := by omega
    simp [some, more, ExtendedMantissa.accuracy, Accuracy.roundToNearestEven, more.le, more.ne']

theorem targetExponent_eq (e : Int) : Format.binary64.targetExponent e = max (e - 53) (-1074) := by
  have least : Format.binary64.minExponent = -1074 := by decide
  have bits : (Format.binary64.mantissaBits : Int) = 53 := rfl
  rw [Format.targetExponent, least, bits]

theorem shiftToTargetExponent_eq (pos : 0 < den) {e : Int} {p k : Nat}
    (target : max (((num / den).log2 : Int) + e - 52) (-1074) = p - 1074)
    (shift : (k : Int) = p - 1074 - e) :
    shiftToTargetExponent .binary64 (num / den) e (accuracyOfFraction (num % den) den) =
      (shifted num (den * 2 ^ k), (p : Int) - 1074) := by
  have reached : max (totalExponent (num / den) e - 53) (-1074) = (p : Int) - 1074 := by
    rw [totalExponent]
    omega
  simp only [shiftToTargetExponent, shiftToExponent, targetExponent_eq, reached, ← shift,
    Int.toNat_natCast]
  rw [← shiftRight_shifted num pos k]
  congr 1
  omega

theorem accuracyOfFraction_one (n : Nat) : accuracyOfFraction (n % 1) 1 = .exact := by
  simp [accuracyOfFraction, Nat.mod_one]

theorem shift_rounded {r p : Nat} (le : r ≤ 2 ^ 53) (ge : p ≠ 0 → 2 ^ 52 ≤ r) :
    ∃ em : ExtendedMantissa, ∃ p' : Nat, em.mantissa < 2 ^ 53 ∧ (p' = 0 ∨ 2 ^ 52 ≤ em.mantissa) ∧
      p' * 2 ^ 52 + em.mantissa = p * 2 ^ 52 + r ∧
      shiftToTargetExponent .binary64 r (p - 1074) .exact = (em, (p' : Int) - 1074) := by
  have shifts (q k : Nat) (target : max ((r.log2 : Int) + (p - 1074) - 52) (-1074) = q - 1074)
      (shift : (k : Int) = q - 1074 - (p - 1074)) :
      shiftToTargetExponent .binary64 r (p - 1074) .exact =
        (shifted r (2 ^ k), (q : Int) - 1074) := by
    have all := @shiftToTargetExponent_eq r 1 Nat.one_pos _ q k (by rwa [Nat.div_one]) shift
    rwa [accuracyOfFraction_one, Nat.div_one, Nat.one_mul] at all
  rcases le.eq_or_lt with rfl | less
  · have full : (2 ^ 53 : Nat).log2 = 53 := by decide
    refine ⟨_, _, ?_, ?_, ?_, shifts (p + 1) 1 (by rw [full]; omega) (by omega)⟩ <;>
      rw [shifted_mantissa _ (by decide)] <;> omega
  · have same : max ((r.log2 : Int) + (p - 1074) - 52) (-1074) = p - 1074 := by
      rcases eq_or_ne r 0 with rfl | some
      · have none : Nat.log2 0 = 0 := by decide
        omega
      · have few := (Nat.log2_lt (k := 53) some).2 less
        have many := Nat.le_log2 (k := 52) some
        omega
    refine ⟨_, _, ?_, ?_, ?_, shifts p 0 same (by omega)⟩ <;>
      rw [shifted_mantissa _ (by decide)] <;> omega

/-- **A quotient with places to spare is rounded to the nearest double.** -/
theorem magnitude_round (s : Sign) (pos : 0 < den) {e : Int}
    (spare : -1074 < e → 52 ≤ (num / den).log2) {num' den' c d : Nat} (pos' : 0 < den')
    (hnum : num' * stepsPerOne = num * 2 ^ c) (hden : den' = den * 2 ^ d)
    (scale : (c : Int) - d = e + 1074) :
    let x := packed (roundWithAccuracy .binary64 s (num / den) e
      (accuracyOfFraction (num % den) den))
    sign x = s ∧ magnitude x = nearestBits num' den' := by
  obtain ⟨p, target⟩ : ∃ p : Nat, max (((num / den).log2 : Int) + e - 52) (-1074) = p - 1074 :=
    ⟨(max (((num / den).log2 : Int) + e - 52) (-1074) + 1074).toNat, by omega⟩
  obtain ⟨k, shift⟩ : ∃ k : Nat, (k : Int) = p - 1074 - e := ⟨(p - 1074 - e).toNat, by omega⟩
  have moved (n : Nat) : den * 2 ^ d * 2 ^ (p + n) = den * 2 ^ (k + n) * 2 ^ c := by
    rw [Nat.mul_assoc, Nat.mul_assoc, ← Nat.pow_add, ← Nat.pow_add]
    congr 2
    omega
  have kept : KeptFrom (num * 2 ^ c) (den * 2 ^ d) p := by
    refine ⟨?_, ?_⟩
    · rw [moved]
      refine Nat.mul_lt_mul_of_pos_right ?_ (Nat.two_pow_pos c)
      rw [Nat.mul_comm, ← Nat.div_lt_iff_lt_mul pos]
      exact Nat.lt_log2_self.trans_le (Nat.pow_le_pow_right Nat.two_pos (by omega))
    · rw [moved]
      refine (Nat.eq_zero_or_pos p).imp_right fun above => Nat.mul_le_mul_right _ ?_
      have some : num / den ≠ 0 := by
        intro none
        rw [none, Nat.log2_zero] at target
        omega
      rw [Nat.mul_comm, ← Nat.le_div_iff_mul_le pos]
      exact (Nat.pow_le_pow_right Nat.two_pos (by omega)).trans (Nat.log2_self_le some)
  have same : roundQuotient (num * 2 ^ c) (den * 2 ^ d * 2 ^ p) =
      roundQuotient num (den * 2 ^ k) := by
    rw [← roundQuotient_mul num _ (Nat.two_pow_pos c)]
    exact congrArg _ (moved 0)
  have pos'' : 0 < den * 2 ^ k := Nat.mul_pos pos (Nat.two_pow_pos k)
  rw [nearestBits_eq pos' (hnum ▸ hden ▸ kept), hnum, hden, keptBits, same]
  obtain ⟨em, p', below, canonical, bits, second⟩ := shift_rounded (p := p)
    (same ▸ kept.rounded_le) (same ▸ kept.le_rounded)
  rw [← bits]
  unfold roundWithAccuracy
  rw [shiftToTargetExponent_eq pos target shift]
  dsimp only
  rw [shifted_rounded num pos'', second]
  exact packed_finite s below canonical

/-! ### Products -/

variable {x y : Float}

/-- The product of two mantissas has places to spare, unless it begins at the last place of all. -/
theorem mul_spare {b b' : Nat} (some : b ≠ 0) (some' : b' ≠ 0)
    (above : -1074 < (place b : Int) - 1074 + (place b' - 1074)) :
    52 ≤ (mantissa b * mantissa b').log2 := by
  have pos := mantissa_pos some
  have pos' := mantissa_pos some'
  have high : 2 ^ 52 ≤ mantissa b * mantissa b' := by
    rcases place_or_le b with none | high
    · exact ((place_or_le b').resolve_left (by omega)).trans (Nat.le_mul_of_pos_left _ pos)
    · exact high.trans (Nat.le_mul_of_pos_right _ pos')
  exact (Nat.le_log2 (Nat.mul_pos pos pos').ne').2 high

/-- The magnitude of a product of finite doubles is that of the double nearest to it. -/
theorem magnitude_mul (hx : magnitude x < infinityBits) (hy : magnitude y < infinityBits) :
    sign (x * y) = sign x * sign y ∧
      magnitude (x * y) = nearestBits (steps (magnitude x) * steps (magnitude y))
        (stepsPerOne * stepsPerOne) := by
  have product : x * y = packed (.mul .binary64 x.toModel.unpack y.toModel.unpack) := rfl
  rw [product]
  have px := parts x
  have py := parts y
  generalize x.toModel.unpack = ux at px ⊢
  generalize y.toModel.unpack = uy at py ⊢
  generalize magnitude x = b at *
  generalize magnitude y = b' at *
  generalize sign x = s at *
  generalize sign y = s' at *
  unfold UnpackedFloat.mul
  cases px with
  | notANumber more => omega
  | infinity same => omega
  | zero none =>
    cases py with
    | notANumber more => omega
    | infinity same => omega
    | zero | finite =>
      simp only [none, steps_zero, Nat.zero_mul, nearestBits_zero]
      exact packed_zero _
  | finite pos some =>
    cases py with
    | notANumber more => omega
    | infinity same => omega
    | zero none =>
      simp only [none, steps_zero, Nat.mul_zero, nearestBits_zero]
      exact packed_zero _
    | finite pos' some' =>
      obtain ⟨last, hlast⟩ : ∃ last, last = 1074 := ⟨_, rfl⟩
      have hnum : steps b * steps b' * stepsPerOne =
          mantissa b * mantissa b' * 2 ^ (place b + place b' + 1074) := by
        rw [← two_pow_mul_stepsPerOne rfl, Nat.pow_add, steps, steps]
        ring
      have hden : stepsPerOne * stepsPerOne = 1 * 2 ^ (last + last) := by
        rw [Nat.one_mul, Nat.pow_add, two_pow_eq hlast]
      have spare (above : -1074 < (place b : Int) - 1074 + (place b' - 1074)) :
          52 ≤ (mantissa b * mantissa b' / 1).log2 := by
        rw [Nat.div_one]
        exact mul_spare some some' above
      have rounded := magnitude_round (s * s') Nat.one_pos spare
        (Nat.mul_pos stepsPerOne_pos stepsPerOne_pos) hnum hden (by omega)
      rwa [accuracyOfFraction_one, Nat.div_one] at rounded

/-- A finite product is one of finite doubles. -/
theorem finite_of_mul (finite : magnitude (x * y) < infinityBits) :
    magnitude x < infinityBits ∧ magnitude y < infinityBits := by
  have product : x * y = packed (.mul .binary64 x.toModel.unpack y.toModel.unpack) := rfl
  rw [product] at finite
  have px := parts x
  have py := parts y
  generalize x.toModel.unpack = ux at px finite
  generalize y.toModel.unpack = uy at py finite
  have infinite (s : Sign) := (packed_infinity s).2
  have undefined := packed_notANumber
  have positive : 0 < infinityBits := by decide
  unfold UnpackedFloat.mul at finite
  cases px <;> cases py <;> simp -failIfUnchanged only [infinite] at finite <;> omega

/-! ### Quotients -/

theorem divCore_cases {m m' : Nat} (pos : 0 < m) (pos' : 0 < m') (e e' : Int) :
    ∃ k : Nat, divCore .binary64 m e m' e' =
        (m * 2 ^ k / m', e - e' - k, accuracyOfFraction (m * 2 ^ k % m') m') ∧
      (k = 0 ∨ -1074 ≤ e - e' - k) ∧ (-1074 < e - e' - k → 52 ≤ (m * 2 ^ k / m').log2) := by
  simp only [divCore, targetExponent_eq, totalExponent, Nat.shiftLeft_eq]
  generalize ht : min (e - e') (max ((m.log2 : Int) + 1 + e - (m'.log2 + 1 + e') - 53) (-1074)) = t
  obtain ⟨k, hk⟩ : ∃ k : Nat, (e - e' - t).toNat = k := ⟨_, rfl⟩
  refine ⟨k, by rw [hk]; congr 2; omega, by omega, fun above => ?_⟩
  -- the numerator is shifted until the quotient has places enough
  have quotient : 2 ^ 52 ≤ m * 2 ^ k / m' := by
    rw [Nat.le_div_iff_mul_le pos']
    calc 2 ^ 52 * m' ≤ 2 ^ 52 * 2 ^ (m'.log2 + 1) := Nat.mul_le_mul_left _ Nat.lt_log2_self.le
      _ ≤ 2 ^ (m.log2 + k) := by
        rw [← Nat.pow_add]
        exact Nat.pow_le_pow_right Nat.two_pos (by omega)
      _ ≤ m * 2 ^ k := by
        rw [Nat.pow_add]
        exact Nat.mul_le_mul_right _ (Nat.log2_self_le pos.ne')
  exact (Nat.le_log2 (by omega)).2 quotient

/-- The magnitude of a quotient of finite doubles is that of the double nearest to it. -/
theorem magnitude_div (hx : magnitude x < infinityBits) (hy : magnitude y < infinityBits)
    (divides : magnitude y ≠ 0) :
    sign (x / y) = sign x / sign y ∧
      magnitude (x / y) = nearestBits (steps (magnitude x)) (steps (magnitude y)) := by
  have quotient : x / y = packed (.div .binary64 x.toModel.unpack y.toModel.unpack) := rfl
  rw [quotient]
  have px := parts x
  have py := parts y
  generalize x.toModel.unpack = ux at px ⊢
  generalize y.toModel.unpack = uy at py ⊢
  generalize magnitude x = b at *
  generalize magnitude y = b' at *
  generalize sign x = s at *
  generalize sign y = s' at *
  unfold UnpackedFloat.div
  cases py with
  | notANumber more => omega
  | infinity same => omega
  | zero none => omega
  | finite pos' some' =>
    cases px with
    | notANumber more => omega
    | infinity same => omega
    | zero none =>
      simp only [none, steps_zero, nearestBits_zero]
      exact packed_zero _
    | finite pos some =>
      obtain ⟨k, core, low, spare⟩ := divCore_cases pos pos' (place b - 1074) (place b' - 1074)
      dsimp only
      rw [core]
      refine magnitude_round (s / s') pos' spare (c := place b + 1074 - k) (steps_pos some') ?_ rfl
        (by omega)
      rw [Nat.mul_assoc, ← Nat.pow_add, steps, Nat.mul_assoc,
        two_pow_mul_stepsPerOne (show place b + 1074 = k + (place b + 1074 - k) by omega)]

/-- A finite quotient is one of a finite double by a number that is not zero. -/
theorem finite_of_div (finite : magnitude (x / y) < infinityBits) :
    magnitude x < infinityBits ∧ magnitude y ≤ infinityBits ∧ magnitude y ≠ 0 := by
  have quotient : x / y = packed (.div .binary64 x.toModel.unpack y.toModel.unpack) := rfl
  rw [quotient] at finite
  have px := parts x
  have py := parts y
  generalize x.toModel.unpack = ux at px finite
  generalize y.toModel.unpack = uy at py finite
  have infinite (s : Sign) := (packed_infinity s).2
  have undefined := packed_notANumber
  have positive : 0 < infinityBits := by decide
  unfold UnpackedFloat.div at finite
  cases px <;> cases py <;> simp -failIfUnchanged only [infinite] at finite <;> omega

theorem magnitude_div_infinity (hx : magnitude x < infinityBits)
    (hy : magnitude y = infinityBits) :
    sign (x / y) = sign x / sign y ∧ magnitude (x / y) = 0 := by
  have quotient : x / y = packed (.div .binary64 x.toModel.unpack y.toModel.unpack) := rfl
  rw [quotient]
  have px := parts x
  have py := parts y
  generalize x.toModel.unpack = ux at px ⊢
  generalize y.toModel.unpack = uy at py ⊢
  cases py with
  | notANumber more => omega
  | zero none => simp [← hy, none] at hx
  | finite pos some => omega
  | infinity same =>
    cases px with
    | notANumber more => omega
    | infinity same => omega
    | zero | finite => exact packed_zero _

theorem undefined_of_div (undefined : infinityBits < magnitude y) :
    infinityBits < magnitude (x / y) := by
  have quotient : x / y = packed (.div .binary64 x.toModel.unpack y.toModel.unpack) := rfl
  rw [quotient]
  have py := parts y
  generalize y.toModel.unpack = uy at py ⊢
  cases py with
  | notANumber => cases x.toModel.unpack <;> exact packed_notANumber
  | infinity | zero | finite => omega

/-! ### Order -/

theorem apply_mono {f : Nat → Nat} (mono : Monotone f) (zero : f 0 = 0) {s s' : Sign} {b b' : Nat}
    (order : s.apply b ≤ s'.apply b') : s.apply (f b) ≤ s'.apply (f b') := by
  cases s <;> cases s' <;> simp only [Sign.apply] at order ⊢
  · have := mono (show b' ≤ b by omega)
    omega
  · omega
  · obtain rfl : b = 0 := by omega
    obtain rfl : b' = 0 := by omega
    omega
  · have := mono (show b ≤ b' by omega)
    omega

/-- **Products by a positive number keep the order.** -/
theorem mul_le_mul {z : Float} (positive : sign z = .positive) (order : x ≤ y)
    (hx : magnitude (x * z) < infinityBits) (hy : magnitude (y * z) < infinityBits) :
    x * z ≤ y * z := by
  have unsigned (s : Sign) : s * .positive = s := by cases s <;> rfl
  have mono : Monotone fun b =>
      nearestBits (steps b * steps (magnitude z)) (stepsPerOne * stepsPerOne) := fun b b' h =>
    have pos := Nat.mul_pos stepsPerOne_pos stepsPerOne_pos
    nearestBits_mono pos pos (Nat.mul_le_mul_right _ (Nat.mul_le_mul_right _ (steps_mono h)))
  obtain ⟨sx, mx⟩ := magnitude_mul (finite_of_mul hx).1 (finite_of_mul hx).2
  obtain ⟨sy, my⟩ := magnitude_mul (finite_of_mul hy).1 (finite_of_mul hy).2
  refine le_iff.2 ⟨hx.le, hy.le, ?_⟩
  rw [signed, signed, sx, sy, mx, my, positive, unsigned, unsigned]
  exact apply_mono mono (by simp only [steps_zero, Nat.zero_mul, nearestBits_zero])
    (le_iff.1 order).2.2

/-- **The larger a divisor, the smaller the quotient**, as far as their magnitudes go. -/
theorem magnitude_div_le {z : Float} (hz : magnitude z < infinityBits) (some : magnitude x ≠ 0)
    (order : magnitude x ≤ magnitude y) (hy : magnitude y ≤ infinityBits) :
    magnitude (z / y) ≤ magnitude (z / x) := by
  rcases hy.eq_or_lt with infinite | finite
  · rw [(magnitude_div_infinity hz infinite).2]
    exact Nat.zero_le _
  · rw [(magnitude_div hz finite (by omega)).2, (magnitude_div hz (by omega) some).2]
    exact nearestBits_mono (steps_pos (by omega)) (steps_pos some)
      (Nat.mul_le_mul_left _ (steps_mono order))

end ChordSequencer.Number

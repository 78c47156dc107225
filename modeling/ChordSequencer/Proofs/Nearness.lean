import ChordSequencer.Number.Double
import Mathlib.Tactic.Ring

/-!
# The double nearest to a quotient

The double nearest to a quotient has 53 binary places, and none below `2 ^ -1074`.  Which places are
kept is settled by two bounds (`KeptFrom`), whatever way they are found: `nearestBits` looks for
them with the logarithms of both numbers, the arithmetic of doubles by shifting.

* `roundQuotient_mono` : rounding goes along with the order of quotients.
* `nearestBits_eq` : the bits of the nearest double, from the places that are kept.
* `nearestBits_mono` : a larger quotient has no smaller a nearest double.
-/

namespace ChordSequencer.Number

variable {num den num' den' p p' : Nat}

/-! ### Rounding -/

theorem div_le_roundQuotient (num den : Nat) : num / den ≤ roundQuotient num den := by
  simp only [roundQuotient]
  split <;> omega

theorem roundQuotient_le (num den : Nat) : roundQuotient num den ≤ num / den + 1 := by
  simp only [roundQuotient]
  split <;> omega

theorem roundQuotient_one (n : Nat) : roundQuotient n 1 = n := by
  simp [roundQuotient, Nat.mod_one]

theorem roundQuotient_mul (num den : Nat) {c : Nat} (pos : 0 < c) :
    roundQuotient (num * c) (den * c) = roundQuotient num den := by
  have twice : 2 * (num % den * c) = 2 * (num % den) * c := (Nat.mul_assoc ..).symm
  simp only [roundQuotient, Nat.mul_div_mul_right _ _ pos, Nat.mul_mod_mul_right, twice,
    Nat.mul_lt_mul_right pos, Nat.mul_left_inj pos.ne']

theorem roundQuotient_le_of_le (h : num ≤ num') (den : Nat) :
    roundQuotient num den ≤ roundQuotient num' den := by
  have quotients : num / den ≤ num' / den := Nat.div_le_div_right h
  rcases quotients.eq_or_lt with same | less
  · have split := Nat.div_add_mod num den
    have split' := Nat.div_add_mod num' den
    simp only [roundQuotient, ← same] at split' ⊢
    split <;> split <;> omega
  · calc roundQuotient num den ≤ num / den + 1 := roundQuotient_le num den
      _ ≤ num' / den := less
      _ ≤ roundQuotient num' den := div_le_roundQuotient num' den

theorem roundQuotient_mono (pos : 0 < den) (pos' : 0 < den') (h : num * den' ≤ num' * den) :
    roundQuotient num den ≤ roundQuotient num' den' := by
  rw [← roundQuotient_mul num den pos', ← roundQuotient_mul num' den' pos, Nat.mul_comm den' den]
  exact roundQuotient_le_of_le h _

/-! ### The places that are kept -/

/-- Of `num / den` the places from `2 ^ p` on are kept: there are at most 53 of them, and fewer only
if the place is the last of all. -/
structure KeptFrom (num den p : Nat) : Prop where
  /-- There are at most 53 places. -/
  above : num < den * 2 ^ (p + 53)
  /-- There are 53 places, unless no further place could be kept. -/
  below : p = 0 ∨ den * 2 ^ (p + 52) ≤ num

namespace KeptFrom

theorem le (h : KeptFrom num den p) (h' : KeptFrom num' den' p')
    (order : num * den' ≤ num' * den) : p ≤ p' := by
  by_contra! less
  have pos : 0 < den := Nat.pos_of_mul_pos_right (Nat.zero_lt_of_lt h.above)
  have low := h.below.resolve_left (by omega)
  have powers : 2 ^ (p' + 53) ≤ 2 ^ (p + 52) := Nat.pow_le_pow_right Nat.two_pos (by omega)
  have := calc den * 2 ^ (p + 52) * den' ≤ num * den' := Nat.mul_le_mul_right _ low
    _ ≤ num' * den := order
    _ < den' * 2 ^ (p' + 53) * den := Nat.mul_lt_mul_of_pos_right h'.above pos
    _ ≤ den' * 2 ^ (p + 52) * den := Nat.mul_le_mul_right _ (Nat.mul_le_mul_left _ powers)
    _ = den * 2 ^ (p + 52) * den' := by ring
  exact this.false

theorem rounded_le (h : KeptFrom num den p) : roundQuotient num (den * 2 ^ p) ≤ 2 ^ 53 := by
  refine (roundQuotient_le _ _).trans (Nat.succ_le_of_lt (Nat.div_lt_of_lt_mul ?_))
  rw [Nat.mul_assoc, ← Nat.pow_add]
  exact h.above

theorem le_rounded (h : KeptFrom num den p) (some : p ≠ 0) :
    2 ^ 52 ≤ roundQuotient num (den * 2 ^ p) := by
  have pos : 0 < den := Nat.pos_of_mul_pos_right (Nat.zero_lt_of_lt h.above)
  refine le_trans ?_ (div_le_roundQuotient _ _)
  rw [Nat.le_div_iff_mul_le (Nat.mul_pos pos (Nat.two_pow_pos p)), Nat.mul_left_comm, ← Nat.pow_add,
    Nat.add_comm]
  exact h.below.resolve_left some

end KeptFrom

/-- The bits of the places that are kept, as if there were no largest double. -/
def keptBits (num den p : Nat) : Nat := p * 2 ^ 52 + roundQuotient num (den * 2 ^ p)

theorem KeptFrom.bits_le (h : KeptFrom num den p) (h' : KeptFrom num' den' p')
    (order : num * den' ≤ num' * den) : keptBits num den p ≤ keptBits num' den' p' := by
  have pos : 0 < den := Nat.pos_of_mul_pos_right (Nat.zero_lt_of_lt h.above)
  have pos' : 0 < den' := Nat.pos_of_mul_pos_right (Nat.zero_lt_of_lt h'.above)
  simp only [keptBits]
  rcases (h.le h' order).eq_or_lt with rfl | less
  · refine Nat.add_le_add_left (roundQuotient_mono ?_ ?_ ?_) _
    · exact Nat.mul_pos pos (Nat.two_pow_pos p)
    · exact Nat.mul_pos pos' (Nat.two_pow_pos p)
    · calc num * (den' * 2 ^ p) = num * den' * 2 ^ p := (Nat.mul_assoc ..).symm
        _ ≤ num' * den * 2 ^ p := Nat.mul_le_mul_right _ order
        _ = num' * (den * 2 ^ p) := Nat.mul_assoc ..
  · -- the numbers between two powers of two are rounded to one between them, or to one of both
    have high := h.rounded_le
    have low := h'.le_rounded (by omega)
    omega

/-! ### The nearest double -/

/-- All doubles are multiples of the least positive one; so many of these make up one. -/
@[irreducible] def stepsPerOne : Nat := 2 ^ 1074

theorem two_pow_eq {n : Nat} (h : n = 1074) : 2 ^ n = stepsPerOne := by
  subst h
  unfold stepsPerOne
  with_reducible rfl

theorem two_pow_mul_stepsPerOne {n k : Nat} (h : n + 1074 = k) : 2 ^ n * stepsPerOne = 2 ^ k := by
  obtain ⟨last, hlast⟩ : ∃ last, last = 1074 := ⟨_, rfl⟩
  rw [← two_pow_eq hlast, ← Nat.pow_add, ← h, hlast]

theorem stepsPerOne_pos : 0 < stepsPerOne := by
  rw [← two_pow_eq rfl]
  exact pow_pos Nat.two_pos _

theorem between_powers (some : num ≠ 0) (pos : 0 < den) (down up : Nat)
    (shift : num.log2 + down = den.log2 + up + 53) :
    den * 2 ^ up * 2 ^ 52 ≤ num * 2 ^ down ∧ num * 2 ^ down < den * 2 ^ up * 2 ^ 54 := by
  constructor
  · calc den * 2 ^ up * 2 ^ 52 ≤ 2 ^ (den.log2 + 1) * 2 ^ up * 2 ^ 52 :=
          Nat.mul_le_mul_right _ (Nat.mul_le_mul_right _ Nat.lt_log2_self.le)
      _ = 2 ^ num.log2 * 2 ^ down := by
          simp only [← Nat.pow_add]
          congr 1
          omega
      _ ≤ num * 2 ^ down := Nat.mul_le_mul_right _ (Nat.log2_self_le some)
  · calc num * 2 ^ down < 2 ^ (num.log2 + 1) * 2 ^ down :=
          Nat.mul_lt_mul_of_pos_right Nat.lt_log2_self (Nat.two_pow_pos down)
      _ = 2 ^ den.log2 * 2 ^ up * 2 ^ 54 := by
          simp only [← Nat.pow_add]
          congr 1
          omega
      _ ≤ den * 2 ^ up * 2 ^ 54 :=
          Nat.mul_le_mul_right _ (Nat.mul_le_mul_right _ (Nat.log2_self_le pos.ne'))

/-- The place that is found with logarithms, before those below the last of all are left out.  The
quotient is scaled by `2 ^ down / 2 ^ up`, so that the first guess is right, or one too low. -/
theorem lastPlace_guess (some : num ≠ 0) (pos : 0 < den) :
    ∃ down up i : Nat, lastPlace num den = max ((up : Int) - down + i) (-1074) ∧
      num * 2 ^ down < den * 2 ^ up * 2 ^ (i + 53) ∧
      den * 2 ^ up * 2 ^ (i + 52) ≤ num * 2 ^ down := by
  obtain ⟨guess, hguess⟩ : ∃ guess : Int, (num.log2 : Int) - den.log2 - 53 = guess := ⟨_, rfl⟩
  obtain ⟨down, hdown⟩ : ∃ n : Nat, (-guess).toNat = n := ⟨_, rfl⟩
  obtain ⟨up, hup⟩ : ∃ n : Nat, guess.toNat = n := ⟨_, rfl⟩
  obtain ⟨low, high⟩ := between_powers some pos down up (by omega)
  have scale : 0 < den * 2 ^ up := Nat.mul_pos pos (Nat.two_pow_pos up)
  have scaled : (if guess < 0 then num * 2 ^ (-guess).toNat / den
      else num / (den * 2 ^ guess.toNat)) = num * 2 ^ down / (den * 2 ^ up) := by
    split
    · rw [hdown, show up = 0 by omega, Nat.pow_zero, Nat.mul_one]
    · rw [hup, show down = 0 by omega, Nat.pow_zero, Nat.mul_one]
  simp only [lastPlace, Nat.shiftLeft_eq, hguess]
  rw [scaled, show guess = (up : Int) - down by omega]
  by_cases few : num * 2 ^ down / (den * 2 ^ up) < Nat.pow 2 53
  · refine ⟨down, up, 0, by rw [if_pos few, Nat.cast_zero, add_zero], ?_, low⟩
    exact (Nat.div_lt_iff_lt_mul scale).1 few |>.trans_eq (Nat.mul_comm ..)
  · refine ⟨down, up, 1, by rw [if_neg few, Nat.cast_one], high, ?_⟩
    rw [Nat.mul_comm, ← Nat.le_div_iff_mul_le scale]
    exact Nat.le_of_not_lt few

/-- The places that are found with logarithms are those that are kept. -/
theorem lastPlace_spec (some : num ≠ 0) (pos : 0 < den) :
    ∃ p : Nat, lastPlace num den = (p : Int) - 1074 ∧ KeptFrom (num * stepsPerOne) den p := by
  obtain ⟨down, up, i, place, above, below⟩ := lastPlace_guess some pos
  obtain ⟨p, hp⟩ : ∃ p : Nat, max ((up : Int) - down + i) (-1074) = (p : Int) - 1074 :=
    ⟨(max ((up : Int) - down + i) (-1074) + 1074).toNat, by omega⟩
  have moved (n : Nat) : den * 2 ^ up * 2 ^ (i + n) * stepsPerOne =
      den * 2 ^ (up + i + 1074 + n) := by
    rw [Nat.mul_assoc, Nat.mul_assoc, two_pow_mul_stepsPerOne rfl, ← Nat.pow_add]
    congr 2
    omega
  refine ⟨p, place.trans hp, ?_, ?_⟩
  · refine Nat.lt_of_mul_lt_mul_right (a := 2 ^ down) ?_
    calc num * stepsPerOne * 2 ^ down = num * 2 ^ down * stepsPerOne := Nat.mul_right_comm ..
      _ < den * 2 ^ up * 2 ^ (i + 53) * stepsPerOne :=
          Nat.mul_lt_mul_of_pos_right above stepsPerOne_pos
      _ = den * 2 ^ (up + i + 1074 + 53) := moved 53
      _ ≤ den * 2 ^ (p + 53 + down) :=
          Nat.mul_le_mul_left _ (Nat.pow_le_pow_right Nat.two_pos (by omega))
      _ = den * 2 ^ (p + 53) * 2 ^ down := by rw [Nat.pow_add _ (p + 53), Nat.mul_assoc]
  · by_cases least : p = 0
    · exact .inl least
    · refine .inr (Nat.le_of_mul_le_mul_right (c := 2 ^ down) ?_ (Nat.two_pow_pos down))
      calc den * 2 ^ (p + 52) * 2 ^ down = den * 2 ^ (up + i + 1074 + 52) := by
            rw [Nat.mul_assoc, ← Nat.pow_add, show p + 52 + down = up + i + 1074 + 52 by omega]
        _ = den * 2 ^ up * 2 ^ (i + 52) * stepsPerOne := (moved 52).symm
        _ ≤ num * 2 ^ down * stepsPerOne := Nat.mul_le_mul_right _ below
        _ = num * stepsPerOne * 2 ^ down := Nat.mul_right_comm ..

theorem nearestBits_zero (den : Nat) : nearestBits 0 den = 0 := rfl

theorem nearestBits_le (num den : Nat) : nearestBits num den ≤ infinityBits := by
  rw [nearestBits]
  split
  · exact Nat.zero_le _
  · exact min_le_right _ _

/-- **The bits of the nearest double.** -/
theorem nearestBits_eq (pos : 0 < den) (h : KeptFrom (num * stepsPerOne) den p) :
    nearestBits num den = min (keptBits (num * stepsPerOne) den p) infinityBits := by
  rcases Nat.eq_zero_or_pos num with rfl | some
  · have least : p = 0 := h.below.resolve_right fun low => by
      have := Nat.mul_pos pos (Nat.two_pow_pos (p + 52))
      omega
    rw [nearestBits_zero, least, keptBits, Nat.zero_mul]
    simp [roundQuotient]
  · obtain ⟨q, place, h'⟩ := lastPlace_spec some.ne' pos
    have same : q = p := le_antisymm (h'.le h le_rfl) (h.le h' le_rfl)
    subst same
    have shift : ((q : Int) - 1074 + 1074).toNat = q := by omega
    simp only [nearestBits, place, Nat.shiftLeft_eq, if_neg some.ne', keptBits, shift]
    -- the quotient is brought to multiples of the last place in one way or the other
    congr 2
    split
    · rw [← roundQuotient_mul _ _ (Nat.two_pow_pos q), Nat.mul_assoc, ← Nat.pow_add,
        two_pow_eq (by omega)]
    · rw [← roundQuotient_mul _ _ stepsPerOne_pos, Nat.mul_assoc den,
        two_pow_mul_stepsPerOne (show ((q : Int) - 1074).toNat + 1074 = q by omega)]

/-- **The nearest double goes along with the order of quotients.** -/
theorem nearestBits_mono (pos : 0 < den) (pos' : 0 < den') (order : num * den' ≤ num' * den) :
    nearestBits num den ≤ nearestBits num' den' := by
  rcases Nat.eq_zero_or_pos num with rfl | some
  · rw [nearestBits_zero]
    exact Nat.zero_le _
  · have some' : num' ≠ 0 := by
      rintro rfl
      have := Nat.mul_pos some pos'
      omega
    obtain ⟨p, -, h⟩ := lastPlace_spec some.ne' pos
    obtain ⟨p', -, h'⟩ := lastPlace_spec some' pos'
    rw [nearestBits_eq pos h, nearestBits_eq pos' h']
    refine min_le_min_right _ (h.bits_le h' ?_)
    rw [Nat.mul_right_comm, Nat.mul_right_comm num']
    exact Nat.mul_le_mul_right _ order

end ChordSequencer.Number

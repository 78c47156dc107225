import ChordSequencer.Proofs.Nearness

/-!
# Whole numbers that no double is near

A double has 53 binary places and an exponent below 1024, so a whole number from halfway between
the largest double and `2 ^ 1024` on has no nearest double (`ofInt?_eq_none_iff`).

A double is a number or it is none, and a number that is not positive is zero at most
(`positive_of_not_le`).
-/

namespace ChordSequencer.Number

variable {n : Nat}

/-- The whole numbers from halfway between the largest double and the power of two after it on. -/
def TooLarge (n : Nat) : Prop := 2 ^ 1024 - 2 ^ 970 ≤ n

instance (n : Nat) : Decidable (TooLarge n) := inferInstanceAs (Decidable (_ ≤ n))

theorem nearestBits_eq_infinity_iff : nearestBits n 1 = infinityBits ↔ TooLarge n := by
  have mono {m n : Nat} (h : m ≤ n) : nearestBits m 1 ≤ nearestBits n 1 :=
    nearestBits_mono Nat.one_pos Nat.one_pos (by omega)
  -- the least number that is too large, and the one before it
  obtain ⟨least, hleast⟩ : ∃ least : Nat, 2 ^ 1024 - 2 ^ 970 = least := ⟨_, rfl⟩
  have first : nearestBits least 1 = infinityBits := by
    rw [← hleast]
    decide +kernel
  have last : nearestBits (least - 1) 1 < infinityBits := by
    rw [← hleast]
    decide +kernel
  rw [TooLarge, hleast]
  constructor
  · intro infinite
    by_contra! small
    have := mono (Nat.le_sub_one_of_lt small)
    omega
  · intro large
    exact le_antisymm (nearestBits_le n 1) (first ▸ mono large)

/-- **A whole number has a nearest double** exactly when it is not too large. -/
theorem ofInt?_eq_none_iff (n : Nat) : ofInt? n = none ↔ TooLarge n := by
  rw [← nearestBits_eq_infinity_iff]
  simp only [ofInt?]
  simp only [Int.natAbs_natCast]
  split <;> simp_all

theorem ofInt?_of_not_tooLarge (fits : ¬ TooLarge n) : ofInt? n = some (nearest n 1) := by
  simp only [ofInt?, Int.natAbs_natCast]
  rw [if_neg (mt nearestBits_eq_infinity_iff.1 fits), if_neg (by omega)]

/-! ### Signs -/

theorem le_iff_unpack (x y : Float) : x ≤ y ↔ x.toModel.unpack.le y.toModel.unpack = true := by
  change Float.le x y = true ↔ _
  simp only [Float.le, decide_eq_true_eq]
  rfl

theorem lt_iff_unpack (x y : Float) : x < y ↔ x.toModel.unpack.lt y.toModel.unpack = true := by
  change Float.lt x y = true ↔ _
  simp only [Float.lt, decide_eq_true_eq]
  rfl

theorem positive_of_not_le {x : Float} (number : x.isNaN = false) (h : ¬ x ≤ 0.0) : 0.0 < x := by
  have zero : (0.0 : Float).toModel.unpack = .zero .positive := rfl
  rw [le_iff_unpack, zero] at h
  rw [lt_iff_unpack, zero]
  change x.toModel.unpack.isNaN = false at number
  generalize x.toModel.unpack = value at h number ⊢
  cases value with
  | notANumber => cases number
  | zero sign => cases sign <;> exact absurd rfl h
  | infinity sign | finite sign =>
    cases sign with
    | positive => rfl
    | negative => exact absurd rfl h

end ChordSequencer.Number

import ChordSequencer.Wheel
import Mathlib.Data.Int.ConditionallyCompleteOrder
import Mathlib.Data.List.Iterate
import Mathlib.Order.ConditionallyCompleteLattice.Basic

/-!
# Walks around a wheel

The next flagged position is looked for in two turns of a wheel.  That is far enough from wherever
the search begins, so that the walk never stops at a position that is not flagged.

* `Wheel.next_spec` : the next position lies above, it is flagged, and none between is.
* `Wheel.next_eq` : there is only one such position.
* `Wheel.next_of_lists` : what lists the flagged positions in order is stepped through.
* `Wheel.climb_ascends` : chords are walked upwards.
-/

namespace ChordSequencer

namespace Wheel

variable (w : Wheel) {p q : Int}

/-- Some position of the wheel is flagged, and so is every one at a distance of whole turns. -/
theorem exists_flag : ∃ f < w.size, ∀ q : Int, q.natAbs % w.size = f → w.flagged q = true := by
  obtain ⟨f, bound, flag⟩ := List.mem_iff_getElem.1 w.hasFlag
  refine ⟨f, bound, fun q same => ?_⟩
  rw [flagged, same, List.getD_eq_getElem?_getD, List.getElem?_eq_getElem bound, flag]
  rfl

theorem exists_remainder {f n : Nat} (bound : f < n) (a : Nat) :
    ∃ q, a ≤ q ∧ q < a + n ∧ q % n = f := by
  have parts := Nat.div_add_mod a n
  have rest := Nat.mod_lt a (Nat.zero_lt_of_lt bound)
  -- the remainder is still to come in the turn of `a`, or it comes first in the next one
  by_cases here : a % n ≤ f
  · refine ⟨n * (a / n) + f, by omega, by omega, ?_⟩
    rw [Nat.mul_add_mod, Nat.mod_eq_of_lt bound]
  · refine ⟨n * (a / n + 1) + f, ?_, ?_, ?_⟩
    · rw [Nat.mul_add]
      omega
    · rw [Nat.mul_add]
      omega
    · rw [Nat.mul_add_mod, Nat.mod_eq_of_lt bound]

/-- Within two turns above a position there is one that is flagged: one of the turns lies on one
side of zero, unless all positions from zero to the first full turn are among them. -/
theorem exists_flagged_above (p : Int) : ∃ q, p < q ∧ q ≤ p + 2 * w.size ∧ w.flagged q = true := by
  obtain ⟨f, bound, flag⟩ := w.exists_flag
  by_cases above : 0 ≤ p + 1
  · obtain ⟨q, low, high, same⟩ := exists_remainder bound (p + 1).toNat
    exact ⟨q, by omega, by omega, flag q (by rw [Int.natAbs_natCast, same])⟩
  · by_cases below : p + w.size < 0
    · obtain ⟨q, low, high, same⟩ := exists_remainder bound (-(p + w.size)).toNat
      exact ⟨-q, by omega, by omega, flag (-q) (by rw [Int.natAbs_neg, Int.natAbs_natCast, same])⟩
    · refine ⟨f, by omega, by omega, flag f ?_⟩
      rw [Int.natAbs_natCast, Nat.mod_eq_of_lt bound]

/-- A search ends at the first flagged position, if it looks far enough. -/
theorem seekUp_spec (n : Nat) : ∀ {p : Int}, (∃ q, p ≤ q ∧ q < p + n ∧ w.flagged q = true) →
    p ≤ w.seekUp n p ∧ w.flagged (w.seekUp n p) = true ∧
      ∀ q, p ≤ q → q < w.seekUp n p → w.flagged q = false := by
  induction n with
  | zero =>
    rintro p ⟨q, low, high, -⟩
    omega
  | succ n ih =>
    rintro p ⟨q, low, high, flag⟩
    simp only [seekUp]
    split
    · rename_i here
      exact ⟨Int.le_refl p, here, fun q low high => by omega⟩
    · rename_i other
      have ahead : q ≠ p := by
        rintro rfl
        exact other flag
      obtain ⟨above, found, first⟩ := ih (p := p + 1) ⟨q, by omega, by omega, flag⟩
      refine ⟨by omega, found, fun q low high => ?_⟩
      by_cases here : q = p
      · rw [here]
        exact Bool.eq_false_iff.2 other
      · exact first q (by omega) high

/-- **The next flagged position** lies above, and none that is flagged lies between. -/
theorem next_spec (p : Int) :
    p < w.next p ∧ w.flagged (w.next p) = true ∧
      ∀ q, p < q → q < w.next p → w.flagged q = false := by
  obtain ⟨q, low, high, flag⟩ := w.exists_flagged_above p
  obtain ⟨above, found, first⟩ := w.seekUp_spec (2 * w.size) (p := p + 1)
    ⟨q, by omega, by omega, flag⟩
  exact ⟨by rw [next]; omega, found, fun q low high => first q (by omega) high⟩

variable {w}

/-- What is flagged with nothing flagged before it is the next flagged position. -/
theorem next_eq (above : p < q) (flag : w.flagged q = true)
    (first : ∀ t, p < t → t < q → w.flagged t = false) : w.next p = q := by
  obtain ⟨low, found, nearest⟩ := w.next_spec p
  rcases Int.lt_trichotomy (w.next p) q with before | same | after
  · rw [first _ low before] at found
    cases found
  · exact same
  · rw [nearest q above after] at flag
    cases flag

/-! ### Walks along a sequence -/

section

variable {e : Nat → Int}

/-- **A wheel steps through the sequence that lists its flagged positions** in order.  The first
position of the sequence need not be flagged itself. -/
theorem next_of_lists (rises : StrictMono e) (flag : ∀ n, w.flagged (e (n + 1)) = true)
    (listed : ∀ p, e 0 < p → w.flagged p = true → ∃ n, e n = p) (n : Nat) :
    w.next (e n) = e (n + 1) := by
  refine next_eq (rises n.lt_add_one) (flag n) fun p above below => ?_
  refine Bool.eq_false_iff.2 fun here => ?_
  -- a flagged position is in the sequence, and nothing is between two successive places of it
  obtain ⟨m, rfl⟩ := listed p ((rises.monotone n.zero_le).trans_lt above) here
  have := rises.lt_iff_lt.1 above
  have := rises.lt_iff_lt.1 below
  omega

theorem repeat_next_of_steps (steps : ∀ n, w.next (e n) = e (n + 1)) (n : Nat) :
    Nat.repeat w.next n (e 0) = e n := by
  induction n with
  | zero => rfl
  | succ n ih => rw [Nat.repeat, ih, steps]

theorem climb_of_steps (steps : ∀ n, w.next (e n) = e (n + 1)) (count : Nat) : ∀ n : Nat,
    w.climb count (e n) = (List.iterate (· + 2) n count).map e := by
  induction count with
  | zero => exact fun _ => rfl
  | succ count ih =>
    intro n
    rw [climb, nextThird, steps, steps, ih]
    rfl

end

/-! ### Upwards -/

variable (w)

theorem lt_nextThird (p : Int) : p < w.nextThird p := by
  have first := (w.next_spec p).1
  have second := (w.next_spec (w.next p)).1
  rw [nextThird]
  omega

/-- Chords are walked upwards. -/
theorem climb_ascends (n : Nat) (p : Int) :
    (∀ q ∈ w.climb n p, p ≤ q) ∧ (w.climb n p).Pairwise (· < ·) := by
  induction n generalizing p with
  | zero => exact ⟨List.forall_mem_nil _, List.Pairwise.nil⟩
  | succ n ih =>
    obtain ⟨above, ascends⟩ := ih (w.nextThird p)
    have third := w.lt_nextThird p
    have higher (q : Int) (mem : q ∈ w.climb n (w.nextThird p)) : p < q :=
      Int.lt_of_lt_of_le third (above q mem)
    refine ⟨fun q mem => ?_, List.pairwise_cons.2 ⟨higher, ascends⟩⟩
    rcases List.mem_cons.1 mem with rfl | later
    · exact Int.le_refl q
    · exact Int.le_of_lt (higher q later)

end Wheel

end ChordSequencer

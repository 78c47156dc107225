import ChordSequencer.Proofs.Walks
import Mathlib.Order.Bounds.Basic

/-!
# Stepping around a wheel

A flag is looked up by the distance of its position from zero, so that a wheel is mirrored there:
stepping down from a position is stepping up from the opposite one.

* `Wheel.SearchEnds` : where a search ends that goes on, without a bound, to a flagged position.
* `Wheel.prev_neg` : the two directions mirror each other.
* `Wheel.prev_next`, `Wheel.next_prev` : a step there and a step back.
* `Wheel.steps_exactly` : both directions of a step, and how they belong together.
-/

namespace ChordSequencer

namespace Wheel

/-- A search that goes on by the same step until it comes to a flagged position, however far away,
leads from one position to another. -/
inductive SearchEnds (w : Wheel) (step : Int) : Int → Int → Prop
  /-- It ends at a flagged position. -/
  | here {p : Int} (flag : w.flagged p = true) : SearchEnds w step p p
  /-- From any other position it goes on. -/
  | further {p q : Int} (other : w.flagged p = false) (ends : SearchEnds w step (p + step) q) :
      SearchEnds w step p q

variable {w : Wheel} {p q step : Int}

/-! ### The mirror -/

theorem flagged_neg (p : Int) : w.flagged (-p) = w.flagged p := by
  rw [flagged, flagged, Int.natAbs_neg]

theorem seekDown_neg (n : Nat) : ∀ p, w.seekDown n (-p) = -w.seekUp n p := by
  induction n with
  | zero => exact fun p => rfl
  | succ n ih =>
    intro p
    rw [seekDown, seekUp, flagged_neg, show -p - 1 = -(p + 1) by omega, ih]
    split <;> rfl

/-- **Stepping down mirrors stepping up.** -/
theorem prev_neg (p : Int) : w.prev (-p) = -w.next p := by
  rw [prev, next, show -p - 1 = -(p + 1) by omega, seekDown_neg]

theorem prev_eq_neg (p : Int) : w.prev p = -w.next (-p) := by
  rw [← prev_neg, Int.neg_neg]

theorem SearchEnds.neg (h : w.SearchEnds step p q) : w.SearchEnds (-step) (-p) (-q) := by
  induction h with
  | here flag => exact .here ((flagged_neg _).trans flag)
  | further other _ ih =>
    rw [Int.neg_add] at ih
    exact .further ((flagged_neg _).trans other) ih

/-! ### One step -/

/-- A bounded search that has come to a flagged position is where the unbounded one ends. -/
theorem seekUp_ends (n : Nat) : ∀ {p : Int}, w.flagged (w.seekUp n p) = true →
    w.SearchEnds 1 p (w.seekUp n p) := by
  induction n with
  | zero => exact fun flag => .here flag
  | succ n ih =>
    intro p flag
    rw [seekUp] at flag ⊢
    split
    · rename_i here
      exact .here here
    · rename_i other
      rw [if_neg other] at flag
      exact .further (Bool.eq_false_iff.2 other) (ih flag)

theorem next_ends (p : Int) : w.SearchEnds 1 (p + 1) (w.next p) :=
  seekUp_ends _ (w.next_spec p).2.1

theorem prev_ends (p : Int) : w.SearchEnds (-1) (p - 1) (w.prev p) := by
  have mirrored := (w.next_ends (-p)).neg
  rwa [← prev_eq_neg, show -(-p + 1) = p - 1 by omega] at mirrored

/-- **The flagged position before** lies below, and none that is flagged lies between. -/
theorem prev_spec (p : Int) :
    w.prev p < p ∧ w.flagged (w.prev p) = true ∧
      ∀ q, w.prev p < q → q < p → w.flagged q = false := by
  obtain ⟨above, flag, first⟩ := w.next_spec (-p)
  rw [prev_eq_neg]
  refine ⟨by omega, (flagged_neg _).trans flag, fun q low high => ?_⟩
  rw [← flagged_neg]
  exact first (-q) (by omega) (by omega)

theorem prev_eq (below : q < p) (flag : w.flagged q = true)
    (last : ∀ t, q < t → t < p → w.flagged t = false) : w.prev p = q := by
  rw [prev_eq_neg, next_eq (p := -p) (q := -q) (by omega) ((flagged_neg q).trans flag), Int.neg_neg]
  intro t low high
  rw [← flagged_neg]
  exact last (-t) (by omega) (by omega)

theorem next_isLeast (p : Int) : IsLeast {q | p < q ∧ w.flagged q = true} (w.next p) := by
  obtain ⟨above, flag, first⟩ := w.next_spec p
  refine ⟨⟨above, flag⟩, fun q ⟨high, found⟩ => Int.not_lt.1 fun before => ?_⟩
  rw [first q high before] at found
  cases found

theorem prev_isGreatest (p : Int) : IsGreatest {q | q < p ∧ w.flagged q = true} (w.prev p) := by
  obtain ⟨below, flag, last⟩ := w.prev_spec p
  refine ⟨⟨below, flag⟩, fun q ⟨low, found⟩ => Int.not_lt.1 fun after => ?_⟩
  rw [last q after low] at found
  cases found

/-! ### There and back -/

theorem prev_next (flag : w.flagged p = true) : w.prev (w.next p) = p := by
  obtain ⟨above, -, first⟩ := w.next_spec p
  exact prev_eq above flag first

theorem next_prev (flag : w.flagged p = true) : w.next (w.prev p) = p := by
  obtain ⟨below, -, last⟩ := w.prev_spec p
  exact next_eq below flag last

/-- **A step goes to the nearest flagged position**, and the search for it ends there, from every
position above zero or below it.  A step down mirrors a step up, and each undoes the other on the
flagged positions. -/
theorem steps_exactly (w : Wheel) (p : Int) :
    (w.SearchEnds 1 (p + 1) (w.next p) ∧
      IsLeast {q | p < q ∧ w.flagged q = true} (w.next p)) ∧
    (w.SearchEnds (-1) (p - 1) (w.prev p) ∧
      IsGreatest {q | q < p ∧ w.flagged q = true} (w.prev p)) ∧
    w.prev (-p) = -w.next p ∧
    (w.flagged p = true → w.prev (w.next p) = p ∧ w.next (w.prev p) = p) :=
  ⟨⟨next_ends p, next_isLeast p⟩, ⟨prev_ends p, prev_isGreatest p⟩, prev_neg p,
    fun flag => ⟨prev_next flag, next_prev flag⟩⟩

/-- Below zero a wheel is read backwards: on the one of the flags `0100` the positions 1 and 5
above zero are mirrored by -1 and -5, and both steps from -5 can be taken back. -/
theorem steps_exactly_mirrored : ∃ w, ofText "0100" "" = .ok w ∧ w.flagged (-5) = true ∧
    w.next (-5) = -1 ∧ w.next (-1) = 1 ∧ w.prev (-1) = -5 ∧
    w.prev (w.next (-5)) = -5 ∧ w.next (w.prev (-5)) = -5 := by
  obtain ⟨w, built⟩ : ∃ w, ofText "0100" "" = .ok w := ⟨_, rfl⟩
  have flag : w.flagged (-5) = true := by
    cases built
    decide
  obtain ⟨up, down⟩ := (steps_exactly w (-5)).2.2.2 flag
  refine ⟨w, built, flag, ?_, ?_, ?_, up, down⟩ <;> cases built <;> decide

end Wheel

end ChordSequencer

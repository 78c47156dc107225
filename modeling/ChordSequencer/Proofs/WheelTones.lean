import ChordSequencer.Proofs.Walks
import Mathlib.Data.List.GetD

/-!
# The tones of a wheel

From zero upwards the flagged positions of a wheel are those of its first turn, and the same in each
turn after it.  A root is put on one of them, or on position 0 even where that is not flagged, and a
chord goes through every other one from there.

* `Wheel.toneAt` : the flagged positions by their numbers, without walking there.
* `Wheel.strictMono_toneAt`, `Wheel.flagged_iff_toneAt` : they go up, and there are no others.
* `Wheel.rootAt`, `Wheel.next_rootAt` : the positions that roots are put on, one step after another.
* `Wheel.chord_positions` : the root and the chord in closed form.
-/

namespace ChordSequencer

namespace Wheel

variable (w : Wheel)

/-- The flagged positions of the first turn. -/
def places : List Nat := (List.range w.size).filter fun p => w.flags.getD p false

/-- The flagged positions from zero upwards, through one turn after another. -/
def toneAt (n : Nat) : Int := w.places.getD (n % w.tones) 0 + w.size * (n / w.tones : Nat)

/-- The positions that roots are put on: position 0, and the flagged ones above it. -/
def rootAt : Nat → Int
  | 0 => 0
  | n + 1 => if w.flagged 0 then w.toneAt (n + 1) else w.toneAt n

variable {w} {p : Nat}

/-! ### One turn -/

theorem mem_places : p ∈ w.places ↔ w.flags[p]? = some true := by
  rw [places, List.mem_filter, List.mem_range, size, List.getD_eq_getElem?_getD]
  constructor
  · rintro ⟨bound, flag⟩
    rw [List.getElem?_eq_getElem bound] at flag ⊢
    exact congrArg some flag
  · intro flag
    exact ⟨(List.getElem?_eq_some_iff.1 flag).1, by rw [flag]; rfl⟩

theorem places_ascend : w.places.Pairwise (· < ·) := List.pairwise_lt_range.filter _

theorem length_places : w.places.length = w.tones := by
  have flags : w.flags = (List.range w.size).map fun p => w.flags.getD p false := by
    refine List.ext_getElem (by simp [size]) fun p bound _ => ?_
    rw [List.getElem_map, List.getElem_range, List.getD_eq_getElem _ _ bound]
  rw [tones, flags, List.count_eq_countP, List.countP_map, List.countP_eq_length_filter, places]
  simp [Function.comp_def]

theorem tones_pos : 0 < w.tones := List.count_pos_iff.2 w.hasFlag

theorem size_pos : 0 < w.size := List.length_pos_of_mem w.hasFlag

theorem place_lt (bound : p < w.places.length) : w.places[p] < w.size :=
  (List.getElem?_eq_some_iff.1 (mem_places.1 (List.getElem_mem bound))).1

/-! ### One turn after another -/

theorem toneAt_place (bound : p < w.places.length) (turn : Nat) :
    w.toneAt (p + turn * w.tones) = w.places[p] + w.size * turn := by
  have less : p < w.tones := length_places ▸ bound
  rw [toneAt, Nat.add_mul_mod_self_right, Nat.mod_eq_of_lt less,
    Nat.add_mul_div_right _ _ tones_pos, Nat.div_eq_of_lt less, Nat.zero_add,
    List.getD_eq_getElem _ _ bound]

theorem exists_place (n : Nat) : ∃ p < w.places.length, ∃ turn, n = p + turn * w.tones :=
  ⟨n % w.tones, by rw [length_places]; exact Nat.mod_lt n tones_pos, n / w.tones,
    (Nat.mod_add_div' n w.tones).symm⟩

theorem toneAt_lt_succ (n : Nat) : w.toneAt n < w.toneAt (n + 1) := by
  obtain ⟨p, bound, turn, rfl⟩ := exists_place (w := w) n
  rw [toneAt_place bound]
  by_cases inside : p + 1 < w.places.length
  · have step := List.pairwise_iff_getElem.1 places_ascend p (p + 1) bound inside p.lt_add_one
    rw [Nat.add_right_comm, toneAt_place inside]
    omega
  · -- the next tone is the first one of the turn above
    have below := place_lt bound
    have last : p + 1 = w.tones := by
      rw [← length_places]
      omega
    have next : p + turn * w.tones + 1 = 0 + (turn + 1) * w.tones := by
      rw [Nat.add_mul]
      omega
    rw [next, toneAt_place (Nat.zero_lt_of_lt bound), Int.natCast_add, Int.mul_add]
    omega

/-- **The tones go up.** -/
theorem strictMono_toneAt : StrictMono w.toneAt := strictMono_nat_of_lt_succ toneAt_lt_succ

theorem toneAt_nonneg (n : Nat) : 0 ≤ w.toneAt n := by
  have turns : 0 ≤ (w.size : Int) * (n / w.tones : Nat) := Int.natCast_nonneg (_ * _)
  exact Int.add_nonneg (Int.natCast_nonneg _) turns

/-- **The flagged positions are the tones**, from zero upwards. -/
theorem flagged_iff_toneAt {q : Int} (low : 0 ≤ q) : w.flagged q = true ↔ ∃ n, w.toneAt n = q := by
  obtain ⟨p, rfl⟩ := Int.eq_ofNat_of_zero_le low
  have turns := Nat.mod_add_div p w.size
  rw [flagged, Int.natAbs_natCast]
  constructor
  · intro flag
    have mem : p % w.size ∈ w.places := by
      rw [places, List.mem_filter, List.mem_range]
      exact ⟨Nat.mod_lt p size_pos, flag⟩
    obtain ⟨i, bound, there⟩ := List.mem_iff_getElem.1 mem
    refine ⟨i + p / w.size * w.tones, ?_⟩
    rw [toneAt_place bound, there]
    exact_mod_cast turns
  · rintro ⟨n, same⟩
    obtain ⟨i, bound, turn, rfl⟩ := exists_place (w := w) n
    rw [toneAt_place bound] at same
    have folded : p % w.size = w.places[i] := by
      have : p = w.places[i] + w.size * turn := by exact_mod_cast same.symm
      rw [this, Nat.add_mul_mod_self_left, Nat.mod_eq_of_lt (place_lt bound)]
    rw [folded, List.getD_eq_getElem?_getD, mem_places.1 (List.getElem_mem bound)]
    rfl

/-! ### Roots -/

theorem toneAt_zero_eq (flag : w.flagged 0 = true) : w.toneAt 0 = 0 := by
  -- position 0 is a tone, and none of the others lies as low as the first one
  obtain ⟨n, same⟩ := (flagged_iff_toneAt (Int.le_refl 0)).1 flag
  have first : w.toneAt 0 ≤ w.toneAt n := strictMono_toneAt.monotone n.zero_le
  exact Int.le_antisymm (first.trans_eq same) (toneAt_nonneg 0)

theorem toneAt_zero_pos (unflagged : w.flagged 0 = false) : 0 < w.toneAt 0 := by
  refine (toneAt_nonneg 0).lt_of_ne fun same => ?_
  rw [same, (flagged_iff_toneAt (toneAt_nonneg 0)).2 ⟨0, rfl⟩] at unflagged
  cases unflagged

theorem rootAt_of_flagged (flag : w.flagged 0 = true) : w.rootAt = w.toneAt := by
  funext n
  cases n with
  | zero => exact (toneAt_zero_eq flag).symm
  | succ n => rw [rootAt, if_pos flag]

theorem rootAt_succ_of_unflagged (unflagged : w.flagged 0 = false) (n : Nat) :
    w.rootAt (n + 1) = w.toneAt n := by
  rw [rootAt, unflagged]
  rfl

theorem strictMono_rootAt : StrictMono w.rootAt := by
  cases flag : w.flagged 0 with
  | true =>
    rw [rootAt_of_flagged flag]
    exact strictMono_toneAt
  | false =>
    refine strictMono_nat_of_lt_succ fun n => ?_
    rw [rootAt_succ_of_unflagged flag]
    cases n with
    | zero => exact toneAt_zero_pos flag
    | succ n =>
      rw [rootAt_succ_of_unflagged flag]
      exact toneAt_lt_succ n

theorem flagged_iff_rootAt {q : Int} (above : 0 < q) :
    w.flagged q = true ↔ ∃ n, w.rootAt (n + 1) = q := by
  rw [flagged_iff_toneAt above.le]
  cases flag : w.flagged 0 with
  | true =>
    rw [rootAt_of_flagged flag]
    refine ⟨fun ⟨n, same⟩ => ?_, fun ⟨n, same⟩ => ⟨n + 1, same⟩⟩
    cases n with
    | zero =>
      rw [toneAt_zero_eq flag] at same
      omega
    | succ n => exact ⟨n, same⟩
  | false => simp only [rootAt_succ_of_unflagged flag]

/-- **Stepping up goes from root to root.** -/
theorem next_rootAt (n : Nat) : w.next (w.rootAt n) = w.rootAt (n + 1) := by
  refine next_of_lists strictMono_rootAt (fun n => ?_) (fun q above flag => ?_) n
  · exact (flagged_iff_rootAt (strictMono_rootAt n.zero_lt_succ)).2 ⟨n, rfl⟩
  · obtain ⟨n, same⟩ := (flagged_iff_rootAt above).1 flag
    exact ⟨n + 1, same⟩

theorem next_toneAt (n : Nat) : w.next (w.toneAt n) = w.toneAt (n + 1) := by
  cases flag : w.flagged 0 with
  | true =>
    rw [← rootAt_of_flagged flag]
    exact next_rootAt n
  | false =>
    rw [← rootAt_succ_of_unflagged flag, ← rootAt_succ_of_unflagged flag]
    exact next_rootAt (n + 1)

theorem startAt_root (n : Int) : (w.startAt n).chord.root = w.rootAt (n - 1).toNat :=
  repeat_next_of_steps next_rootAt _

/-! ### Chords -/

theorem iterate_add_two (n count : Nat) :
    List.iterate (· + 2) n count = (List.range count).map fun j => n + 2 * j := by
  rw [← List.range_map_iterate]
  simp [add_right_iterate, Nat.mul_comm]

theorem chordNotes_of_steps {e : Nat → Int} (steps : ∀ n, w.next (e n) = e (n + 1)) {n : Nat}
    (root : w.chord.root = e n) :
    w.chordNotes = (List.range w.chord.voices.toNat).map fun j => e (n + 2 * j) := by
  rw [chordNotes, root, climb_of_steps steps, iterate_add_two, List.map_map]
  rfl

/-- **Roots and chords in closed form.**  The tones of a wheel are its flagged positions, in order,
and in each turn as many positions higher as it has.  Where position 0 is flagged, a root is put on
the tone of its number; where it is not, position 0 is the first root and the others are one tone
lower.  A chord goes through every other tone above its root. -/
theorem chord_positions (w : Wheel) :
    (w.places.Pairwise (· < ·) ∧ (∀ p, p ∈ w.places ↔ w.flags[p]? = some true) ∧
      w.places.length = w.tones) ∧
    (∀ n : Int, (w.startAt n).chord.root =
      if n ≤ 1 then 0
      else if w.flagged 0 then w.toneAt (n - 1).toNat else w.toneAt (n - 2).toNat) ∧
    (∀ a, w.chord.root = w.toneAt a →
      w.chordNotes = (List.range w.chord.voices.toNat).map fun j => w.toneAt (a + 2 * j)) ∧
    (w.flagged 0 = false → w.chord.root = 0 →
      w.chordNotes = (List.range w.chord.voices.toNat).map fun j =>
        if j = 0 then 0 else w.toneAt (2 * j - 1)) := by
  refine ⟨⟨places_ascend, fun _ => mem_places, length_places⟩, fun n => ?_,
    fun a root => chordNotes_of_steps next_toneAt root, fun unflagged root => ?_⟩
  · rw [startAt_root]
    split
    · rename_i low
      rw [Int.toNat_eq_zero.2 (by omega)]
      rfl
    · rename_i high
      obtain ⟨m, count⟩ := Int.eq_ofNat_of_zero_le (show 0 ≤ n - 2 by omega)
      rw [show n - 1 = (m + 1 : Nat) by omega, count, Int.toNat_natCast, Int.toNat_natCast, rootAt]
  · -- position 0 and the tones above it are the roots, and the chord goes along these
    rw [chordNotes_of_steps next_rootAt (n := 0) root]
    refine List.map_congr_left fun j _ => ?_
    cases j with
    | zero => rfl
    | succ j =>
      rw [Nat.zero_add, Nat.mul_succ, rootAt_succ_of_unflagged unflagged]
      rfl

/-- Four voices on the wheel of the flags `01011`, over the root on position 0 and over the one on
position 3. -/
theorem chord_positions_unflagged : ∃ w, ofText "01011" "" = .ok w ∧ w.flagged 0 = false ∧
    (w.startAt 3).chord.root = 3 ∧
    ((w.startAt 1).withVoices 4).chordNotes = [0, 3, 6, 9] ∧
    ((w.startAt 3).withVoices 4).chordNotes = [3, 6, 9, 13] := by
  obtain ⟨w, built⟩ : ∃ w, ofText "01011" "" = .ok w := ⟨_, rfl⟩
  have flag : w.flagged 0 = false := by
    cases built
    decide
  have third : (w.startAt 3).chord.root = w.toneAt 1 := by
    rw [(chord_positions w).2.1, flag]
    rfl
  have low := (chord_positions ((w.startAt 1).withVoices 4)).2.2.2 flag rfl
  have high := (chord_positions ((w.startAt 3).withVoices 4)).2.2.1 1 third
  refine ⟨w, built, flag, ?_, low.trans ?_, high.trans ?_⟩
  · rw [third]
    cases built
    decide
  · cases built
    decide
  · cases built
    decide

end Wheel

end ChordSequencer

import ChordSequencer.Proofs.Registering
import Mathlib.Algebra.Order.Floor.Div
import Mathlib.Data.Int.ConditionallyCompleteOrder
import Mathlib.Data.List.Iterate

/-!
# Thirds over a scale

Degrees are counted up and down from the tonic of a scale, through one octave after another.  A
chord is built of thirds: each of its voices lies two degrees above the one before, but none is
carried past a tonic (`Scale.thirdAbove`).

* `Scale.chord_eq_notesAt` : a chord goes through the degrees of its thirds.
* `Scale.chord_voices` : each voice by its number, without going through the ones before.
* `Scale.chord_steps` : from one voice to the next it goes up, by an octave at most.
* `Scale.chord_follows_root` : chords go up with their roots, voice by voice.
-/

namespace ChordSequencer

namespace Scale

variable (s : Scale)

theorem size_pos : 0 < s.size := List.length_pos_of_ne_nil s.nonempty

theorem cast_size_pos : (0 : Int) < s.size := Int.natCast_pos.2 s.size_pos

variable {s}

theorem offset_eq {degree : Nat} (h : degree < s.offsets.length) :
    s.offset degree = s.offsets[degree] := by
  rw [offset, List.getD_eq_getElem?_getD, List.getElem?_eq_getElem h]
  rfl

theorem Ascends.offset_lt (h : s.Ascends) {a b : Nat} (less : a < b) (bound : b < s.size) :
    s.offset a < s.offset b := by
  rw [offset_eq (less.trans bound), offset_eq bound]
  exact List.pairwise_iff_getElem.1 h.ascending a b (less.trans bound) bound less

theorem Ascends.offset_range (h : s.Ascends) {degree : Nat} (bound : degree < s.size) :
    0 ≤ s.offset degree ∧ s.offset degree < semitones := by
  rw [offset_eq bound]
  exact h.inOctave _ (List.getElem_mem bound)

/-! ### Degrees in octaves -/

variable (s)

/-- The note of a degree, counted up and down from the tonic. -/
def noteAt (degree : Int) : Int :=
  s.offset (degree % s.size).toNat + degree / s.size * semitones

/-- The degree a third above another one: two degrees further, but not past the next tonic. -/
def thirdAbove (degree : Int) : Int := min (degree + 2) ((degree / s.size + 1) * s.size)

theorem folded_place (degree : Int) : (degree % s.size).toNat < s.size ∧
    ((degree % s.size).toNat : Int) + degree / s.size * s.size = degree := by
  have low := Int.emod_nonneg degree s.cast_size_pos.ne'
  have high := Int.emod_lt_of_pos degree s.cast_size_pos
  refine ⟨by omega, ?_⟩
  rw [Int.toNat_of_nonneg low, Int.emod_add_ediv_mul]

theorem exists_place (degree : Int) :
    ∃ i < s.size, ∃ octave : Int, degree = i + octave * s.size :=
  ⟨_, (s.folded_place degree).1, _, (s.folded_place degree).2.symm⟩

variable {s} {i : Nat}

theorem place_div_mod (bound : i < s.size) (octave : Int) :
    (i + octave * s.size) / s.size = octave ∧ (i + octave * s.size) % s.size = i := by
  rw [Int.add_mul_ediv_right _ _ s.cast_size_pos.ne', Int.add_mul_emod_self_right,
    Int.ediv_eq_zero_of_lt (by omega) (by omega), Int.emod_eq_of_lt (by omega) (by omega)]
  exact ⟨Int.zero_add _, rfl⟩

theorem noteAt_place (bound : i < s.size) (octave : Int) :
    s.noteAt (i + octave * s.size) = s.offset i + octave * semitones := by
  rw [noteAt, (place_div_mod bound octave).1, (place_div_mod bound octave).2, Int.toNat_natCast]

theorem some_noteAt_place (bound : i < s.size) (octave : Int) :
    some (s.noteAt (i + octave * s.size)) = s.offsets[i]?.map (· + 12 * octave) := by
  rw [noteAt_place bound, offset_eq bound, List.getElem?_eq_getElem bound, Int.mul_comm]
  rfl

theorem thirdAbove_place (bound : i < s.size) (octave : Int) :
    s.thirdAbove (i + octave * s.size) =
      if i + 2 < s.size then ((i + 2 : Nat) : Int) + octave * s.size
      else (octave + 1) * s.size := by
  rw [thirdAbove, (place_div_mod bound octave).1, Int.add_mul]
  split <;> omega

theorem noteAt_lt_succ (h : s.Ascends) (degree : Int) :
    s.noteAt degree < s.noteAt (degree + 1) := by
  obtain ⟨i, bound, octave, rfl⟩ := s.exists_place degree
  rw [noteAt_place bound]
  by_cases inside : i + 1 < s.size
  · have step := h.offset_lt (Nat.lt_add_one i) inside
    have next : (i : Int) + octave * s.size + 1 = (i + 1 : Nat) + octave * s.size := by omega
    rw [next, noteAt_place inside]
    omega
  · -- the next degree is the tonic of the octave above
    have next : (i : Int) + octave * s.size + 1 = (0 : Nat) + (octave + 1) * s.size := by
      rw [Int.add_mul]
      omega
    have here := h.offset_range bound
    have tonic := h.offset_range s.size_pos
    rw [next, noteAt_place s.size_pos]
    simp only [semitones] at here tonic ⊢
    omega

/-- **Notes go up with their degrees.** -/
theorem strictMono_noteAt (h : s.Ascends) : StrictMono s.noteAt :=
  strictMono_int_of_lt_succ (noteAt_lt_succ h)

theorem noteAt_add_mul (degree octaves : Int) :
    s.noteAt (degree + octaves * s.size) = s.noteAt degree + octaves * semitones := by
  obtain ⟨i, bound, octave, rfl⟩ := s.exists_place degree
  rw [Int.add_assoc, ← Int.add_mul, noteAt_place bound, noteAt_place bound, Int.add_mul,
    Int.add_assoc]

/-! ### Thirds -/

theorem lt_thirdAbove (degree : Int) : degree < s.thirdAbove degree :=
  lt_min (by omega) (Int.lt_ediv_add_one_mul_self _ s.cast_size_pos)

theorem thirdAbove_le (degree : Int) : s.thirdAbove degree ≤ degree + 1 * s.size := by
  refine (min_le_right _ _).trans ?_
  have below := Int.ediv_mul_le degree s.cast_size_pos.ne'
  rw [Int.add_mul]
  omega

theorem monotone_thirdAbove : Monotone s.thirdAbove := by
  intro low high le
  refine min_le_min (by omega) (Int.mul_le_mul_of_nonneg_right ?_ s.cast_size_pos.le)
  have := Int.ediv_le_ediv s.cast_size_pos le
  omega

/-- **A third lies above its root, by an octave at most.** -/
theorem noteAt_thirdAbove (h : s.Ascends) (degree : Int) :
    s.noteAt degree + 1 ≤ s.noteAt (s.thirdAbove degree) ∧
      s.noteAt (s.thirdAbove degree) ≤ s.noteAt degree + semitones := by
  refine ⟨strictMono_noteAt h (lt_thirdAbove degree), ?_⟩
  refine ((strictMono_noteAt h).monotone (thirdAbove_le degree)).trans_eq ?_
  rw [noteAt_add_mul, Int.one_mul]

/-! ### Chords -/

/-- **A stack goes through the degrees of its thirds.** -/
theorem stack_eq_notesAt (count : Nat) : ∀ {i : Nat} (octave : Int), i < s.size →
    s.stack count i (octave * semitones) =
      (List.iterate s.thirdAbove (i + octave * s.size) (count + 1)).map s.noteAt := by
  induction count with
  | zero =>
    intro i octave bound
    rw [stack, List.iterate, List.map_cons, noteAt_place bound]
    rfl
  | succ count ih =>
    intro i octave bound
    rw [stack, List.iterate, List.map_cons, noteAt_place bound, thirdAbove_place bound]
    refine congrArg _ ?_
    split
    · rename_i inside
      exact ih octave inside
    · have tonic := ih (octave + 1) s.size_pos
      rw [Int.natCast_zero, Int.zero_add, Int.add_mul _ _ semitones, Int.one_mul] at tonic
      exact tonic

theorem chord_eq_notesAt (root density tonality : Int) :
    s.chord root density tonality =
      (List.iterate s.thirdAbove (root + tonality) (density.toNat + 1)).map s.noteAt := by
  obtain ⟨bound, place⟩ := s.folded_place (root + tonality)
  rw [chord, stack_eq_notesAt _ _ bound, place]

theorem getElem?_chord {root density tonality : Int} {j : Nat} (reach : j < density.toNat + 1) :
    (s.chord root density tonality)[j]? = some (s.noteAt (s.thirdAbove^[j] (root + tonality))) := by
  rw [chord_eq_notesAt, List.getElem?_map, List.getElem?_iterate _ _ _ _ reach]
  rfl

/-- What holds of a note and the third above it holds from each voice of a chord to the next. -/
theorem isChain_chord {R : Int → Int → Prop}
    (step : ∀ degree, R (s.noteAt degree) (s.noteAt (s.thirdAbove degree)))
    (root density tonality : Int) : (s.chord root density tonality).IsChain R := by
  rw [chord_eq_notesAt, List.isChain_map, List.isChain_iff_getElem]
  intro j reach
  rw [List.getElem_iterate, List.getElem_iterate, Function.iterate_succ_apply']
  exact step _

/-! ### Thirds through one octave after another -/

theorem iterate_within {j : Nat} (inside : i + 2 * j < s.size) (octave : Int) :
    s.thirdAbove^[j] (i + octave * s.size) = (i + 2 * j : Nat) + octave * s.size := by
  induction j with
  | zero => rfl
  | succ j ih =>
    rw [Function.iterate_succ_apply', ih (by omega), thirdAbove_place (by omega), if_pos (by omega)]
    rfl

theorem lt_half_iff {j n : Nat} : j < n ⌈/⌉ 2 ↔ 2 * j < n := by
  rw [← not_le, ceilDiv_le_iff_le_mul Nat.two_pos, not_le]

theorem two_mul_mod_lt (s : Scale) (j : Nat) : 2 * (j % (s.size ⌈/⌉ 2)) < s.size :=
  lt_half_iff.1 (Nat.mod_lt _ (lt_half_iff.2 s.size_pos))

theorem iterate_octave (bound : i < s.size) (octave : Int) :
    s.thirdAbove^[(s.size - i) ⌈/⌉ 2] (i + octave * s.size) = (octave + 1) * s.size := by
  have positive : 0 < (s.size - i) ⌈/⌉ 2 := lt_half_iff.2 (by omega)
  obtain ⟨j, count⟩ := Nat.exists_eq_succ_of_ne_zero positive.ne'
  have inside : 2 * j < s.size - i := lt_half_iff.1 (by omega)
  have past : ¬ 2 * (j + 1) < s.size - i := lt_half_iff.not.1 (by omega)
  rw [count, Function.iterate_succ_apply', iterate_within (by omega), thirdAbove_place (by omega),
    if_neg (by omega)]

theorem iterate_octaves (octaves : Nat) (octave : Int) :
    s.thirdAbove^[s.size ⌈/⌉ 2 * octaves] (octave * s.size) = (octave + octaves) * s.size := by
  induction octaves with
  | zero => simp
  | succ octaves ih =>
    have next := iterate_octave s.size_pos (octave + octaves)
    rw [Nat.sub_zero, Int.natCast_zero, Int.zero_add] at next
    rw [Nat.mul_succ, Nat.add_comm, Function.iterate_add_apply, ih, next]
    congr 1
    omega

/-- Beyond the octave of the root come whole octaves, and then some thirds of another one. -/
theorem iterate_beyond (bound : i < s.size) (octave : Int) (j : Nat) :
    s.thirdAbove^[j + (s.size - i) ⌈/⌉ 2] (i + octave * s.size) =
      (2 * (j % (s.size ⌈/⌉ 2)) : Nat) + (octave + 1 + (j / (s.size ⌈/⌉ 2) : Nat)) * s.size := by
  have inside : 0 + 2 * (j % (s.size ⌈/⌉ 2)) < s.size := by
    rw [Nat.zero_add]
    exact s.two_mul_mod_lt j
  have last := iterate_within inside (octave + 1 + (j / (s.size ⌈/⌉ 2) : Nat))
  rw [Int.natCast_zero, Int.zero_add, Nat.zero_add] at last
  rw [Function.iterate_add_apply, iterate_octave bound, ← last, ← iterate_octaves,
    ← Function.iterate_add_apply, Nat.mod_add_div]

/-! ### What chords are like -/

/-- **The voices of a chord** in any scale, on any degree and in any tonality.  The root is folded
into the scale.  From there every other degree of its octave is played, and in each octave above it
every other degree from the tonic on. -/
theorem chord_voices (s : Scale) (root density tonality : Int) :
    let degree := ((root + tonality) % s.size).toNat
    let octave := (root + tonality) / s.size
    let first := (s.size - degree) ⌈/⌉ 2
    let each := s.size ⌈/⌉ 2
    let chord := s.chord root density tonality
    (chord.length : Int) = max density 0 + 1 ∧
    ∀ j < chord.length,
      (j < first → chord[j]? = s.offsets[degree + 2 * j]?.map (· + 12 * octave)) ∧
      (first ≤ j → chord[j]? = s.offsets[2 * ((j - first) % each)]?.map
        (· + 12 * (octave + 1 + ((j - first) / each : Nat)))) := by
  intro degree octave first each chord
  obtain ⟨bound, place⟩ : degree < s.size ∧ degree + octave * s.size = root + tonality :=
    s.folded_place (root + tonality)
  have length : chord.length = density.toNat + 1 := s.length_chord ..
  refine ⟨by omega, fun j reach => ?_⟩
  have voice : chord[j]? = some (s.noteAt (s.thirdAbove^[j] (degree + octave * s.size))) := by
    rw [place]
    exact getElem?_chord (length ▸ reach)
  rw [voice]
  refine ⟨fun inside => ?_, fun beyond => ?_⟩
  · have inside : degree + 2 * j < s.size := by
      have := lt_half_iff.1 inside
      omega
    rw [iterate_within inside, some_noteAt_place inside]
  · obtain ⟨k, rfl⟩ := Nat.exists_eq_add_of_le' beyond
    rw [iterate_beyond bound, some_noteAt_place (s.two_mul_mod_lt k), Nat.add_sub_cancel]

/-- Six tones over the degree below the tonic of the scale `white`: the root is the last note of the
octave below, four voices fill the next octave, and the others begin another one. -/
theorem chord_voices_white : ∃ s, Catalog.standard.byId 0 = .ok s ∧
    ((s.chord (-1) 6 0).length : Int) = 7 ∧ (s.chord (-1) 6 0)[0]? = some (-2) ∧
    (s.chord (-1) 6 0)[6]? = some 15 := by
  obtain ⟨s, known⟩ : ∃ s, Catalog.standard.byId 0 = .ok s := ⟨_, rfl⟩
  obtain ⟨length, voices⟩ := chord_voices s (-1) 6 0
  cases known
  refine ⟨_, rfl, length, ?_, ?_⟩
  · exact (voices 0 (by decide)).1 (by decide)
  · exact (voices 6 (by decide)).2 (by decide)

/-- **The voices of a chord go up**, each by at least a semitone and at most an octave. -/
theorem chord_steps (ascends : s.Ascends) (root density tonality : Int) :
    (s.chord root density tonality).IsChain fun low high => low + 1 ≤ high ∧ high ≤ low + 12 :=
  isChain_chord (noteAt_thirdAbove ascends) root density tonality

/-- In a scale of one note each voice lies an octave above the one before. -/
theorem chord_steps_single : ∃ s : Scale, s.offsets = [11] ∧ s.Ascends ∧
    s.chord (-1) 3 0 = [-1, 11, 23, 35] ∧
    (s.chord (-1) 3 0).IsChain fun low high => low + 1 ≤ high ∧ high ≤ low + 12 := by
  have ascends : Ascends ⟨[11], by simp⟩ := ⟨by decide, by decide⟩
  exact ⟨_, rfl, ascends, by decide, chord_steps ascends (-1) 3 0⟩

/-- **Chords go up with their roots.**  The root of a chord on a higher degree is higher, and none
of its voices is lower, whatever the number of voices. -/
theorem chord_follows_root (ascends : s.Ascends) (density : Int)
    {root tonality root' tonality' : Int} (above : root + tonality < root' + tonality') :
    (∃ low high, (s.chord root density tonality).head? = some low ∧
      (s.chord root' density tonality').head? = some high ∧ low < high) ∧
    List.Forall₂ (· ≤ ·) (s.chord root density tonality) (s.chord root' density tonality') := by
  rw [chord_eq_notesAt, chord_eq_notesAt]
  refine ⟨⟨_, _, rfl, rfl, strictMono_noteAt ascends above⟩, ?_⟩
  refine List.forall₂_iff_get.2 ⟨by simp, fun j reach reach' => ?_⟩
  simp only [List.get_eq_getElem, List.getElem_map, List.getElem_iterate]
  exact (strictMono_noteAt ascends).monotone (monotone_thirdAbove.iterate j above.le)

/-- The chords on the last two degrees of the scale `white` differ in their roots alone. -/
theorem chord_follows_root_white : ∃ s, Catalog.standard.byId 0 = .ok s ∧ s.Ascends ∧
    (5 : Int) + 0 < 7 + -1 ∧ s.chord 5 3 0 = [9, 12, 15, 19] ∧ s.chord 7 3 (-1) = [10, 12, 15, 19] ∧
    (∃ low high, (s.chord 5 3 0).head? = some low ∧ (s.chord 7 3 (-1)).head? = some high ∧
      low < high) ∧
    List.Forall₂ (· ≤ ·) (s.chord 5 3 0) (s.chord 7 3 (-1)) := by
  obtain ⟨s, known⟩ : ∃ s, Catalog.standard.byId 0 = .ok s := ⟨_, rfl⟩
  have ascends : s.Ascends := by
    cases known
    exact ⟨by decide, by decide⟩
  have follows := chord_follows_root ascends 3 (show (5 : Int) + 0 < 7 + -1 by decide)
  cases known
  exact ⟨_, rfl, ascends, by decide, by decide, by decide, follows⟩

end Scale

end ChordSequencer

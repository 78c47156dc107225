import ChordSequencer.Proofs.Strategies

/-!
# Voices in unison

The voices of a chord lie one above the other, so that no two of them have one pitch.  The inversion
raises some of them by an octave and may put one on the pitch of another: that is the only way in
which two pitches that an instrument plays come to be the same.

* `Catalog.WellFormed.chord_ascends` : the voices of a chord, whether it is stacked or walked.
* `Instrument.InUnison` : a raised voice meets another one.
* `Instrument.nodup_pitches_iff` : the pitches differ if and only if none does.
-/

namespace ChordSequencer

/-! ### Chords -/

namespace Scale

variable {s : Scale}

theorem Ascends.chord (h : s.Ascends) (root density tonality : Int) :
    (s.chord root density tonality).Pairwise (· < ·) :=
  List.isChain_iff_pairwise.1 <| isChain_chord
    (fun degree => strictMono_noteAt h (lt_thirdAbove degree)) root density tonality

end Scale

theorem Catalog.WellFormed.byId {c : Catalog} (h : c.WellFormed) {id : Int} {s : Scale}
    (found : c.byId id = .ok s) : s.Ascends := by
  simp only [Catalog.byId] at found
  split at found <;> cases found
  rename_i entry there
  split at there
  · exact h.ascends entry (List.mem_of_getElem? there)
  · cases there

/-- **The voices of a chord lie one above the other.** -/
theorem Catalog.WellFormed.chord_ascends {c : Catalog} (h : c.WellFormed) {i : Instrument}
    {voices : List Int} (chord : i.chord c = .ok voices) : voices.Pairwise (· < ·) := by
  simp only [Instrument.chord] at chord
  split at chord
  · cases chord
    refine List.pairwise_map.2 ((Wheel.climb_ascends _ _ _).2.imp fun less => ?_)
    omega
  · obtain ⟨s, found, rfl⟩ := Setting.map_ok chord
    exact (h.byId found).chord _ _ _

/-! ### Inversions -/

namespace Instrument

variable {catalog : Catalog} {i j : Instrument} {notes : List Int}

/-- A voice that the inversion raises by an octave meets one that it does not raise, on a pitch that
can be played. -/
def InUnison (i : Instrument) (catalog : Catalog) : Prop :=
  ∃ (voices : List Int) (low high : Nat) (note : Int), i.chord catalog = .ok voices ∧
    low < i.inversion ∧ i.inversion ≤ high ∧
    voices[low]? = some note ∧ voices[high]? = some (note + semitones) ∧
    isPlayable (note + semitones + i.octave * semitones) = true

theorem getElem_invert_raise (i : Instrument) (voices : List Int) {k : Nat}
    (bound : k < voices.length) (h : k < (invert i.inversion (raise i.octave voices)).length) :
    (invert i.inversion (raise i.octave voices))[k] = voices[k] + i.lift k := by
  have pitch := getElem?_invert_raise i voices k
  rw [List.getElem?_eq_getElem bound, List.getElem?_eq_getElem h] at pitch
  exact Option.some.inj pitch

/-- **The pitches that can be played differ** if and only if no voices are in unison. -/
theorem nodup_pitches_iff (wellFormed : catalog.WellFormed)
    (found : i.pitches catalog = .ok notes) :
    (notes.filter isPlayable).Nodup ↔ ¬ i.InUnison catalog := by
  obtain ⟨voices, chord, rfl⟩ := Setting.map_ok found
  have ascends := List.pairwise_iff_getElem.1 (wellFormed.chord_ascends chord)
  have length : (invert i.inversion (raise i.octave voices)).length = voices.length := by
    simp [invert, raise]
  rw [List.Nodup, List.pairwise_filter, List.pairwise_iff_getElem]
  constructor
  · rintro distinct ⟨voices', low, high, note, chord', raised, kept, here, there, playable⟩
    cases chord.symm.trans chord'
    obtain ⟨bound, here⟩ := List.getElem?_eq_some_iff.1 here
    obtain ⟨bound', there⟩ := List.getElem?_eq_some_iff.1 there
    have differ := distinct low high (by omega) (by omega) (by omega)
    rw [getElem_invert_raise i voices bound, getElem_invert_raise i voices bound', here, there,
      lift, lift, if_pos raised, if_neg (by omega)] at differ
    have lower : note + (i.octave * semitones + semitones) =
        note + semitones + i.octave * semitones := by omega
    rw [lower, Int.add_zero] at differ
    exact differ playable playable rfl
  · intro apart low high bound bound' less _ playable same
    rw [length] at bound bound'
    rw [getElem_invert_raise i voices bound'] at playable
    rw [getElem_invert_raise i voices bound, getElem_invert_raise i voices bound'] at same
    have step := ascends low high bound bound' less
    -- the lower voice lies on the pitch of the higher one only if it alone is raised
    have raised : (low : Int) < i.inversion ∧ i.inversion ≤ high := by
      simp only [lift, semitones] at same
      split at same <;> split at same <;> omega
    have meets : voices[high] = voices[low] + semitones := by
      simp only [lift] at same
      rw [if_pos raised.1, if_neg (by omega)] at same
      omega
    refine apart ⟨voices, low, high, voices[low], chord, raised.1, raised.2,
      List.getElem?_eq_getElem bound, ?_, ?_⟩
    · rw [List.getElem?_eq_getElem bound', meets]
    · rw [lift, if_neg (by omega), meets, Int.add_zero] at playable
      exact playable

theorem nodup_selected_iff (wellFormed : catalog.WellFormed) {degree : Int}
    (selected : { j with selectedNote := degree }.selectNotes catalog = .ok (notes, i)) :
    (notes.filter isPlayable).Nodup ↔ ¬ i.InUnison catalog := by
  have again := selectNotes_again (.inr ⟨degree, notes, selected⟩) degree
  obtain ⟨-, rfl⟩ := selectNotes_ok selected
  exact nodup_pitches_iff wellFormed (selectNotes_ok (again.trans selected)).1

end Instrument

end ChordSequencer

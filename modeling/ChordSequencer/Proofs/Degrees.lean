import ChordSequencer.Proofs.Handling
import ChordSequencer.Proofs.Unison
import ChordSequencer.Proofs.WheelTones

/-!
# Degrees and their roots

The higher the degree that is selected, the higher is the root of the chord on it.  Over a scale
this holds of all degrees, those below the tonic among them.  A wheel has no root below position 0:
there every degree below the tonic sounds as the tonic does.

* `Instrument.firstVoice` : the root that is heard on a degree.
* `Instrument.chord_scale`, `Instrument.chord_wheel` : the roots of the two strategies.
* `Instrument.degrees_rise` : when one degree sounds below another one.
* `Instrument.below_tonic_of_wheel` : the degree below the tonic of a wheel.
-/

namespace ChordSequencer

namespace Wheel

variable {w : Wheel}

theorem chordNotes_turn {i : Instrument} (density : 0 ≤ i.density) :
    ∃ rest, (i.turn w).chordNotes = w.rootAt i.selectedNote.toNat :: rest := by
  have root : (i.turn w).chord.root = w.rootAt i.selectedNote.toNat := by
    rw [← Int.add_sub_cancel i.selectedNote 1]
    exact startAt_root (i.selectedNote + 1)
  have some := w.tones_pos
  obtain ⟨n, voices⟩ := Nat.exists_eq_succ_of_ne_zero
    (show (max 0 (min (i.density + 1) w.tones)).toNat ≠ 0 by omega)
  rw [chordNotes, root]
  exact ⟨_, congrArg (climb _ · _) voices⟩

end Wheel

namespace Instrument

variable {catalog : Catalog} {i : Instrument} {s : Scale} {w : Wheel} {degree root : Int}
  {rest : List Int}

/-- The first voice that is played on a degree. -/
def firstVoice (i : Instrument) (catalog : Catalog) (degree : Int) : Except Refusal (Option Int) :=
  (play { i with selectedNote := degree } catalog).map fun (notes, _) => notes.head?

/-- Where no voice is inverted, the root is heard, raised by the octave. -/
theorem firstVoice_eq (inversion : i.inversion = 0)
    (chord : { i with selectedNote := degree }.chord catalog = .ok (root :: rest)) :
    i.firstVoice catalog degree = .ok (some (root + i.octave * semitones)) := by
  simp only [firstVoice, play, pitches, chord, Except.map]
  rw [inversion, invert_zero]
  rfl

theorem chord_scale (known : catalog.byId i.scaleId = .ok s) (plain : i.wheel = none) :
    ∃ rest : List Int,
      i.chord catalog = .ok (s.noteAt (i.selectedNote + i.tonality) :: rest) := by
  rw [chord_of_scale known plain, Scale.chord_eq_notesAt]
  exact ⟨_, rfl⟩

theorem chord_wheel (wheel : i.wheel = some w) (density : 0 ≤ i.density) :
    ∃ rest : List Int,
      i.chord catalog = .ok ((w.rootAt i.selectedNote.toNat + i.tonality) :: rest) := by
  obtain ⟨rest, notes⟩ := w.chordNotes_turn density
  simp only [chord, wheel]
  rw [notes]
  exact ⟨_, rfl⟩

/-- **When one degree sounds below another one.**  An instrument with a scale of the catalog or with
a wheel has a root on every degree, above the tonic and below it.  No degree sounds below a lower
one.  Over a scale every degree sounds below the higher ones; around a wheel it does so if the
higher one lies above the tonic, and if not, both sound alike. -/
theorem degrees_rise (scales : catalog.WellFormed)
    (known : i.wheel = none → 0 ≤ i.scaleId ∧ i.scaleId < catalog.size)
    (density : 0 ≤ i.density) (inversion : i.inversion = 0) :
    ∃ root : Int → Int,
      (∀ degree, i.firstVoice catalog degree = .ok (some (root degree))) ∧
      ∀ low high, low < high →
        root low ≤ root high ∧ (root low < root high ↔ i.wheel = none ∨ 0 < high) := by
  cases wheel : i.wheel with
  | none =>
    obtain ⟨s, found⟩ := Catalog.byId_ok_iff.2 (known wheel)
    have rises := Scale.strictMono_noteAt (scales.byId found)
    refine ⟨fun degree => s.noteAt (degree + i.tonality) + i.octave * semitones,
      fun degree => ?_, fun low high less => ?_⟩
    · obtain ⟨rest, chord⟩ := chord_scale (i := { i with selectedNote := degree }) found wheel
      exact firstVoice_eq inversion chord
    · have step := rises (show low + i.tonality < high + i.tonality by omega)
      have higher := Int.add_lt_add_right step (i.octave * semitones)
      exact ⟨higher.le, iff_of_true higher (.inl rfl)⟩
  | some w =>
    have rises := w.strictMono_rootAt
    refine ⟨fun degree => w.rootAt degree.toNat + i.tonality + i.octave * semitones,
      fun degree => ?_, fun low high less => ?_⟩
    · obtain ⟨rest, chord⟩ := chord_wheel (i := { i with selectedNote := degree }) wheel density
      exact firstVoice_eq inversion chord
    · -- degrees below the tonic have the root of the tonic, and the others one each
      have most := rises.le_iff_le (a := low.toNat) (b := high.toNat)
      have step := rises.lt_iff_lt (a := low.toNat) (b := high.toNat)
      simp only [reduceCtorEq, false_or]
      constructor <;> omega

/-- Over the scale `white` the degree below the tonic is the last note of the octave below. -/
theorem degrees_rise_white : ∃ root : Int → Int,
    Catalog.standard.WellFormed ∧ 0 ≤ initial.scaleId ∧ initial.scaleId < Catalog.standard.size ∧
    0 ≤ initial.density ∧ initial.inversion = 0 ∧
    (∀ degree, initial.firstVoice .standard degree = .ok (some (root degree))) ∧
    root (-1) = 58 ∧ root 0 = 60 ∧ root (-1) < root 0 := by
  obtain ⟨root, heard, rises⟩ := degrees_rise (i := initial) Catalog.standard_wellFormed
    (fun _ => by decide) (by decide) rfl
  refine ⟨root, Catalog.standard_wellFormed, by decide, by decide, by decide, rfl, heard,
    ?_, ?_, ?_⟩
  · exact Option.some.inj (Except.ok.inj ((heard (-1)).symm.trans rfl))
  · exact Option.some.inj (Except.ok.inj ((heard 0).symm.trans rfl))
  · exact (rises (-1) 0 (by decide)).2.2 (.inl rfl)

/-- On a wheel of twelve flagged positions the selectors `0` and `1` sound alike, although `0` picks
the degree below. -/
theorem below_tonic_of_wheel : ∃ i,
    Setting.applyCode .standard initial "111111111111" 16 "N" = .ok i ∧
    i.Valid .standard ∧ i.inversion = 0 ∧
    selectorDegree? "0" 16 = some (-1) ∧ selectorDegree? "1" 16 = some 0 ∧
    i.firstVoice .standard (-1) = .ok (some 60) ∧ i.firstVoice .standard 0 = .ok (some 60) ∧
    ¬ ∃ low high, i.firstVoice .standard (-1) = .ok (some low) ∧
      i.firstVoice .standard 0 = .ok (some high) ∧ low < high := by
  obtain ⟨i, built⟩ : ∃ i, Setting.applyCode .standard initial "111111111111" 16 "N" = .ok i :=
    ⟨_, rfl⟩
  have valid : i.Valid .standard := Setting.applyCode_valid Bench.initial_valid built
  have below : i.firstVoice .standard (-1) = .ok (some 60) := by
    cases built
    rfl
  have tonic : i.firstVoice .standard 0 = .ok (some 60) := by
    cases built
    rfl
  refine ⟨i, built, valid, by cases built; rfl, by decide, by decide, below, tonic, ?_⟩
  rintro ⟨low, high, first, second, less⟩
  cases below.symm.trans first
  cases tonic.symm.trans second
  exact absurd less (by decide)

end Instrument

end ChordSequencer

import ChordSequencer.Instrument
import ChordSequencer.Proofs.Thirds
import Mathlib.Logic.Function.Iterate

/-!
# Octaves

An octave is as many degrees as the scale has notes.  A chord can be raised by octaves through its
degree, through the key, through the octave of the instrument, and through an inversion of all of
its voices, and it is always the same chord.

* `Scale.thirdAbove_add_mul` : thirds are the same in every octave.
* `Scale.chord_add_octaves` : so are chords.
* `Instrument.invert_all` : an inversion of all voices is an octave.
* `Instrument.raised_alike` : the pitches that are played, whichever way they are raised.
-/

namespace ChordSequencer

/-! ### Chords -/

namespace Scale

variable {s : Scale}

theorem thirdAbove_add_mul (degree octaves : Int) :
    s.thirdAbove (degree + octaves * s.size) = s.thirdAbove degree + octaves * s.size := by
  obtain ⟨i, bound, octave, rfl⟩ := s.exists_place degree
  rw [Int.add_assoc, ← Int.add_mul, thirdAbove_place bound, thirdAbove_place bound]
  split
  · rw [Int.add_mul, Int.add_assoc]
  · rw [← Int.add_mul, Int.add_right_comm]

/-- **A chord some octaves higher.** -/
theorem chord_add_octaves (root density tonality octaves : Int) :
    s.chord (root + octaves * s.size) density tonality =
      (s.chord root density tonality).map (· + octaves * semitones) := by
  have thirds (j : Nat) : Function.Commute s.thirdAbove^[j] (· + octaves * s.size) :=
    Function.Commute.iterate_left (fun degree => thirdAbove_add_mul degree octaves) j
  rw [chord_eq_notesAt, chord_eq_notesAt, List.map_map, Int.add_right_comm]
  refine List.ext_getElem (by simp) fun j _ _ => ?_
  simp only [List.getElem_map, List.getElem_iterate, Function.comp_apply]
  rw [(thirds j).eq, noteAt_add_mul]

theorem chord_add_key (root density tonality degrees : Int) :
    s.chord root density (tonality + degrees) = s.chord (root + degrees) density tonality := by
  rw [chord, chord, Int.add_right_comm, Int.add_assoc]

end Scale

/-! ### Raising and inverting -/

namespace Instrument

variable {catalog : Catalog} {s : Scale} {i : Instrument}

theorem raise_add (octave octaves : Int) (notes : List Int) :
    raise (octave + octaves) notes = (raise octave notes).map (· + octaves * semitones) := by
  rw [raise, raise, List.map_map]
  refine List.map_congr_left fun note _ => ?_
  rw [Function.comp_apply, Int.add_mul, Int.add_assoc]

theorem raise_map_add (octave interval : Int) (notes : List Int) :
    raise octave (notes.map (· + interval)) = (raise octave notes).map (· + interval) := by
  rw [raise, raise, List.map_map, List.map_map]
  exact List.map_congr_left fun note _ => Int.add_right_comm ..

/-- An inversion goes by the numbers of the voices, not by their pitches. -/
theorem invert_map_add (inversion interval : Int) (notes : List Int) :
    invert inversion (notes.map (· + interval)) = (invert inversion notes).map (· + interval) := by
  refine List.ext_getElem (by simp [invert]) fun n _ _ => ?_
  simp only [invert, List.getElem_mapIdx, List.getElem_map]
  split
  · exact Int.add_right_comm ..
  · rfl

theorem invert_all {inversion : Int} {notes : List Int} (all : notes.length ≤ inversion) :
    invert inversion notes = notes.map (· + semitones) := by
  refine List.ext_getElem (by simp [invert]) fun n bound _ => ?_
  rw [invert, List.length_mapIdx] at bound
  simp only [invert, List.getElem_mapIdx, List.getElem_map]
  rw [if_pos (by omega)]

theorem invert_zero (notes : List Int) : invert 0 notes = notes := by
  refine List.ext_getElem (by simp [invert]) fun n _ _ => ?_
  simp only [invert, List.getElem_mapIdx]
  rw [if_neg (by omega)]

/-! ### What is played -/

/-- The instrument plays these pitches and stays as it is. -/
def Plays (i : Instrument) (catalog : Catalog) (notes : List Int) : Prop :=
  i.play catalog = .ok (notes, i)

theorem chord_of_scale (known : catalog.byId i.scaleId = .ok s) (plain : i.wheel = none) :
    i.chord catalog = .ok (s.chord i.selectedNote i.density i.tonality) := by
  simp only [chord, plain, scale, known, Except.map]

theorem plays_chord (known : catalog.byId i.scaleId = .ok s) (plain : i.wheel = none) :
    i.Plays catalog <| invert i.inversion <| raise i.octave <|
      s.chord i.selectedNote i.density i.tonality := by
  simp only [Plays, play, pitches, chord_of_scale known plain, Except.map, played, plain,
    Option.map_none]
  rw [← plain]

/-- **All ways to raise a chord by octaves agree.**  As many degrees as the scale has notes, added
to the selected degree or to the key, raise every pitch by an octave, as one does that is added to
the octave, up or down, in every density and inversion.  To invert all voices or more is to raise
them by an octave. -/
theorem raised_alike (known : catalog.byId i.scaleId = .ok s) (plain : i.wheel = none) :
    ∃ notes, i.Plays catalog notes ∧
      (∀ octaves : Int,
        { i with selectedNote := i.selectedNote + octaves * s.size }.Plays catalog
          (notes.map (· + 12 * octaves)) ∧
        { i with tonality := i.tonality + octaves * s.size }.Plays catalog
          (notes.map (· + 12 * octaves)) ∧
        { i with octave := i.octave + octaves }.Plays catalog
          (notes.map (· + 12 * octaves))) ∧
      ∀ inversion : Int, notes.length ≤ inversion → ∃ higher,
        { i with inversion }.Plays catalog higher ∧
        { i with inversion := 0, octave := i.octave + 1 }.Plays catalog higher := by
  refine ⟨_, plays_chord known plain, fun octaves => ?_, fun inversion all => ?_⟩
  · rw [Int.mul_comm 12]
    refine ⟨?_, ?_, ?_⟩
    · have degree :=
        plays_chord (i := { i with selectedNote := i.selectedNote + octaves * s.size }) known plain
      rwa [Scale.chord_add_octaves, raise_map_add, invert_map_add] at degree
    · have key :=
        plays_chord (i := { i with tonality := i.tonality + octaves * s.size }) known plain
      rwa [Scale.chord_add_key, Scale.chord_add_octaves, raise_map_add, invert_map_add] at key
    · have octave := plays_chord (i := { i with octave := i.octave + octaves }) known plain
      rwa [raise_add, invert_map_add] at octave
  · refine ⟨_, plays_chord known plain, ?_⟩
    have octave :=
      plays_chord (i := { i with inversion := 0, octave := i.octave + 1 }) known plain
    rw [invert, List.length_mapIdx] at all
    rwa [invert_zero, raise_add, Int.one_mul, ← invert_all all] at octave

/-- Four voices on the sixth degree of the scale `red`, raised by -2 octaves in the three ways, and
inverted beyond all of them. -/
theorem raised_alike_red : ∃ (s : Scale) (i : Instrument) (higher : List Int),
    Catalog.standard.byId i.scaleId = .ok s ∧ i.wheel = none ∧
    i.Plays .standard [80, 84, 76, 79] ∧
    { i with selectedNote := i.selectedNote + -2 * s.size }.Plays .standard [56, 60, 52, 55] ∧
    { i with tonality := i.tonality + -2 * s.size }.Plays .standard [56, 60, 52, 55] ∧
    { i with octave := i.octave + -2 }.Plays .standard [56, 60, 52, 55] ∧
    { i with inversion := 5 }.Plays .standard higher ∧
    { i with inversion := 0, octave := i.octave + 1 }.Plays .standard higher := by
  let i : Instrument := { initial with scaleId := 2, tonality := 5, density := 3, inversion := 2 }
  obtain ⟨s, known⟩ : ∃ s, Catalog.standard.byId i.scaleId = .ok s := ⟨_, rfl⟩
  obtain ⟨notes, plays, raised, inverted⟩ := raised_alike known rfl
  have concrete : i.Plays .standard [80, 84, 76, 79] := rfl
  cases plays.symm.trans concrete
  obtain ⟨degree, key, octave⟩ := raised (-2)
  obtain ⟨higher, beyond, above⟩ := inverted 5 (by decide)
  exact ⟨s, i, higher, known, rfl, concrete, degree, key, octave, beyond, above⟩

end Instrument

end ChordSequencer

import ChordSequencer.Proofs.Stepping

/-!
# The chord of a wheel

Once a wheel is built, only its chord is changed: the root is put on a tone or moved by a step, and
voices are added, removed or set.  Roots are never folded back, so that they drift past the end of
the wheel and below zero, where it is read backwards.  Whatever is done, the chord stays in shape.

* `Wheel.InShape` : the invariant of a chord.
* `Wheel.InShape.change`, `Wheel.SameRing.change` : what one change keeps.
* `Wheel.InShape.chordNotes` : the positions of a chord that is in shape.
* `Wheel.chord_stays_in_shape` : all of it, after any changes.
-/

namespace ChordSequencer

namespace Wheel

/-- What can be done to the chord of a wheel. -/
inductive ChordChange
  /-- The root is put on a tone. -/
  | startAt (tone : Int)
  /-- The root goes one tone up. -/
  | rootUp
  /-- The root goes one tone down. -/
  | rootDown
  /-- A voice is added. -/
  | addVoice
  /-- A voice is removed. -/
  | removeVoice
  /-- The chord gets a number of voices. -/
  | setVoices (voices : Int)

/-- The wheel after a change of its chord. -/
def change (w : Wheel) : ChordChange → Wheel
  | .startAt tone => w.startAt tone
  | .rootUp => w.rootUp
  | .rootDown => w.rootDown
  | .addVoice => w.addVoice
  | .removeVoice => w.removeVoice
  | .setVoices voices => w.setVoices voices

/-- The wheel after changes one after another. -/
def changeAll (w : Wheel) (changes : List ChordChange) : Wheel := changes.foldl change w

/-- The wheels that come of building one. -/
inductive Built (w : Wheel) : Prop
  /-- Of flags. -/
  | ofFlags (flags : List Int) (name : String) (octave startNote : Int)
      (built : Wheel.ofFlags flags name octave startNote = .ok w) : Built w
  /-- Of a text. -/
  | ofText (flags name : String) (built : Wheel.ofText flags name = .ok w) : Built w
  /-- Of a scale. -/
  | ofScale (scale : Scale) (name : String) (built : Wheel.ofScale scale name = .ok w) : Built w

/-- A chord has a voice for each tone at most, and its root is on a flagged position or where a
wheel begins. -/
structure InShape (w : Wheel) : Prop where
  /-- The number of voices. -/
  voices : 0 ≤ w.chord.voices ∧ w.chord.voices ≤ w.tones
  /-- The root. -/
  root : w.chord.root = 0 ∨ w.flagged w.chord.root = true

/-- Two wheels differ in the root and the voices of their chords at most. -/
structure SameRing (w v : Wheel) : Prop where
  /-- The flags are the same. -/
  flags : v.flags = w.flags
  /-- So is the label. -/
  name : v.name = w.name
  /-- So is the octave of the wheel. -/
  octave : v.octave = w.octave
  /-- So is the label of the key that it begins with. -/
  startNote : v.startNote = w.startNote
  /-- So is the octave of the chord. -/
  chordOctave : v.chord.octave = w.chord.octave

variable {w v u : Wheel}

/-! ### One change -/

theorem SameRing.refl : SameRing w w := ⟨rfl, rfl, rfl, rfl, rfl⟩

theorem SameRing.trans (first : SameRing w v) (second : SameRing v u) : SameRing w u where
  flags := second.flags.trans first.flags
  name := second.name.trans first.name
  octave := second.octave.trans first.octave
  startNote := second.startNote.trans first.startNote
  chordOctave := second.chordOctave.trans first.chordOctave

/-- **A change** is one of the root and the voices. -/
theorem SameRing.change (w : Wheel) (c : ChordChange) : SameRing w (w.change c) := by
  cases c with
  | startAt | rootUp | rootDown | setVoices => exact ⟨rfl, rfl, rfl, rfl, rfl⟩
  | addVoice =>
    simp only [Wheel.change, addVoice]
    split <;> exact ⟨rfl, rfl, rfl, rfl, rfl⟩
  | removeVoice =>
    simp only [Wheel.change, removeVoice]
    split <;> exact ⟨rfl, rfl, rfl, rfl, rfl⟩

theorem InShape.withRoot {root : Int} (h : w.InShape) (found : root = 0 ∨ w.flagged root = true) :
    (w.withRoot root).InShape :=
  ⟨h.voices, found⟩

theorem InShape.withVoices {voices : Int} (h : w.InShape)
    (enough : 0 ≤ voices ∧ voices ≤ w.tones) : (w.withVoices voices).InShape :=
  ⟨enough, h.root⟩

theorem repeat_next_root (n : Nat) :
    Nat.repeat w.next n 0 = 0 ∨ w.flagged (Nat.repeat w.next n 0) = true := by
  cases n with
  | zero => exact .inl rfl
  | succ n => exact .inr (w.next_spec _).2.1

/-- **A change keeps the chord in shape.** -/
theorem InShape.change (h : w.InShape) (c : ChordChange) : (w.change c).InShape := by
  obtain ⟨few, many⟩ := h.voices
  cases c with
  | startAt tone => exact h.withRoot (repeat_next_root _)
  | rootUp => exact h.withRoot (.inr (w.next_spec _).2.1)
  | rootDown => exact h.withRoot (.inr (w.prev_spec _).2.1)
  | addVoice =>
    simp only [Wheel.change, addVoice]
    split
    · exact h.withVoices (by omega)
    · exact h
  | removeVoice =>
    simp only [Wheel.change, removeVoice]
    split
    · exact h.withVoices (by omega)
    · exact h
  | setVoices voices => exact h.withVoices (by omega)

/-! ### Any changes -/

theorem changeAll_kept (changes : List ChordChange) : ∀ {w : Wheel}, w.InShape →
    (w.changeAll changes).InShape ∧ SameRing w (w.changeAll changes) := by
  induction changes with
  | nil => exact fun h => ⟨h, .refl⟩
  | cons c changes ih =>
    intro w h
    obtain ⟨shape, same⟩ := ih (h.change c)
    exact ⟨shape, (SameRing.change w c).trans same⟩

theorem ofFlags_inShape {flags : List Int} {name : String} {octave startNote : Int}
    (built : ofFlags flags name octave startNote = .ok w) : w.InShape := by
  simp only [ofFlags] at built
  split_ifs at built
  cases built
  exact ⟨⟨Int.le_refl 0, Int.natCast_nonneg _⟩, .inl rfl⟩

theorem Built.inShape (h : w.Built) : w.InShape := by
  cases h with
  | ofFlags _ _ _ _ built => exact ofFlags_inShape built
  | ofText _ _ built =>
    simp only [Wheel.ofText] at built
    split_ifs at built
    exact ofFlags_inShape built
  | ofScale _ _ built => exact ofFlags_inShape built

/-! ### The positions of a chord -/

theorem length_climb (n : Nat) : ∀ p, (w.climb n p).length = n := by
  induction n with
  | zero => exact fun _ => rfl
  | succ n ih => exact fun p => congrArg (· + 1) (ih _)

theorem climb_flagged (n : Nat) : ∀ {p : Int}, w.flagged p = true →
    ∀ q ∈ w.climb n p, w.flagged q = true := by
  induction n with
  | zero => exact fun _ => List.forall_mem_nil _
  | succ n ih => exact fun flag => List.forall_mem_cons.2 ⟨flag, ih (w.next_spec _).2.1⟩

theorem head?_climb (n : Nat) (p : Int) : ∀ q ∈ (w.climb n p).head?, q = p := by
  cases n with
  | zero => rintro q ⟨⟩
  | succ n =>
    rintro q ⟨⟩
    rfl

theorem tail_climb_flagged (n : Nat) (p : Int) :
    ∀ q ∈ (w.climb n p).tail, w.flagged q = true := by
  cases n with
  | zero => exact List.forall_mem_nil _
  | succ n => exact climb_flagged n (w.next_spec _).2.1

/-- **A chord in shape has a position for each voice.**  They go up from the root, and all above it
are flagged. -/
theorem InShape.chordNotes (h : w.InShape) :
    (w.chordNotes.length : Int) = w.chord.voices ∧ w.chordNotes.Pairwise (· < ·) ∧
      (∀ p ∈ w.chordNotes.head?, p = w.chord.root) ∧
      ∀ p ∈ w.chordNotes.tail, w.flagged p = true := by
  refine ⟨?_, (w.climb_ascends _ _).2, head?_climb _ _, tail_climb_flagged _ _⟩
  rw [Wheel.chordNotes, length_climb]
  exact Int.toNat_of_nonneg h.voices.1

/-- **The chord of a wheel stays in shape.**  However a wheel is built and whatever is done to its
chord, with any numbers: it has no more voices than the wheel has tones, the root is position 0 or a
flagged one, and nothing else is changed.  The chord has exactly one position for each voice; they
go up, the first one is the root, and all others are flagged. -/
theorem chord_stays_in_shape (w : Wheel) (built : w.Built) (changes : List ChordChange) :
    let v := w.changeAll changes
    (0 ≤ v.chord.voices ∧ v.chord.voices ≤ v.tones) ∧
    (v.flags = w.flags ∧ v.name = w.name ∧ v.octave = w.octave ∧ v.startNote = w.startNote ∧
      v.chord.octave = w.chord.octave) ∧
    (v.chord.root = 0 ∨ v.flagged v.chord.root = true) ∧
    ((v.chordNotes.length : Int) = v.chord.voices ∧ v.chordNotes.Pairwise (· < ·) ∧
      (∀ p ∈ v.chordNotes.head?, p = v.chord.root) ∧
      ∀ p ∈ v.chordNotes.tail, v.flagged p = true) := by
  obtain ⟨shape, same⟩ := changeAll_kept changes built.inShape
  exact ⟨shape.voices, ⟨same.flags, same.name, same.octave, same.startNote, same.chordOctave⟩,
    shape.root, shape.chordNotes⟩

/-- On the flags `0101` a root that goes down twice from position 0 stands on -3, and of five voices
that are asked for two are there, on both sides of zero. -/
theorem chord_stays_in_shape_below_zero : ∃ w, ofText "0101" "" = .ok w ∧
    let v := w.changeAll [.rootDown, .rootDown, .setVoices 5]
    v.chord.root = -3 ∧ v.chordNotes = [-3, 1] ∧
    v.chord.voices ≤ v.tones ∧ v.flags = w.flags ∧ v.flagged v.chord.root = true ∧
    (v.chordNotes.length : Int) = v.chord.voices := by
  obtain ⟨w, built⟩ : ∃ w, ofText "0101" "" = .ok w := ⟨_, rfl⟩
  let v := w.changeAll [.rootDown, .rootDown, .setVoices 5]
  obtain ⟨⟨-, voices⟩, ⟨flags, -⟩, root, length, -⟩ :=
    chord_stays_in_shape w (.ofText "0101" "" built) [.rootDown, .rootDown, .setVoices 5]
  have low : v.chord.root = -3 := by
    cases built
    decide
  have notes : v.chordNotes = [-3, 1] := by
    cases built
    decide
  exact ⟨w, built, low, notes, voices, flags, root.resolve_left (by rw [low]; decide), length⟩

end Wheel

end ChordSequencer

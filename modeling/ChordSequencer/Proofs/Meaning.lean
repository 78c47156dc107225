import ChordSequencer.Proofs.Alone
import ChordSequencer.Proofs.Sounding
import ChordSequencer.Proofs.Steps
import Mathlib.Data.Finset.Lattice.Lemmas

/-!
# What a block means

A block that is played in chords says for each of its steps which voices sound: those of the last
selector that is not `=`.  This file gives the meaning without the conductor
(`Instrument.voicesOf`, `Instrument.heldAfter`, `Instrument.warningsOf`) and shows that performing
the block alone comes to it, step by step.

* `Instrument.selectNotes_again` : what a degree comes to does not depend on the degrees that were
  selected before, though a wheel remembers its last chord.
* `Conductor.Plays.beginSelector` : one selector.
* `Conductor.Sings` : the invariant at the waits of a block; `played` are the selectors so far.
* `Conductor.Sings.next`, `Conductor.Sings.ends` : from one wait to the next, and to the end.
* `Conductor.Chordal` : what the commands of a block must leave; `Conductor.Chordal.alone` and
  `Conductor.Chordal.performed` say what the block then comes to.
* `Conductor.block_meaning` : the whole block, and what an output hears of it.
-/

namespace ChordSequencer

open Text

/-! ### Wheels -/

namespace Wheel

variable {v w : Wheel}

theorem next_congr (same : v.flags = w.flags) (position : Int) :
    v.next position = w.next position := by
  have seek (n : Nat) : ∀ p, v.seekUp n p = w.seekUp n p := by
    induction n with
    | zero => exact fun _ => rfl
    | succ n ih =>
      intro p
      simp only [seekUp, ih, flagged, size, same]
      rfl
  simp only [next, size, same, seek]

theorem climb_congr (same : v.flags = w.flags) (count : Nat) :
    ∀ p, v.climb count p = w.climb count p := by
  induction count with
  | zero => exact fun _ => rfl
  | succ count ih =>
    intro p
    simp only [climb, nextThird, next_congr same, ih]

/-- To start at a tone and to choose the number of voices leaves nothing of the chord before. -/
theorem turn_withChord (w : Wheel) (chord : WheelChord) (tone voices : Int)
    (kept : chord.octave = w.chord.octave) :
    ({ w with chord }.startAt tone).setVoices voices = (w.startAt tone).setVoices voices := by
  have root : { w with chord }.next = w.next := by
    funext position
    exact next_congr (by rfl) position
  simp only [startAt, root]
  simp only [setVoices, withVoices, withRoot, tones, kept]

end Wheel

/-! ### Instruments -/

namespace Instrument

variable {catalog : Catalog} {i j k : Instrument} {notes : List Int}

theorem selectNotes_ok (h : j.selectNotes catalog = .ok (notes, i)) :
    j.pitches catalog = .ok notes ∧ i = { j.played with notes } := by
  obtain ⟨⟨notes', k⟩, played, same⟩ := Setting.map_ok h
  obtain ⟨notes'', found, same'⟩ := Setting.map_ok played
  cases same'
  cases same
  exact ⟨found, rfl⟩

theorem selectNotes_of_pitches (h : j.pitches catalog = .ok notes) :
    j.selectNotes catalog = .ok (notes, { j.played with notes }) := by
  simp only [selectNotes, play, h, Except.map]

/-- The instrument is as it was, or a degree was selected on it. -/
def OnlySelected (catalog : Catalog) (j i : Instrument) : Prop :=
  i = j ∨ ∃ degree notes, { j with selectedNote := degree }.selectNotes catalog = .ok (notes, i)

/-- **Selecting a degree leaves nothing of what was selected before.** -/
theorem selectNotes_again (h : OnlySelected catalog j i) (degree : Int) :
    { i with selectedNote := degree }.selectNotes catalog =
      { j with selectedNote := degree }.selectNotes catalog := by
  rcases h with rfl | ⟨before, notes, selected⟩
  · rfl
  · obtain ⟨-, rfl⟩ := selectNotes_ok selected
    have turned (w : Wheel) : ({ j with selectedNote := degree }).turn
        ({ j with selectedNote := before }.turn w) = { j with selectedNote := degree }.turn w :=
      Wheel.turn_withChord w _ _ _ rfl
    cases wheel : j.wheel with
    | none =>
      simp only [selectNotes, play, pitches, chord, scale, played, Option.map_none]
      cases catalog.byId j.scaleId <;> rfl
    | some w =>
      have turned := turned w
      simp only [selectNotes, play, pitches, chord, played, Option.map_some, Except.map]
      simp only [turn] at turned ⊢
      rw [turned]

theorem OnlySelected.select (h : OnlySelected catalog j i) {degree : Int}
    (selected : { i with selectedNote := degree }.selectNotes catalog = .ok (notes, k)) :
    OnlySelected catalog j k :=
  .inr ⟨degree, notes, selectNotes_again h degree ▸ selected⟩

/-- The settings of two instruments that a performance reads apart from the pitches are the same. -/
structure SameSettings (j i : Instrument) : Prop where
  /-- The channel. -/
  channel : i.channel = j.channel
  /-- How the voices are played. -/
  playMode : i.playMode = j.playMode
  /-- The note value of a step. -/
  duration : i.duration = j.duration
  /-- The velocity. -/
  velocity : i.velocity = j.velocity

theorem OnlySelected.settings (h : OnlySelected catalog j i) : j.SameSettings i := by
  rcases h with rfl | ⟨degree, notes, selected⟩
  · exact ⟨rfl, rfl, rfl, rfl⟩
  · obtain ⟨-, rfl⟩ := selectNotes_ok selected
    exact ⟨rfl, rfl, rfl, rfl⟩

/-! ### What a block says -/

variable (i : Instrument) (catalog : Catalog) (base : Nat)

/-- The voices that a selector begins: those of the pitches in the range of MIDI if it is a number,
and none if it is not. -/
def voicesOf (selector : String) : Finset Voice :=
  match selectorDegree? selector base with
  | none => ∅
  | some degree =>
    match { i with selectedNote := degree }.pitches catalog with
    | .ok notes => ((notes.filter isPlayable).map (Voice.mk i.channel)).toFinset
    | .error _ => ∅

/-- The voices that sound in the step of the last of some selectors: those of the last one that does
not hold. -/
def heldAfter (played : List String) : Finset Voice :=
  match (played.filter (· ≠ "=")).getLast? with
  | some selector => i.voicesOf catalog base selector
  | none => ∅

/-- The warning about pitches outside the range of MIDI, if there are any. -/
def unplayableWarnings (notes : List Int) : List LogLine :=
  match notes.filter (!isPlayable ·) with
  | [] => []
  | skipped =>
    [.warn s!"Skipping pitches outside the MIDI range: {bracketed (skipped.map toString)}"]

/-- What is logged in the step of a selector: one warning about one that is unknown, and one about
pitches outside the range of MIDI. -/
def warningsOf (selector : String) : List LogLine :=
  if selector = "=" ∨ selector = "." ∨ selector = "s" then []
  else match selectorDegree? selector base with
    | none => [.warn s!"Playing unknown selector '{selector}' as a rest"]
    | some degree =>
      match { i with selectedNote := degree }.pitches catalog with
      | .ok notes => unplayableWarnings notes
      | .error _ => []

variable {i catalog base}

theorem heldAfter_hold (played : List String) :
    i.heldAfter catalog base (played ++ ["="]) = i.heldAfter catalog base played := by
  simp [heldAfter]

theorem heldAfter_other (played : List String) {selector : String} (other : selector ≠ "=") :
    i.heldAfter catalog base (played ++ [selector]) = i.voicesOf catalog base selector := by
  simp [heldAfter, other]

end Instrument

namespace Block

theorem base_cases (b : Block) : b.base = 10 ∨ b.base = 16 := by
  simp only [base]
  split
  · exact .inr rfl
  · exact .inl rfl

theorem selectorDegree?_sign (b : Block) {selector : String}
    (sign : selector = "=" ∨ selector = "." ∨ selector = "s") :
    selectorDegree? selector b.base = none := by
  rcases b.base_cases with base | base <;> rcases sign with rfl | rfl | rfl <;> rw [base] <;> decide

end Block

namespace Conductor

variable {c : Conductor} {i j : Instrument} {step : Float}

/-! ### Notes -/

theorem noteOn_sounding (channel note velocity : Int) :
    ∃ sent sounding, c.noteOn channel note velocity = { c with sent, sounding } ∧
      sounding.toFinset = insert ⟨channel, note⟩ c.sounding.toFinset := by
  obtain ⟨sent, h⟩ := c.send_frame (.noteOn channel note velocity)
  simp only [noteOn]
  simp only [h]
  split
  · rename_i already
    exact ⟨sent, c.sounding, rfl, (Finset.insert_eq_of_mem (List.mem_toFinset.2 already)).symm⟩
  · exact ⟨sent, _, rfl, List.toFinset_cons⟩

theorem foldl_noteOnOf_sounding (i : Instrument) (notes : List Int) :
    ∀ c : Conductor, ∃ sent sounding, notes.foldl (noteOnOf · i) c = { c with sent, sounding } ∧
      sounding.toFinset = c.sounding.toFinset ∪ (notes.map (Voice.mk i.channel)).toFinset := by
  induction notes with
  | nil => exact fun c => ⟨c.sent, c.sounding, rfl, by simp⟩
  | cons note notes ih =>
    intro c
    obtain ⟨sent, sounding, h, added⟩ := noteOn_sounding (c := c) i.channel note i.velocity
    obtain ⟨sent', sounding', h', added'⟩ := ih { c with sent, sounding }
    rw [List.foldl_cons, noteOnOf, h, h']
    refine ⟨sent', sounding', rfl, ?_⟩
    rw [added', added, List.map_cons, List.toFinset_cons, Finset.union_insert, Finset.insert_union]

theorem warnUnplayable_eq (notes : List Int) :
    c.warnUnplayable notes = c.report (Instrument.unplayableWarnings notes) := by
  simp only [warnUnplayable, Instrument.unplayableWarnings]
  cases notes.filter (!isPlayable ·) <;> rfl

/-! ### Selectors -/

theorem stepSeconds_eq (hi : c.instrument = some i) :
    c.stepSeconds =
      (NoteValue.beatsOfText i.duration).map fun beats => beats * 60.0 / c.bpm := by
  simp only [stepSeconds, requireInstrument, hi, Except.bind]

theorem stepSeconds_congr {c' : Conductor} (hi : c.instrument = some i)
    (hi' : c'.instrument = some j) (duration : j.duration = i.duration) (bpm : c'.bpm = c.bpm) :
    c'.stepSeconds = c.stepSeconds := by
  rw [stepSeconds_eq hi', duration, bpm, ← stepSeconds_eq hi]

theorem stepSeconds_instrument (length : c.stepSeconds = .ok step) :
    ∃ i, c.instrument = some i := by
  cases hi : c.instrument with
  | none => simp [stepSeconds, requireInstrument, hi, Except.bind] at length
  | some i => exact ⟨i, rfl⟩

theorem beginSelector_hold (length : c.stepSeconds = .ok step) {selector : String}
    (hold : selector = "=") (base : Nat) :
    c.beginSelector selector base = (c.counted, .waits step .step) := by
  obtain ⟨i, hi⟩ := stepSeconds_instrument length
  simp only [beginSelector, hi, length]
  rw [if_pos hold, counted, hi]

theorem beginSelector_rest (length : c.stepSeconds = .ok step) {selector : String}
    (rest : selector = "." ∨ selector = "s") (base : Nat) :
    c.beginSelector selector base = (c.counted.release, .waits step .step) := by
  obtain ⟨i, hi⟩ := stepSeconds_instrument length
  have other : selector ≠ "=" := by rcases rest with rfl | rfl <;> decide
  simp only [beginSelector, hi, length]
  rw [if_neg other, if_pos rest, counted, hi]

/-- **An unknown selector differs from a rest by one warning.** -/
theorem beginSelector_unknown (length : c.stepSeconds = .ok step) {selector : String} {base : Nat}
    (signs : ¬ (selector = "=" ∨ selector = "." ∨ selector = "s"))
    (unknown : selectorDegree? selector base = none) :
    c.beginSelector selector base =
      (c.counted.release.warn s!"Playing unknown selector '{selector}' as a rest",
        .waits step .step) := by
  obtain ⟨i, hi⟩ := stepSeconds_instrument length
  obtain ⟨other, rest⟩ := not_or.1 signs
  simp only [beginSelector, hi, length]
  rw [if_neg other, if_neg rest, unknown, counted, hi]

theorem beginSelector_number (length : c.stepSeconds = .ok step) {selector : String} {base : Nat}
    (signs : ¬ (selector = "=" ∨ selector = "." ∨ selector = "s")) {degree : Int}
    (number : selectorDegree? selector base = some degree) (hi : c.instrument = some i) :
    c.beginSelector selector base = c.counted.release.playDegree i step degree := by
  obtain ⟨other, rest⟩ := not_or.1 signs
  simp only [beginSelector, hi, length]
  rw [if_neg other, if_neg rest, number, counted, hi]

/-- A degree that has pitches is played as a chord, all of it at once. -/
theorem playDegree_chord (silent : c.sounding = []) (step : Float) {notes : List Int} {degree : Int}
    (selected : { i with selectedNote := degree }.selectNotes c.catalog = .ok (notes, j))
    (mode : j.playMode = .chord) :
    ∃ sent sounding, c.playDegree i step degree =
      ({ c with
          instrument := some j
          log := (Instrument.unplayableWarnings notes).reverse ++ c.log
          sent := sent
          sounding := sounding }, .waits step .step) ∧
      sounding.toFinset = ((notes.filter isPlayable).map (Voice.mk j.channel)).toFinset := by
  obtain ⟨sent, sounding, begun, voices⟩ := foldl_noteOnOf_sounding j (notes.filter isPlayable)
    { c with
      instrument := some j
      log := (Instrument.unplayableWarnings notes).reverse ++ c.log }
  refine ⟨sent, sounding, ?_, ?_⟩
  · simp only [playDegree]
    rw [selected]
    dsimp only
    rw [warnUnplayable_eq, report, sound, if_pos mode, begun]
  · rw [voices, silent, List.toFinset_nil, Finset.empty_union]

/-- What a block in chords finds when it goes on: the instrument `j` of the block, on which only
degrees were selected, a step that has a length, and pitches for every number among the selectors
`all`. -/
structure Plays (c : Conductor) (j : Instrument) (step : Float) (base : Nat) (all : List String) :
    Prop where
  /-- Playback was not stopped. -/
  goes : c.stopRequested = false
  /-- The instrument is that of the block. -/
  instrument : ∃ i, c.instrument = some i ∧ Instrument.OnlySelected c.catalog j i
  /-- It plays chords. -/
  mode : j.playMode = .chord
  /-- A step has a length. -/
  length : ∀ selector ∈ all, c.stepSeconds = .ok step
  /-- Every number picks a degree that has pitches. -/
  pitches : ∀ selector ∈ all, ∀ degree, selectorDegree? selector base = some degree →
    ∃ notes, { j with selectedNote := degree }.pitches c.catalog = .ok notes

theorem Plays.alike {c c' : Conductor} {base : Nat} {all : List String}
    (h : c.Plays j step base all) (catalog : c'.catalog = c.catalog) (bpm : c'.bpm = c.bpm)
    (goes : c'.stopRequested = c.stopRequested)
    (instrument : ∃ i, c'.instrument = some i ∧ Instrument.OnlySelected c.catalog j i) :
    c'.Plays j step base all := by
  obtain ⟨going, ⟨i, hi, kin⟩, mode, length, pitches⟩ := h
  obtain ⟨i', hi', kin'⟩ := instrument
  refine ⟨goes.trans going, ⟨i', hi', catalog.symm ▸ kin'⟩, mode, fun selector mem => ?_,
    by rw [catalog]; exact pitches⟩
  rw [stepSeconds_congr hi hi' (kin'.settings.duration.trans kin.settings.duration.symm) bpm]
  exact length selector mem

/-- What a step of a block in chords changes: the voices are replaced unless they are held, the step
is counted, and warnings are logged. -/
structure Stepped (c : Conductor) (j : Instrument) (base : Nat) (selector : String)
    (c' : Conductor) : Prop where
  /-- The voices. -/
  sounding : c'.sounding.toFinset =
    if selector = "=" then c.sounding.toFinset else j.voicesOf c.catalog base selector
  /-- The steps performed. -/
  steps : c'.stepsPerformed = c.stepsPerformed + 1
  /-- The blocks performed. -/
  blocks : c'.blocksPerformed = c.blocksPerformed
  /-- The log. -/
  log : c'.log = (j.warningsOf c.catalog base selector).reverse ++ c.log
  /-- The scales. -/
  catalog : c'.catalog = c.catalog

/-- **A selector of a block in chords** waits for a step, in which its voices sound. -/
theorem Plays.beginSelector {b : Block} {all : List String} (h : c.Plays j step b.base all)
    {selector : String} (mem : selector ∈ all) :
    ∃ c', c.beginSelector selector b.base = (c', .waits step .step) ∧
      c'.Plays j step b.base all ∧ c.Stepped j b.base selector c' := by
  obtain ⟨i, hi, kin⟩ := h.instrument
  have length := h.length selector mem
  obtain ⟨sent, released⟩ := c.counted.release_frame
  by_cases hold : selector = "="
  · refine ⟨_, beginSelector_hold length hold _, h.alike rfl rfl rfl ⟨i, hi, kin⟩, ?_, rfl, rfl, ?_,
      rfl⟩
    · rw [if_pos hold]
      rfl
    · rw [Instrument.warningsOf, if_pos (.inl hold)]
      rfl
  · by_cases rest : selector = "." ∨ selector = "s"
    · rw [beginSelector_rest length rest, released]
      refine ⟨_, rfl, h.alike rfl rfl rfl ⟨i, hi, kin⟩, ?_, rfl, rfl, ?_, rfl⟩
      · rw [if_neg hold, Instrument.voicesOf, b.selectorDegree?_sign (.inr rest)]
        rfl
      · rw [Instrument.warningsOf, if_pos (.inr rest)]
        rfl
    · have signs : ¬ (selector = "=" ∨ selector = "." ∨ selector = "s") := not_or.2 ⟨hold, rest⟩
      cases number : selectorDegree? selector b.base with
      | none =>
        rw [beginSelector_unknown length signs number, released]
        refine ⟨_, rfl, h.alike rfl rfl rfl ⟨i, hi, kin⟩, ?_, rfl, rfl, ?_, rfl⟩
        · rw [if_neg hold, Instrument.voicesOf, number]
          rfl
        · rw [Instrument.warningsOf, if_neg signs, number]
          rfl
      | some degree =>
        -- the pitches are those of the block's instrument, whatever was selected on it before
        obtain ⟨notes, found⟩ := h.pitches selector mem degree number
        have selected := (Instrument.selectNotes_again kin degree).trans
          (Instrument.selectNotes_of_pitches found)
        have kin' := kin.select selected
        obtain ⟨channel, mode, -, -⟩ := kin'.settings
        rw [beginSelector_number length signs number hi, released]
        obtain ⟨sent', sounding, played, voices⟩ := playDegree_chord (i := i)
          (c := { c.counted with sent := sent, sounding := [] }) rfl step selected
          (mode.trans h.mode)
        refine ⟨_, played, h.alike rfl rfl rfl ⟨_, rfl, kin'⟩, ?_, rfl, rfl, ?_, rfl⟩
        · rw [if_neg hold, Instrument.voicesOf, number]
          dsimp only
          rw [found, voices, channel]
        · rw [Instrument.warningsOf, if_neg signs, number]
          dsimp only
          rw [found]
          rfl

/-! ### From one selector to the next -/

theorem nextSelector_over {base : Nat} {todo all : List String} {again : Nat}
    (empty : todo ++ (List.replicate again all).flatten = []) :
    c.nextSelector base todo all again = (c.release, .ended) := by
  obtain ⟨rfl, none⟩ := List.append_eq_nil_iff.1 empty
  cases again with
  | zero => rfl
  | succ n =>
    rw [List.replicate_succ, List.flatten_cons] at none
    obtain ⟨rfl, -⟩ := List.append_eq_nil_iff.1 none
    rfl

/-- A block goes on to the next of the selectors that are left. -/
theorem Plays.nextSelector {b : Block} {all : List String} (h : c.Plays j step b.base all)
    {todo coming : List String} {again : Nat} {selector : String} (inside : todo ⊆ all)
    (left : todo ++ (List.replicate again all).flatten = selector :: coming) :
    ∃ c' todo' again', c.nextSelector b.base todo all again =
        (c', .waits step ⟨b.base, todo', all, again', .step⟩) ∧
      todo' ⊆ all ∧ todo' ++ (List.replicate again' all).flatten = coming ∧
      c'.Plays j step b.base all ∧ c.Stepped j b.base selector c' := by
  have entered (todo : List String) (again : Nat) (mem : selector ∈ all) :
      ∃ c', c.enterSelector b.base selector todo all again =
          (c', .waits step ⟨b.base, todo, all, again, .step⟩) ∧
        c'.Plays j step b.base all ∧ c.Stepped j b.base selector c' := by
    obtain ⟨c', begun, plays, stepped⟩ := h.beginSelector mem
    refine ⟨c', ?_, plays, stepped⟩
    simp only [enterSelector, h.goes, Bool.false_eq_true, ↓reduceIte, begun]
  cases todo with
  | cons first todo =>
    obtain ⟨rfl, rfl⟩ := List.cons.inj left
    obtain ⟨first, rest⟩ := List.cons_subset.1 inside
    obtain ⟨c', waits, plays, stepped⟩ := entered todo again first
    exact ⟨c', todo, again, waits, rest, rfl, plays, stepped⟩
  | nil =>
    -- the next repetition begins
    cases again with
    | zero => cases left
    | succ n =>
      cases all with
      | nil => simp at left
      | cons first rest =>
        rw [List.nil_append, List.replicate_succ, List.flatten_cons, List.cons_append] at left
        obtain ⟨rfl, rfl⟩ := List.cons.inj left
        obtain ⟨c', waits, plays, stepped⟩ := entered rest n List.mem_cons_self
        exact ⟨c', rest, n, waits, List.subset_cons_self _ _, rfl, plays, stepped⟩

/-- A block in chords at a wait, given the conductor before its first selector: the selectors
`played` have begun, and `coming` are left. -/
structure Sings (c : Conductor) (j : Instrument) (step : Float) (b : Block)
    (played coming : List String) (r : Conductor × Outcome BlockCursor) : Prop where
  /-- The block can go on. -/
  plays : r.1.Plays j step b.base b.selectors
  /-- It waits for a step, and the selectors left come after it. -/
  waits : ∃ todo again, r.2 = .waits step ⟨b.base, todo, b.selectors, again, .step⟩ ∧
    todo ⊆ b.selectors ∧ todo ++ (List.replicate again b.selectors).flatten = coming
  /-- What sounds. -/
  sounding : r.1.sounding.toFinset = j.heldAfter c.catalog b.base played
  /-- Each selector has counted. -/
  steps : r.1.stepsPerformed = c.stepsPerformed + played.length
  /-- No block has. -/
  blocks : r.1.blocksPerformed = c.blocksPerformed
  /-- What was logged. -/
  log : r.1.log = (played.flatMap (j.warningsOf c.catalog b.base)).reverse ++ c.log
  /-- The scales are the same. -/
  catalog : r.1.catalog = c.catalog

/-- The block is over, and each selector has counted. -/
structure Sung (c : Conductor) (played : List String) (r : Conductor × Outcome BlockCursor) :
    Prop where
  /-- The block has ended. -/
  ended : r.2 = .ended
  /-- Nothing sounds. -/
  silent : r.1.sounding = []
  /-- Each selector has counted. -/
  steps : r.1.stepsPerformed = c.stepsPerformed + played.length
  /-- No block has. -/
  blocks : r.1.blocksPerformed = c.blocksPerformed

variable {b : Block} {played coming : List String} {selector : String}
  {r : Conductor × Outcome BlockCursor}

/-- **The next selector** of a block at a wait. -/
theorem Sings.next (h : c.Sings j step b played (selector :: coming) r) (p : Pause) :
    c.Sings j step b (played ++ [selector]) coming (goOn resumeBlock r p) := by
  obtain ⟨c₁, outcome⟩ := r
  obtain ⟨plays, ⟨todo, again, rfl, inside, left⟩, sounding, steps, blocks, log, catalog⟩ := h
  have paused : (c₁.pause p).Plays j step b.base b.selectors :=
    plays.alike rfl rfl rfl plays.instrument
  obtain ⟨c₂, todo', again', waits, inside', left', plays', stepped⟩ :=
    paused.nextSelector inside left
  have gone : goOn resumeBlock (c₁, .waits step ⟨b.base, todo, b.selectors, again, .step⟩) p =
      (c₂, .waits step ⟨b.base, todo', b.selectors, again', .step⟩) := waits
  rw [gone]
  obtain ⟨sounding', steps', blocks', log', catalog'⟩ := stepped
  have same : (c₁.pause p).catalog = c.catalog := catalog
  rw [same] at sounding' log'
  refine ⟨plays', ⟨todo', again', rfl, inside', left'⟩, ?_, ?_, blocks'.trans blocks, ?_,
    catalog'.trans catalog⟩
  · rw [sounding']
    split
    · rename_i hold
      rw [hold, Instrument.heldAfter_hold]
      exact sounding
    · rename_i other
      rw [Instrument.heldAfter_other _ other]
  · rw [steps', List.length_append, List.length_singleton, ← Nat.add_assoc]
    exact congrArg (· + 1) steps
  · rw [log', List.flatMap_append, List.flatMap_singleton, List.reverse_append, List.append_assoc]
    exact congrArg _ log

/-- **The end** of a block at its last wait. -/
theorem Sings.ends (h : c.Sings j step b played [] r) (p : Pause) :
    c.Sung played (goOn resumeBlock r p) := by
  obtain ⟨c₁, outcome⟩ := r
  obtain ⟨plays, ⟨todo, again, rfl, inside, left⟩, -, steps, blocks, -, -⟩ := h
  obtain ⟨sent, released⟩ := (c₁.pause p).release_frame
  have gone : goOn resumeBlock (c₁, .waits step ⟨b.base, todo, b.selectors, again, .step⟩) p =
      ((c₁.pause p).release, .ended) := nextSelector_over left
  rw [gone, released]
  exact ⟨rfl, rfl, steps, blocks⟩

theorem Sung.stays (h : c.Sung played r) (p : Pause) : c.Sung played (goOn resumeBlock r p) := by
  obtain ⟨c₁, outcome⟩ := r
  have ended := h.ended
  change outcome = .ended at ended
  subst ended
  exact h

theorem Plays.first (h : c.Plays j step b.base b.selectors) (silent : c.sounding = []) {again : Nat}
    (left : (List.replicate again b.selectors).flatten = selector :: coming) :
    c.Sings j step b [selector] coming (c.nextSelector b.base [] b.selectors again) := by
  obtain ⟨c', todo, again', waits, inside, left, plays, stepped⟩ :=
    h.nextSelector (List.nil_subset _) left
  obtain ⟨sounding, steps, blocks, log, catalog⟩ := stepped
  rw [waits]
  refine ⟨plays, ⟨todo, again', rfl, inside, left⟩, ?_, steps, blocks, ?_, catalog⟩
  · rw [sounding]
    split
    · rename_i hold
      rw [silent, hold]
      rfl
    · rename_i other
      exact (Instrument.heldAfter_other [] other).symm
  · rw [log, List.flatMap_singleton]

/-- **A block in chords, alone.** At the wait after so many pauses one selector more has begun, as
long as there are more; then the block is over. -/
theorem Plays.alone (h : c.Plays j step b.base b.selectors) (silent : c.sounding = [])
    (again : Nat) (pauses : List Pause) :
    let written := (List.replicate again b.selectors).flatten
    let r := alone resumeBlock (c.nextSelector b.base [] b.selectors again) pauses
    (pauses.length < written.length →
      c.Sings j step b (written.take (pauses.length + 1)) (written.drop (pauses.length + 1)) r) ∧
    (written.length ≤ pauses.length → c.Sung written r) := by
  intro written
  induction pauses using List.reverseRecOn with
  | nil =>
    cases left : written with
    | nil =>
      obtain ⟨sent, released⟩ := c.release_frame
      refine ⟨fun h => absurd h (Nat.not_lt_zero _), fun _ => ?_⟩
      have ended : c.nextSelector b.base [] b.selectors again = (c.release, .ended) :=
        nextSelector_over left
      change c.Sung _ (c.nextSelector b.base [] b.selectors again)
      rw [ended, released]
      exact ⟨rfl, rfl, rfl, rfl⟩
    | cons selector coming =>
      exact ⟨fun _ => h.first silent left, fun h => absurd h (Nat.not_succ_le_zero _)⟩
  | append_singleton pauses p ih =>
    rw [alone_append]
    obtain ⟨sings, sung⟩ := ih
    rw [List.length_append, List.length_singleton]
    refine ⟨fun more => ?_, fun done => ?_⟩
    · have now := sings (by omega)
      rw [List.drop_eq_getElem_cons more] at now
      rw [List.take_add_one, List.getElem?_eq_getElem more]
      exact now.next p
    · by_cases last : written.length = pauses.length + 1
      · have now := sings (by omega)
        rw [List.drop_of_length_le (by omega), List.take_of_length_le (by omega)] at now
        exact now.ends p
      · exact (sung (by omega)).stays p

/-! ### The whole block -/

theorem applyCommands_keeps (base : Nat) (commands : List Command) :
    ∀ c : Conductor, ∃ instrument log,
      (applyCommands base c commands).1 = { c with instrument, log } := by
  induction commands with
  | nil => exact fun c => ⟨c.instrument, c.log, rfl⟩
  | cons command rest ih =>
    intro c
    rw [applyCommands]
    split
    · rename_i c' applied h
      obtain ⟨instrument, log, same⟩ : ∃ instrument log, c' = { c with instrument, log } := by
        obtain ⟨i, -, ⟨j, -, rfl⟩ | ⟨text, rfl⟩⟩ := applyCommand_cases h
        · exact ⟨some j, c.log, rfl⟩
        · exact ⟨c.instrument, _, rfl⟩
      obtain ⟨instrument', log', all⟩ := ih c'
      exact ⟨instrument', log', by rw [all, same]⟩
    · exact ⟨c.instrument, c.log, rfl⟩

/-- The commands of a block could all be applied or passed over, and have left the instrument
`j`. -/
structure Prepared (c : Conductor) (b : Block) (c₁ : Conductor) (j : Instrument) : Prop where
  /-- The commands begin with the instrument of the conductor, repeated once. -/
  applied : ∃ i, c.instrument = some i ∧ applyCommands b.base
    { c with instrument := some { i with repeats := 1 } } b.commands = (c₁, none)
  /-- The instrument that they leave. -/
  chosen : c₁.instrument = some j

theorem Prepared.kept {c₁ : Conductor} (h : c.Prepared b c₁ j) :
    ∃ log, c₁ = { c with instrument := some j, log := log } := by
  obtain ⟨⟨i, -, applied⟩, chosen⟩ := h
  obtain ⟨instrument, log, kept⟩ := applyCommands_keeps b.base b.commands
    { c with instrument := some { i with repeats := 1 } }
  rw [applied] at kept
  dsimp only at kept
  subst kept
  exact ⟨log, by rw [← chosen]⟩

/-- The conductor that has begun one block more, with the sound of the instrument. -/
def announced (c : Conductor) (j : Instrument) : Conductor :=
  { c.send (.program j.channel j.timbre) with
    blocksPerformed := (c.send (.program j.channel j.timbre)).blocksPerformed + 1 }

/-- What the first selector of a block finds: what the commands have left, and one block more. -/
theorem Prepared.announced {c₁ : Conductor} (h : c.Prepared b c₁ j) :
    ∃ sent, c₁.announced j = { c with
      instrument := some j
      log := c₁.log
      sent := sent
      blocksPerformed := c.blocksPerformed + 1 } := by
  obtain ⟨log, rfl⟩ := h.kept
  obtain ⟨sent, sends⟩ := send_frame { c with instrument := some j, log := log }
    (.program j.channel j.timbre)
  exact ⟨sent, by rw [Conductor.announced, sends]⟩

theorem Prepared.beginBlock {c₁ : Conductor} (h : c.Prepared b c₁ j) :
    c.beginBlock b = (c₁.announced j).nextSelector b.base [] b.selectors j.repeats.toNat := by
  obtain ⟨⟨i, hi, applied⟩, chosen⟩ := h
  simp only [Conductor.beginBlock, hi, applied, chosen]
  rfl

/-- What the commands of a block must leave so that it can be played in chords. -/
structure Chordal (c : Conductor) (b : Block) (c₁ : Conductor) (j : Instrument) (step : Float) :
    Prop where
  /-- The commands can be applied or passed over. -/
  prepared : c.Prepared b c₁ j
  /-- The instrument plays chords. -/
  mode : j.playMode = .chord
  /-- Every selector takes a step. -/
  length : ∀ selector ∈ b.selectors, c₁.stepSeconds = .ok step
  /-- Every number picks a degree that has pitches. -/
  pitches : ∀ selector ∈ b.selectors, ∀ degree, selectorDegree? selector b.base = some degree →
    ∃ notes, { j with selectedNote := degree }.pitches c.catalog = .ok notes

theorem Chordal.plays {c₁ : Conductor} (h : c.Chordal b c₁ j step)
    (goes : c.stopRequested = false) : (c₁.announced j).Plays j step b.base b.selectors := by
  obtain ⟨prepared, mode, length, pitches⟩ := h
  obtain ⟨sent, first⟩ := prepared.announced
  obtain ⟨log, kept⟩ := prepared.kept
  have tempo : c₁.bpm = c.bpm := by rw [kept]
  rw [first]
  refine ⟨goes, ⟨j, rfl, .inl rfl⟩, mode, fun selector mem => ?_, pitches⟩
  have long := length selector mem
  rw [stepSeconds_eq prepared.chosen, tempo] at long
  rw [stepSeconds_eq rfl]
  exact long

/-- What a block in chords comes to alone, as its first selector finds the conductor. -/
theorem Chordal.alone {c₁ : Conductor} (h : c.Chordal b c₁ j step) (goes : c.stopRequested = false)
    (silent : c.sounding = []) (pauses : List Pause) :
    let d := c₁.announced j
    let written := (List.replicate j.repeats.toNat b.selectors).flatten
    let r := alone resumeBlock (c.beginBlock b) pauses
    (pauses.length < written.length →
      d.Sings j step b (written.take (pauses.length + 1)) (written.drop (pauses.length + 1)) r) ∧
    (written.length ≤ pauses.length → d.Sung written r) := by
  intro d written r
  have quiet : d.sounding = [] := by
    obtain ⟨sent, kept⟩ := h.prepared.announced
    rw [show d = _ from kept]
    exact silent
  have played := (h.plays goes).alone quiet j.repeats.toNat pauses
  rw [← h.prepared.beginBlock] at played
  exact played

/-- The caller performs a block in chords to its end, if no task acts meanwhile. -/
theorem Chordal.performed {c₁ : Conductor} (h : c.Chordal b c₁ j step)
    (goes : c.stopRequested = false) (silent : c.sounding = []) {turns : Nat}
    (enough : j.repeats.toNat * b.selectors.length ≤ turns) (dead : c.task.any (·.live) = false) :
    ∃ c', c.performBlock turns b = (c', .ok ()) ∧ c'.sounding = [] ∧
      c'.stepsPerformed = c.stepsPerformed + j.repeats.toNat * b.selectors.length ∧
      c'.blocksPerformed = c.blocksPerformed + 1 := by
  have count : (List.replicate j.repeats.toNat b.selectors).flatten.length =
      j.repeats.toNat * b.selectors.length := by simp
  obtain ⟨sent, kept⟩ := h.prepared.announced
  have begun : (c.beginBlock b).1.task = c.task := (beginBlock_changes b).task_eq
  refine finish_alone (fun c next => (resumeBlock_changes next).task_eq) turns turns
    (begun ▸ dead) ?_
  intro pauses length
  obtain ⟨ended, quiet, steps, blocks⟩ :=
    (h.alone goes silent pauses).2 (count.le.trans (enough.trans length.ge))
  rw [kept] at steps blocks
  exact ⟨ended, quiet, count ▸ steps, blocks⟩

/-- An output hears what sounds while a block is performed alone. -/
theorem Faithful.block_heard (h : c.Faithful) (audible : c.audible = true) (b : Block)
    (pauses : List Pause) : let d := (alone resumeBlock (c.beginBlock b) pauses).1
    soundingAfter d.sent = d.sounding.toFinset := by
  intro d
  have heard : d.Faithful ∧ d.audible = true := by
    have begun := (beginBlock_changes b : Changes c _).moves
    refine alone_invariant (P := fun c => c.Faithful ∧ c.audible = true) ?_ ?_ pauses
      ⟨h.moves begun, begun.audible_eq.trans audible⟩
    · rintro c p ⟨faithful, audible⟩
      exact ⟨faithful.alike rfl rfl rfl, audible⟩
    · rintro c next ⟨faithful, audible⟩
      have gone := (resumeBlock_changes next : Changes c _).moves
      exact ⟨faithful.moves gone, gone.audible_eq.trans audible⟩
  exact heard.1.heard_audible heard.2

/-- **What a block means.**  Let the commands of a block leave the instrument `j`, which plays
chords, and let every selector have a step and every number a chord.  From silence and alone, the
block takes one wait of a full step for each of its selectors, written out as often as the block is
repeated.  In each step those voices sound that `Instrument.heldAfter` says; after the last one
nothing sounds.  Each selector counts as a step and all together as a block; a selector that is
unknown differs from a rest by one warning and by nothing else.  The caller comes to this end
under the virtual clock, if no task acts meanwhile.  If the conductor has an output and remembers
what the output heard, the output hears the same from then on. -/
theorem block_meaning {c c₁ : Conductor} {b : Block} {j : Instrument} {step : Float}
    (chordal : c.Chordal b c₁ j step) (goes : c.stopRequested = false)
    (silent : c.sounding = []) :
    let written := (List.replicate j.repeats.toNat b.selectors).flatten
    let waits := j.repeats.toNat * b.selectors.length
    (∀ pauses : List Pause, let r := alone resumeBlock (c.beginBlock b) pauses
      (pauses.length < waits →
        (∃ cursor, r.2 = .waits step cursor) ∧
        r.1.sounding.toFinset =
          j.heldAfter c.catalog b.base (written.take (pauses.length + 1)) ∧
        r.1.stepsPerformed = c.stepsPerformed + (pauses.length + 1) ∧
        r.1.blocksPerformed = c.blocksPerformed + 1 ∧
        r.1.log = ((written.take (pauses.length + 1)).flatMap
          (j.warningsOf c.catalog b.base)).reverse ++ c₁.log) ∧
      (waits ≤ pauses.length →
        r.2 = .ended ∧ r.1.sounding = [] ∧ r.1.stepsPerformed = c.stepsPerformed + waits ∧
        r.1.blocksPerformed = c.blocksPerformed + 1)) ∧
    (∀ (c : Conductor) (selector : String) (base : Nat) (step : Float),
      c.stepSeconds = .ok step → selectorDegree? selector base = none →
      ¬ (selector = "=" ∨ selector = "." ∨ selector = "s") →
      c.beginSelector selector base =
        ((c.beginSelector "." base).1.warn s!"Playing unknown selector '{selector}' as a rest",
          (c.beginSelector "." base).2)) ∧
    (∀ turns, waits ≤ turns → c.task.any (·.live) = false →
      ∃ c', c.performBlock turns b = (c', .ok ()) ∧ c'.sounding = [] ∧
        c'.stepsPerformed = c.stepsPerformed + waits ∧
        c'.blocksPerformed = c.blocksPerformed + 1) ∧
    (c.Faithful → c.audible = true →
      (∀ pauses : List Pause,
        let heard := soundingAfter (alone resumeBlock (c.beginBlock b) pauses).1.sent
        (pauses.length < waits →
          heard = j.heldAfter c.catalog b.base (written.take (pauses.length + 1))) ∧
        (waits ≤ pauses.length → heard = ∅)) ∧
      ∀ turns, waits ≤ turns → c.task.any (·.live) = false →
        soundingAfter (c.performBlock turns b).1.sent = ∅) := by
  intro written waits
  have count : written.length = waits := by simp [written, waits]
  have alone := chordal.alone goes silent
  obtain ⟨sent, kept⟩ := chordal.prepared.announced
  rw [kept] at alone
  have performed (turns : Nat) (enough : waits ≤ turns) (dead : c.task.any (·.live) = false) :=
    chordal.performed goes silent enough dead
  refine ⟨fun pauses => ?_, fun c selector base step long unknown signs => ?_, performed,
    fun faithful audible => ⟨fun pauses => ?_, fun turns enough dead => ?_⟩⟩
  · obtain ⟨sings, sung⟩ := alone pauses
    refine ⟨fun more => ?_, fun enough => ?_⟩
    · obtain ⟨-, ⟨todo, again, waiting, -⟩, sounding, steps, blocks, log, -⟩ :=
        sings (count.symm ▸ more)
      have taken : (written.take (pauses.length + 1)).length = pauses.length + 1 := by
        rw [List.length_take]
        omega
      rw [taken] at steps
      exact ⟨⟨_, waiting⟩, sounding, steps, blocks, log⟩
    · obtain ⟨ended, quiet, steps, blocks⟩ := sung (count.symm ▸ enough)
      exact ⟨ended, quiet, count ▸ steps, blocks⟩
  · rw [beginSelector_unknown long signs unknown, beginSelector_rest long (.inl rfl)]
  · intro heard
    obtain ⟨sings, sung⟩ := alone pauses
    have same : heard = _ := faithful.block_heard audible b pauses
    rw [same]
    refine ⟨fun more => (sings (count.symm ▸ more)).sounding, fun enough => ?_⟩
    rw [(sung (count.symm ▸ enough)).silent]
    rfl
  · have moved := performBlock_moves turns b (c := c)
    rw [(faithful.moves moved).heard_audible (moved.audible_eq.trans audible)]
    obtain ⟨c', ended, quiet, -⟩ := performed turns enough dead
    rw [ended, quiet]
    rfl

/-- A note, a sustain and an unknown selector, played twice. -/
def heldTwice : Block := ⟨[⟨"R", "2"⟩], "1=x", none⟩

theorem block_meaning_heldTwice : ∃ (c c₁ : Conductor) (j : Instrument) (step : Float),
    c.Chordal heldTwice c₁ j step ∧ c.stopRequested = false ∧ c.sounding = [] ∧
    (∀ p, let d := (alone resumeBlock (c.beginBlock heldTwice) [p]).1
      d.sounding.toFinset = {⟨0, 60⟩} ∧ soundingAfter d.sent = {⟨0, 60⟩}) ∧
    ∃ c', c.performBlock 6 heldTwice = (c', .ok ()) ∧ c'.sounding = [] ∧
      c'.stepsPerformed = c.stepsPerformed + 6 ∧ c'.blocksPerformed = c.blocksPerformed + 1 := by
  obtain ⟨c₀, created⟩ : ∃ c₀, create true .standard 120.0 = .ok c₀ := ⟨_, rfl⟩
  obtain ⟨beats, length⟩ := NoteValue.beatsOfText_ok
    (show NoteValue.ofText "4n" = .ok ⟨4, .note⟩ by decide +kernel) (by decide +kernel)
  have repeated : Setting.applyCode .standard { Instrument.initial with repeats := 1 } "2" 16 "R" =
      .ok { Instrument.initial with repeats := 2 } := by decide +kernel
  have chordal : Chordal { c₀ with instrument := some .initial } heldTwice
      { c₀ with instrument := some { Instrument.initial with repeats := 2 } }
      { Instrument.initial with repeats := 2 } (beats * 60.0 / c₀.bpm) := by
    cases created
    refine ⟨⟨⟨.initial, rfl, ?_⟩, rfl⟩, rfl, fun selector _ => ?_,
      fun selector _ degree _ => ⟨_, rfl⟩⟩
    · simp only [heldTwice, Block.base, applyCommands, applyCommand, requireInstrument, Except.bind,
        repeated]
    · rw [stepSeconds_eq rfl]
      exact congrArg _ length
  have held : Instrument.heldAfter { Instrument.initial with repeats := 2 } .standard 16
      ["1", "="] = {⟨0, 60⟩} := by decide +kernel
  have faithful : Faithful { c₀ with instrument := some .initial } :=
    (create_faithful created).alike rfl rfl rfl
  cases created
  obtain ⟨run, -, performed, heard⟩ := block_meaning chordal rfl rfl
  refine ⟨_, _, _, _, chordal, rfl, rfl, fun p => ⟨?_, ?_⟩, performed 6 (le_refl 6) rfl⟩
  · obtain ⟨-, sounding, -⟩ := (run [p]).1 (show 1 < 6 by decide)
    exact sounding.trans held
  · exact (((heard faithful rfl).1 [p]).1 (show 1 < 6 by decide)).trans held

end Conductor

end ChordSequencer

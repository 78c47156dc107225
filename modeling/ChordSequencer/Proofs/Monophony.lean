import ChordSequencer.Proofs.Balance
import ChordSequencer.Proofs.Cut
import ChordSequencer.Proofs.Meaning

/-!
# Arpeggios are monophonic

A block that is played in arpeggios has a single voice.  What it plays is written out beforehand as
a list of turns, one for each wait (`Instrument.score`), and performing the block alone goes through
this list: a turn begins at most one note, and nothing else sounds until the next turn has ended it.

* `Conductor.Rests` : the conductor between two turns, at which nothing sounds.
* `Conductor.Takes` : a turn; whether it ends by itself or is cut, the conductor rests after it.
* `Conductor.Rests.beginSelector`, `Conductor.Takes.resumeSelector` : the first turn of a selector,
  and from one to the next.
* `Conductor.ComesTo` : the invariant at the waits of a block, kept by `Conductor.ComesTo.next`.
* `Conductor.arpeggios_monophonic` : the whole block.
-/

namespace ChordSequencer

/-- Each note that begins ends before another one begins. -/
def OneAtATime (events : List Trigger) : Prop :=
  ∀ before channel note velocity after,
    events = before ++ .noteOn channel note velocity :: after →
    ∃ between later, after = between ++ .noteOff channel note :: later ∧
      ∀ t ∈ between, t.begun? = none

namespace OneAtATime

variable {events : List Trigger}

theorem nil : OneAtATime [] :=
  fun _ _ _ _ _ h => absurd h.symm (List.append_ne_nil_of_right_ne_nil _ (List.cons_ne_nil _ _))

theorem cons (h : OneAtATime events) {t : Trigger} (quiet : t.begun? = none) :
    OneAtATime (t :: events) := by
  intro before channel note velocity after same
  cases before with
  | nil =>
    obtain ⟨rfl, rfl⟩ := List.cons.inj same
    cases quiet
  | cons first before => exact h before channel note velocity after (List.cons.inj same).2

theorem begins (h : OneAtATime events) {channel note velocity : Int} :
    OneAtATime (.noteOn channel note velocity :: .noteOff channel note :: events) := by
  intro before channel' note' velocity' after same
  cases before with
  | nil =>
    obtain ⟨begun, rfl⟩ := List.cons.inj same
    cases begun
    exact ⟨[], events, rfl, fun _ none => absurd none List.not_mem_nil⟩
  | cons first before =>
    exact h.cons (by rfl) before channel' note' velocity' after (List.cons.inj same).2

end OneAtATime

/-- A turn of a block in arpeggios: a wait in the step of a selector, in which a note sounds or
none. -/
structure Turn where
  /-- The selector. -/
  selector : String
  /-- The note. -/
  note : Option Int
  deriving DecidableEq, Repr

/-- What is left of a selector at the wait of a turn: the notes `rest` of its arpeggio. -/
def Turn.Leaves (turn : Turn) (rest : List Int) : Hold → Prop
  | .step => turn.note = none ∧ rest = []
  | .voice note notes _ own => turn.note = some note ∧ rest = notes ∧ own = none

namespace Instrument

/-! ### What a block plays -/

variable (i : Instrument) (catalog : Catalog) (base : Nat)

/-- A selector can be played, unless it is a number of which the pitches are refused. -/
def canPlay (selector : String) : Bool :=
  match selectorDegree? selector base with
  | none => true
  | some degree => ({ i with selectedNote := degree }.pitches catalog).isOk

/-- The pitches of a selector in the range of MIDI, in the order of the arpeggio. -/
def orderOf (selector : String) : List Int :=
  match selectorDegree? selector base with
  | none => []
  | some degree =>
    match { i with selectedNote := degree }.pitches catalog with
    | .ok notes => i.playMode.arpeggio (notes.filter isPlayable)
    | .error _ => []

/-- The turns of a selector: one for each note, or a single one in which nothing sounds. -/
def turnsOf (selector : String) : List Turn :=
  match i.orderOf catalog base selector with
  | [] => [⟨selector, none⟩]
  | notes => notes.map fun note => ⟨selector, some note⟩

/-- The turns of some selectors, up to the first that cannot be played. -/
def score (selectors : List String) : List Turn :=
  (selectors.takeWhile (i.canPlay catalog base)).flatMap (i.turnsOf catalog base)

/-- What is sent in some turns. -/
def heardIn (turns : List Turn) : List Trigger :=
  (turns.filterMap (·.note)).flatMap fun note =>
    [.noteOn i.channel note i.velocity, .noteOff i.channel note]

/-- What a block has sent after some turns, if anything is sent: first the sound of the
instrument. -/
def sentIn (audible : Bool) (turns : List Turn) : List Trigger :=
  if audible then .program i.channel i.timbre :: i.heardIn turns else []

variable {i catalog base} {selector : String}

theorem orderOf_none (unknown : selectorDegree? selector base = none) :
    i.orderOf catalog base selector = [] := by
  rw [orderOf, unknown]

theorem canPlay_iff {degree : Int} (number : selectorDegree? selector base = some degree) :
    i.canPlay catalog base selector = true ↔
      ∃ notes, { i with selectedNote := degree }.pitches catalog = .ok notes := by
  simp only [canPlay, number]
  cases { i with selectedNote := degree }.pitches catalog with
  | error why => exact ⟨(nomatch ·), fun ⟨_, found⟩ => nomatch found⟩
  | ok notes => exact ⟨fun _ => ⟨notes, rfl⟩, fun _ => rfl⟩

theorem turnsOf_silent (silent : i.orderOf catalog base selector = []) :
    i.turnsOf catalog base selector = [⟨selector, none⟩] := by
  rw [turnsOf, silent]

theorem turnsOf_order {note : Int} {rest : List Int}
    (order : i.orderOf catalog base selector = note :: rest) :
    i.turnsOf catalog base selector =
      ⟨selector, some note⟩ :: rest.map fun note => ⟨selector, some note⟩ := by
  rw [turnsOf, order]
  rfl

theorem turnsOf_selector {turn : Turn} (mem : turn ∈ i.turnsOf catalog base selector) :
    turn.selector = selector := by
  cases order : i.orderOf catalog base selector with
  | nil =>
    rw [turnsOf_silent order, List.mem_singleton] at mem
    rw [mem]
  | cons note rest =>
    rw [turnsOf, order] at mem
    obtain ⟨_, -, rfl⟩ := List.mem_map.1 mem
    rfl

theorem turnsOf_notes (selector : String) :
    (i.turnsOf catalog base selector).filterMap (·.note) = i.orderOf catalog base selector := by
  cases order : i.orderOf catalog base selector with
  | nil =>
    rw [turnsOf_silent order]
    rfl
  | cons note rest =>
    rw [turnsOf, order, List.filterMap_map]
    exact List.filterMap_some

theorem score_cons {later : List String} (can : i.canPlay catalog base selector = true) :
    i.score catalog base (selector :: later) =
      i.turnsOf catalog base selector ++ i.score catalog base later := by
  rw [score, List.takeWhile_cons_of_pos can, List.flatMap_cons]
  rfl

theorem score_refused {later : List String} (cannot : ¬ i.canPlay catalog base selector = true) :
    i.score catalog base (selector :: later) = [] := by
  rw [score, List.takeWhile_cons_of_neg cannot]
  rfl

theorem score_notes {selectors : List String} (all : selectors.all (i.canPlay catalog base)) :
    (i.score catalog base selectors).filterMap (·.note) =
      selectors.flatMap (i.orderOf catalog base) := by
  rw [score, List.takeWhile_eq_self_iff.2 (List.all_eq_true.1 all), List.filterMap_flatMap]
  simp only [turnsOf_notes]

theorem score_silent {selectors : List String} {turn : Turn}
    (mem : turn ∈ i.score catalog base selectors)
    (unknown : selectorDegree? turn.selector base = none) : turn.note = none := by
  obtain ⟨selector, -, mem⟩ := List.mem_flatMap.1 mem
  rw [turnsOf_selector mem] at unknown
  rw [turnsOf_silent (orderOf_none unknown), List.mem_singleton] at mem
  rw [mem]

/-! ### What is heard -/

theorem heardIn_append (turns later : List Turn) :
    i.heardIn (turns ++ later) = i.heardIn turns ++ i.heardIn later := by
  simp only [heardIn, List.filterMap_append, List.flatMap_append]

theorem heardIn_begun (turns : List Turn) :
    (i.heardIn turns).filterMap Trigger.begun? =
      (turns.filterMap (·.note)).map (Voice.mk i.channel) := by
  rw [heardIn, List.filterMap_flatMap, List.map_eq_flatMap]
  rfl

theorem heardIn_oneAtATime (turns : List Turn) : OneAtATime (i.heardIn turns) := by
  rw [heardIn]
  generalize turns.filterMap (·.note) = notes
  induction notes with
  | nil => exact .nil
  | cons note notes ih => exact ih.begins

theorem sentIn_oneAtATime (audible : Bool) (turns : List Turn) :
    OneAtATime (i.sentIn audible turns) := by
  rw [sentIn]
  split
  · exact (heardIn_oneAtATime turns).cons rfl
  · exact .nil

theorem sentIn_begun (turns : List Turn) :
    (i.sentIn true turns).filterMap Trigger.begun? =
      (turns.filterMap (·.note)).map (Voice.mk i.channel) :=
  heardIn_begun turns

end Instrument

namespace Conductor

variable {c c' : Conductor} {i j : Instrument} {step : Float} {b : Block} {turn : Turn}
  {heard coming : List Turn} {rest : List Int} {hold : Hold} {selector : String}

/-! ### Notes -/

theorem noteOn_silent (silent : c.sounding = []) (channel note velocity : Int) :
    ∃ sent, c.noteOn channel note velocity =
      { c with sent := sent, sounding := [⟨channel, note⟩] } := by
  obtain ⟨sent, sends⟩ := c.send_frame (.noteOn channel note velocity)
  exact ⟨sent, by simp only [noteOn, sends, silent, List.not_mem_nil, ↓reduceIte]⟩

theorem noteOn_triggers (channel note velocity : Int) :
    (c.noteOn channel note velocity).triggers =
      c.triggers ++ if c.audible then [.noteOn channel note velocity] else [] := by
  rw [← send_triggers]
  simp only [noteOn]
  split <;> rfl

theorem noteOff_single {channel note : Int} (single : c.sounding = [⟨channel, note⟩]) :
    c.noteOff channel note = c.release := by
  simp only [noteOff, release, single, List.mem_singleton, ↓reduceIte, Voice.sorted,
    List.mergeSort_singleton, List.foldl_cons, List.foldl_nil, Voice.off]
  congr 1
  simp

theorem release_triggers {v : Voice} (single : c.sounding = [v]) :
    c.release.triggers = c.triggers ++ if c.audible then [v.off] else [] := by
  simp only [release, single, Voice.sorted, List.mergeSort_singleton, List.foldl_cons,
    List.foldl_nil]
  exact send_triggers v.off

/-! ### Turns -/

/-- What a block in arpeggios finds before its first selector. -/
structure Arpeggiates (c : Conductor) (j : Instrument) (step : Float) (b : Block) : Prop where
  /-- Playback was not stopped. -/
  goes : c.stopRequested = false
  /-- Nothing sounds. -/
  silent : c.sounding = []
  /-- The instrument is that of the block. -/
  instrument : c.instrument = some j
  /-- It does not play chords. -/
  mode : j.playMode ≠ .chord
  /-- Every selector takes a step. -/
  length : ∀ selector ∈ b.selectors, c.stepSeconds = .ok step

/-- The conductor after some turns of a block, given the conductor before its first selector:
nothing sounds, the turns `heard` were sent, and the block can go on. -/
structure Rests (c : Conductor) (j : Instrument) (heard : List Turn) (c' : Conductor) : Prop where
  /-- Nothing sounds. -/
  silent : c'.sounding = []
  /-- What was sent. -/
  triggers : c'.triggers = c.triggers ++ if c.audible then j.heardIn heard else []
  /-- Playback was not stopped. -/
  goes : c'.stopRequested = c.stopRequested
  /-- Only degrees were selected on the instrument. -/
  instrument : ∃ i, c'.instrument = some i ∧ Instrument.OnlySelected c.catalog j i
  /-- The scales are the same. -/
  catalog : c'.catalog = c.catalog
  /-- So is the tempo. -/
  bpm : c'.bpm = c.bpm
  /-- So is the output. -/
  audible : c'.audible = c.audible

/-- A turn at its wait: its note sounds and nothing else, the notes `rest` are left of its selector,
and when all voices end, whenever that is, the turn is over. -/
structure Takes (c : Conductor) (j : Instrument) (heard : List Turn) (turn : Turn) (rest : List Int)
    (c' : Conductor) (hold : Hold) : Prop where
  /-- What is left. -/
  leaves : turn.Leaves rest hold
  /-- What sounds. -/
  sounding : c'.sounding = turn.note.toList.map (Voice.mk j.channel)
  /-- How it ends. -/
  rests : ∀ p, c.Rests j (heard ++ [turn]) (c'.pause p).release

theorem Takes.cut (h : c.Takes j heard turn rest c' hold) :
    c.Rests j (heard ++ [turn]) c'.release :=
  h.rests ⟨c'.clock, c'.task⟩

theorem Arpeggiates.rests (h : c.Arpeggiates j step b) : c.Rests j [] c where
  silent := h.silent
  triggers := by simp [Instrument.heardIn]
  goes := rfl
  instrument := ⟨j, h.instrument, .inl rfl⟩
  catalog := rfl
  bpm := rfl
  audible := rfl

theorem Rests.alike (h : c.Rests j heard c') {i : Instrument}
    (kin : Instrument.OnlySelected c.catalog j i) (log : List LogLine) (steps : Nat) :
    c.Rests j heard { c' with instrument := some i, log := log, stepsPerformed := steps } :=
  ⟨h.silent, h.triggers, h.goes, ⟨i, rfl, kin⟩, h.catalog, h.bpm, h.audible⟩

theorem Rests.stepSeconds (h : c.Rests j heard c') (block : c.Arpeggiates j step b)
    (mem : selector ∈ b.selectors) : c'.stepSeconds = .ok step := by
  obtain ⟨i, hi, kin⟩ := h.instrument
  rw [stepSeconds_congr block.instrument hi kin.settings.duration h.bpm]
  exact block.length selector mem

theorem Rests.takesSilence (h : c.Rests j heard c') (selector : String) :
    c.Takes j heard ⟨selector, none⟩ [] c' .step where
  leaves := ⟨rfl, rfl⟩
  sounding := h.silent
  rests p := by
    obtain ⟨silent, triggers, goes, instrument, catalog, bpm, audible⟩ := h
    rw [release_silent (by exact silent)]
    refine ⟨silent, triggers.trans ?_, goes, instrument, catalog, bpm, audible⟩
    rw [Instrument.heardIn_append]
    simp [Instrument.heardIn]

theorem Rests.takesNote (h : c.Rests j heard c') (hi : c'.instrument = some i)
    (kin : Instrument.OnlySelected c.catalog j i) (selector : String) (note : Int)
    (rest : List Int) (seconds : Float) :
    c.Takes j heard ⟨selector, some note⟩ rest (c'.noteOnOf i note)
      (.voice note rest seconds none) := by
  obtain ⟨silent, triggers, goes, -, catalog, bpm, audible⟩ := h
  obtain ⟨channel, -, -, velocity⟩ := kin.settings
  have begins := c'.noteOn_triggers j.channel note j.velocity
  obtain ⟨sent, on⟩ := noteOn_silent silent j.channel note j.velocity
  rw [noteOnOf, channel, velocity]
  rw [on] at begins ⊢
  refine ⟨⟨rfl, rfl, rfl⟩, rfl, fun p => ?_⟩
  set sounds := ({ c' with sent := sent, sounding := [⟨j.channel, note⟩] } : Conductor).pause p
  have ends : sounds.release.triggers =
      sounds.triggers ++ if sounds.audible then [.noteOff j.channel note] else [] :=
    release_triggers (v := ⟨j.channel, note⟩) rfl
  obtain ⟨sent', off⟩ := sounds.release_frame
  rw [off] at ends ⊢
  refine ⟨rfl, ?_, goes, ⟨i, hi, kin⟩, catalog, bpm, audible⟩
  calc _ = c'.triggers ++ (if c'.audible then [_] else []) ++ if c'.audible then [_] else [] :=
        ends.trans (congrArg (· ++ _) begins)
    _ = c.triggers ++ if c.audible then j.heardIn (heard ++ [⟨selector, some note⟩]) else [] := by
      rw [triggers, audible, Instrument.heardIn_append]
      split <;> simp [Instrument.heardIn]

/-- A degree of which no pitch can be played is a rest. -/
theorem playDegree_silent (step : Float) {notes : List Int} {degree : Int}
    (selected : { i with selectedNote := degree }.selectNotes c.catalog = .ok (notes, j))
    (mode : j.playMode ≠ .chord)
    (arpeggio : j.playMode.arpeggio (notes.filter isPlayable) = []) :
    c.playDegree i step degree =
      ({ c with instrument := some j }.report (Instrument.unplayableWarnings notes),
        .waits step .step) := by
  simp only [playDegree]
  rw [selected]
  dsimp only
  rw [warnUnplayable_eq, sound, if_neg mode, arpeggio]

/-- A degree that has pitches is played as an arpeggio, one note after another. -/
theorem playDegree_arpeggio (goes : c.stopRequested = false) (step : Float) {notes : List Int}
    {degree note : Int}
    (selected : { i with selectedNote := degree }.selectNotes c.catalog = .ok (notes, j))
    (mode : j.playMode ≠ .chord)
    (arpeggio : j.playMode.arpeggio (notes.filter isPlayable) = note :: rest) :
    ∃ seconds, c.playDegree i step degree =
      (({ c with instrument := some j }.report (Instrument.unplayableWarnings notes)).noteOnOf j
        note, .waits seconds (.voice note rest seconds none)) := by
  refine ⟨step / (Number.nearest (rest.length + 1) 1), ?_⟩
  simp only [playDegree]
  rw [selected]
  dsimp only
  rw [warnUnplayable_eq, sound, if_neg mode, arpeggio]
  simp only [startVoice, report, goes, Bool.false_eq_true, ↓reduceIte]

/-- **The first turn of a selector** that can be played. -/
theorem Rests.beginSelector (h : c.Rests j heard c') (block : c.Arpeggiates j step b)
    (mem : selector ∈ b.selectors) (can : j.canPlay c.catalog b.base selector = true) :
    ∃ c'' seconds hold turn rest, c'.beginSelector selector b.base = (c'', .waits seconds hold) ∧
      j.turnsOf c.catalog b.base selector = turn :: rest.map (⟨selector, some ·⟩) ∧
      turn.selector = selector ∧ c.Takes j heard turn rest c'' hold := by
  obtain ⟨i, hi, kin⟩ := h.instrument
  have length := h.stepSeconds block mem
  have silent : c'.counted.release = c'.counted := release_silent h.silent
  have silence (log : List LogLine) :=
    (h.alike kin log (c'.stepsPerformed + 1)).takesSilence selector
  rw [← hi] at silence
  have unknown (none : selectorDegree? selector b.base = none) :
      j.turnsOf c.catalog b.base selector = [⟨selector, .none⟩] :=
    Instrument.turnsOf_silent (Instrument.orderOf_none none)
  by_cases hold : selector = "="
  · rw [beginSelector_hold length hold]
    exact ⟨_, _, _, _, _, rfl, unknown (b.selectorDegree?_sign (.inl hold)), rfl, silence c'.log⟩
  by_cases rest : selector = "." ∨ selector = "s"
  · rw [beginSelector_rest length rest, silent]
    exact ⟨_, _, _, _, _, rfl, unknown (b.selectorDegree?_sign (.inr rest)), rfl, silence c'.log⟩
  have signs : ¬ (selector = "=" ∨ selector = "." ∨ selector = "s") := not_or.2 ⟨hold, rest⟩
  cases number : selectorDegree? selector b.base with
  | none =>
    rw [beginSelector_unknown length signs number, silent]
    exact ⟨_, _, _, _, _, rfl, unknown number, rfl, silence _⟩
  | some degree =>
    -- the pitches are those of the block's instrument, whatever was selected on it before
    obtain ⟨notes, found⟩ := (Instrument.canPlay_iff number).1 can
    have order : j.orderOf c.catalog b.base selector =
        j.playMode.arpeggio (notes.filter isPlayable) := by
      simp only [Instrument.orderOf, number, found]
    obtain ⟨k, selected⟩ :
        ∃ k, { i with selectedNote := degree }.selectNotes c.catalog = .ok (notes, k) :=
      ⟨_, (Instrument.selectNotes_again kin degree).trans
        (Instrument.selectNotes_of_pitches found)⟩
    have kin' := kin.select selected
    have mode : k.playMode ≠ .chord := kin'.settings.playMode ▸ block.mode
    have catalog : c'.counted.catalog = c.catalog := h.catalog
    rw [← catalog] at selected
    rw [← kin'.settings.playMode] at order
    rw [beginSelector_number length signs number hi, silent]
    cases arpeggio : k.playMode.arpeggio (notes.filter isPlayable) with
    | nil =>
      rw [playDegree_silent step selected mode arpeggio]
      exact ⟨_, _, _, _, _, rfl, Instrument.turnsOf_silent (order.trans arpeggio), rfl,
        (h.alike kin' _ _).takesSilence selector⟩
    | cons note rest =>
      have goes : c'.counted.stopRequested = false := h.goes.trans block.goes
      obtain ⟨seconds, played⟩ := playDegree_arpeggio goes step selected mode arpeggio
      rw [played]
      exact ⟨_, _, _, _, _, rfl, Instrument.turnsOf_order (order.trans arpeggio), rfl,
        (h.alike kin' _ _).takesNote rfl kin' selector note rest seconds⟩

theorem Rests.refusesSelector (h : c.Rests j heard c') (block : c.Arpeggiates j step b)
    (mem : selector ∈ b.selectors) (cannot : ¬ j.canPlay c.catalog b.base selector = true) :
    ∃ c'' why, c'.beginSelector selector b.base = (c'', .failed why) ∧ c''.sounding = [] ∧
      c''.triggers = c'.triggers := by
  obtain ⟨i, hi, kin⟩ := h.instrument
  have silent : c'.counted.release = c'.counted := release_silent h.silent
  cases number : selectorDegree? selector b.base with
  | none => exact absurd (by rw [Instrument.canPlay, number]) cannot
  | some degree =>
    have signs : ¬ (selector = "=" ∨ selector = "." ∨ selector = "s") := fun sign => by
      rw [b.selectorDegree?_sign sign] at number
      cases number
    rw [beginSelector_number (h.stepSeconds block mem) signs number hi, silent]
    cases selected : { i with selectedNote := degree }.selectNotes c.catalog with
    | ok played =>
      rw [Instrument.selectNotes_again kin] at selected
      exact absurd ((Instrument.canPlay_iff number).2
        ⟨played.1, (Instrument.selectNotes_ok selected).1⟩) cannot
    | error why =>
      have catalog : c'.counted.catalog = c.catalog := h.catalog
      rw [← catalog] at selected
      refine ⟨{ c'.counted with instrument := some { i with selectedNote := degree } },
        .refused why, ?_, h.silent, rfl⟩
      simp only [playDegree]
      rw [selected]

/-! ### From one turn to the next -/

/-- A block is over, by its end or at a selector that cannot be played: the turns `heard` were
sent. -/
structure Over (c : Conductor) (j : Instrument) (heard : List Turn) (complete : Bool)
    (r : Conductor × Outcome BlockCursor) : Prop where
  /-- Nothing sounds. -/
  silent : r.1.sounding = []
  /-- What was sent. -/
  triggers : r.1.triggers = c.triggers ++ if c.audible then j.heardIn heard else []
  /-- How it is over. -/
  outcome : if complete then r.2 = .ended else ∃ why, r.2 = .failed why

/-- A block at the wait of a turn: the turns `heard` came before, and `coming` are left. -/
def AtTurn (c : Conductor) (j : Instrument) (b : Block) (heard : List Turn) (turn : Turn)
    (coming : List Turn) (complete : Bool) (r : Conductor × Outcome BlockCursor) : Prop :=
  ∃ seconds todo again hold rest,
    let left := todo ++ (List.replicate again b.selectors).flatten
    r.2 = .waits seconds ⟨b.base, todo, b.selectors, again, hold⟩ ∧
    c.Takes j heard turn rest r.1 hold ∧ turn.selector :: todo <:+ b.selectors ∧
    coming = rest.map (⟨turn.selector, some ·⟩) ++ j.score c.catalog b.base left ∧
    complete = left.all (j.canPlay c.catalog b.base)

/-- A block has come to the first of the turns that are left, or it is over. -/
def ComesTo (c : Conductor) (j : Instrument) (b : Block) (heard : List Turn) (complete : Bool)
    (r : Conductor × Outcome BlockCursor) : List Turn → Prop
  | [] => c.Over j heard complete r
  | turn :: coming => c.AtTurn j b heard turn coming complete r

theorem Rests.enterSelector (h : c.Rests j heard c') (block : c.Arpeggiates j step b)
    {todo : List String} (stands : selector :: todo <:+ b.selectors) (again : Nat) :
    let left := selector :: (todo ++ (List.replicate again b.selectors).flatten)
    c.ComesTo j b heard (left.all (j.canPlay c.catalog b.base))
      (c'.enterSelector b.base selector todo b.selectors again)
      (j.score c.catalog b.base left) := by
  intro left
  have mem : selector ∈ b.selectors := stands.subset List.mem_cons_self
  have goes : c'.stopRequested = false := h.goes.trans block.goes
  by_cases can : j.canPlay c.catalog b.base selector = true
  · obtain ⟨c'', seconds, hold, turn, rest, begun, turns, rfl, takes⟩ :=
      h.beginSelector block mem can
    rw [Instrument.score_cons can, turns]
    refine ⟨seconds, todo, again, hold, rest, ?_⟩
    simp only [Conductor.enterSelector, goes, Bool.false_eq_true, ↓reduceIte, begun]
    exact ⟨trivial, takes, stands, rfl, by simp only [left, List.all_cons, can, Bool.true_and]⟩
  · obtain ⟨c'', why, fails, silent, triggers⟩ := h.refusesSelector block mem can
    rw [Instrument.score_refused can]
    simp only [Conductor.enterSelector, goes, Bool.false_eq_true, ↓reduceIte, fails,
      release_silent silent]
    refine ⟨silent, triggers.trans h.triggers, ?_⟩
    simp [left, can]

/-- **The next selector** of a block, or its end. -/
theorem Rests.nextSelector (h : c.Rests j heard c') (block : c.Arpeggiates j step b)
    {todo : List String} (stands : todo <:+ b.selectors) (again : Nat) :
    let left := todo ++ (List.replicate again b.selectors).flatten
    c.ComesTo j b heard (left.all (j.canPlay c.catalog b.base))
      (c'.nextSelector b.base todo b.selectors again) (j.score c.catalog b.base left) := by
  intro left
  have closed (empty : left = []) : c.ComesTo j b heard (left.all (j.canPlay c.catalog b.base))
      (c'.nextSelector b.base todo b.selectors again) (j.score c.catalog b.base left) := by
    rw [nextSelector_over empty, release_silent h.silent, empty]
    exact ⟨h.silent, h.triggers, rfl⟩
  cases todo with
  | cons selector todo => exact h.enterSelector block stands again
  | nil =>
    cases again with
    | zero => exact closed rfl
    | succ n =>
      by_cases none : b.selectors = []
      · exact closed (by simp [left, none])
      · -- the next repetition begins
        obtain ⟨first, rest, all⟩ := List.exists_cons_of_ne_nil none
        have begins : c'.nextSelector b.base [] b.selectors (n + 1) =
            c'.enterSelector b.base first rest b.selectors n := by
          rw [all]
          rfl
        have first_left : left = first :: (rest ++ (List.replicate n b.selectors).flatten) := by
          rw [← List.cons_append, ← all]
          rfl
        rw [begins, first_left]
        exact h.enterSelector block (by rw [all]) n

/-- **The next turn** of a selector: the note that sounds ends before the next one begins. -/
theorem Takes.resumeSelector {hold : Hold} (h : c.Takes j heard turn rest c' hold) (p : Pause)
    (block : c.Arpeggiates j step b) :
    match rest with
    | [] => ∃ c'', (c'.pause p).resumeSelector hold = (c'', .ended) ∧
        c.Rests j (heard ++ [turn]) c''
    | note :: rest => ∃ c'' seconds hold',
        (c'.pause p).resumeSelector hold = (c'', .waits seconds hold') ∧
        c.Takes j (heard ++ [turn]) ⟨turn.selector, some note⟩ rest c'' hold' := by
  obtain ⟨leaves, sounding, rests⟩ := h
  have rests := rests p
  cases hold with
  | step =>
    obtain ⟨silent, rfl⟩ := leaves
    rw [silent] at sounding
    rw [release_silent (by exact sounding)] at rests
    exact ⟨_, rfl, rests⟩
  | voice note notes seconds own =>
    obtain ⟨begun, rfl, rfl⟩ := leaves
    rw [begun] at sounding
    obtain ⟨i, hi, kin⟩ := rests.instrument
    rw [release_instrument] at hi
    have off : (c'.pause p).noteOff i.channel note = (c'.pause p).release := by
      rw [kin.settings.channel]
      exact noteOff_single sounding
    have goes : (c'.pause p).release.stopRequested = false := rests.goes.trans block.goes
    cases rest with
    | nil =>
      refine ⟨_, ?_, rests⟩
      simp only [Conductor.resumeSelector, Option.none_or, hi, off]
    | cons next rest =>
      refine ⟨_, seconds, _, ?_,
        rests.takesNote (release_instrument.trans hi) kin _ next rest seconds⟩
      simp only [Conductor.resumeSelector, Option.none_or, hi, off, startVoice, goes,
        Bool.false_eq_true, ↓reduceIte]

variable {complete : Bool} {r : Conductor × Outcome BlockCursor}

/-- **The next turn** of a block. -/
theorem ComesTo.next (h : c.ComesTo j b heard complete r (turn :: coming))
    (block : c.Arpeggiates j step b) (p : Pause) :
    c.ComesTo j b (heard ++ [turn]) complete (goOn resumeBlock r p) coming := by
  obtain ⟨c₁, outcome⟩ := r
  obtain ⟨seconds, todo, again, hold, rest, rfl, takes, stands, rfl, rfl⟩ := h
  have resumed := takes.resumeSelector p block
  cases rest with
  | nil =>
    obtain ⟨c₂, ended, rests⟩ := resumed
    have gone : goOn resumeBlock (c₁, .waits seconds ⟨b.base, todo, b.selectors, again, hold⟩) p =
        c₂.nextSelector b.base todo b.selectors again := by
      simp only [goOn, resumeBlock, ended]
    rw [gone]
    exact rests.nextSelector block ((List.suffix_cons _ _).trans stands) again
  | cons note rest =>
    obtain ⟨c₂, seconds', hold', waits, takes⟩ := resumed
    have gone : goOn resumeBlock (c₁, .waits seconds ⟨b.base, todo, b.selectors, again, hold⟩) p =
        (c₂, .waits seconds' ⟨b.base, todo, b.selectors, again, hold'⟩) := by
      simp only [goOn, resumeBlock, waits]
    rw [gone]
    exact ⟨seconds', todo, again, hold', rest, rfl, takes, stands, rfl, rfl⟩

theorem Over.stays (h : c.Over j heard complete r) (p : Pause) :
    c.Over j heard complete (goOn resumeBlock r p) := by
  obtain ⟨c₁, outcome⟩ := r
  obtain ⟨silent, triggers, closed⟩ := h
  cases outcome with
  | waits seconds cursor =>
    dsimp only at closed
    split at closed
    · cases closed
    · obtain ⟨_, closed⟩ := closed
      cases closed
  | ended => exact ⟨silent, triggers, closed⟩
  | failed why => exact ⟨silent, triggers, closed⟩

/-- **A block in arpeggios, alone.** After so many pauses, so many turns are over. -/
theorem Arpeggiates.alone (block : c.Arpeggiates j step b) (again : Nat) (pauses : List Pause) :
    let written := (List.replicate again b.selectors).flatten
    let score := j.score c.catalog b.base written
    c.ComesTo j b (score.take pauses.length) (written.all (j.canPlay c.catalog b.base))
      (alone resumeBlock (c.nextSelector b.base [] b.selectors again) pauses)
      (score.drop pauses.length) := by
  intro written score
  induction pauses using List.reverseRecOn with
  | nil => exact block.rests.nextSelector block (List.nil_suffix) again
  | append_singleton pauses p ih =>
    rw [alone_append, List.length_append, List.length_singleton]
    by_cases more : pauses.length < score.length
    · rw [List.drop_eq_getElem_cons more] at ih
      rw [List.take_add_one, List.getElem?_eq_getElem more]
      exact ih.next block p
    · -- the block was over before
      rw [List.drop_of_length_le (by omega), List.take_of_length_le (by omega)] at ih ⊢
      exact Over.stays ih p

/-! ### The whole block -/

/-- What the commands of a block must leave so that it is played in arpeggios. -/
structure Arpeggiated (c : Conductor) (b : Block) (c₁ : Conductor) (j : Instrument) (step : Float) :
    Prop where
  /-- The commands can be applied or passed over. -/
  prepared : c.Prepared b c₁ j
  /-- The instrument does not play chords. -/
  mode : j.playMode ≠ .chord
  /-- Every selector takes a step. -/
  length : ∀ selector ∈ b.selectors, c₁.stepSeconds = .ok step

theorem Arpeggiated.arpeggiates {c₁ : Conductor} (h : c.Arpeggiated b c₁ j step)
    (goes : c.stopRequested = false) (silent : c.sounding = []) :
    (c₁.announced j).Arpeggiates j step b := by
  obtain ⟨prepared, mode, length⟩ := h
  obtain ⟨sent, first⟩ := prepared.announced
  obtain ⟨log, kept⟩ := prepared.kept
  have tempo : (c₁.announced j).bpm = c₁.bpm := by rw [first, kept]
  have instrument : (c₁.announced j).instrument = some j := by rw [first]
  refine ⟨by rw [first]; exact goes, by rw [first]; exact silent, instrument, mode,
    fun selector mem => ?_⟩
  rw [stepSeconds_congr prepared.chosen instrument rfl tempo]
  exact length selector mem

theorem Prepared.announced_sentIn {c₁ : Conductor} (h : c.Prepared b c₁ j) (turns : List Turn) :
    ((c₁.announced j).triggers ++
        if (c₁.announced j).audible then j.heardIn turns else []) =
      c.triggers ++ j.sentIn c.audible turns := by
  have announces : (c₁.announced j).triggers =
      c₁.triggers ++ if c₁.audible then [.program j.channel j.timbre] else [] := send_triggers _
  obtain ⟨sent, kept⟩ := h.announced
  have audible : (c₁.announced j).audible = c.audible := by rw [kept]
  obtain ⟨log, rfl⟩ := h.kept
  rw [announces, audible, Instrument.sentIn, List.append_assoc]
  change c.triggers ++ ((if c.audible then _ else []) ++ _) = _
  split <;> rfl

/-- After so many pauses, so many turns of a block in arpeggios are over. -/
theorem Arpeggiated.alone {c₁ : Conductor} (h : c.Arpeggiated b c₁ j step)
    (goes : c.stopRequested = false) (silent : c.sounding = []) (pauses : List Pause) :
    let written := (List.replicate j.repeats.toNat b.selectors).flatten
    let score := j.score c.catalog b.base written
    (c₁.announced j).ComesTo j b (score.take pauses.length)
      (written.all (j.canPlay c.catalog b.base)) (alone resumeBlock (c.beginBlock b) pauses)
      (score.drop pauses.length) := by
  have run := (h.arpeggiates goes silent).alone j.repeats.toNat pauses
  obtain ⟨sent, kept⟩ := h.prepared.announced
  have catalog : (c₁.announced j).catalog = c.catalog := by rw [kept]
  rw [← h.prepared.beginBlock, catalog] at run
  exact run

/-- **Arpeggios are monophonic.**  Let the commands of a block leave the instrument `j`, which does
not play chords, and let every selector have a step.  From silence and alone, the block takes one
wait for each turn of its score: at this wait the note of the turn sounds, if it has one, and
nothing else, so that nothing sounds in the step of a selector that is no number.  If the block is
cancelled there, the note ends, and what was sent are the turns so far, each note of which ends
before another one begins.  After the last turn the block is over and the whole score was sent; the
notes that began are those of all selectors in the order of the arpeggio, unless the pitches of one
were refused, at which the block has failed.  The caller comes to this end under the virtual clock,
if no task acts meanwhile. -/
theorem arpeggios_monophonic {c c₁ : Conductor} {b : Block} {j : Instrument} {step : Float}
    (arpeggiated : c.Arpeggiated b c₁ j step) (goes : c.stopRequested = false)
    (silent : c.sounding = []) :
    let written := (List.replicate j.repeats.toNat b.selectors).flatten
    let score := j.score c.catalog b.base written
    (∀ pauses : List Pause, let r := alone resumeBlock (c.beginBlock b) pauses
      (∀ more : pauses.length < score.length, let turn := score[pauses.length]
        r.1.sounding = turn.note.toList.map (Voice.mk j.channel) ∧ r.1.sounding.length ≤ 1 ∧
        (selectorDegree? turn.selector b.base = none → r.1.sounding = []) ∧
        ∃ seconds cursor, r.2 = .waits seconds cursor ∧ cursor.current? = some turn.selector ∧
          let cut := Call.drop r.1 (.block cursor)
          cut.sounding = [] ∧
          cut.triggers = c.triggers ++ j.sentIn c.audible (score.take (pauses.length + 1))) ∧
      (score.length ≤ pauses.length →
        r.1.sounding = [] ∧ r.1.triggers = c.triggers ++ j.sentIn c.audible score ∧
        if written.all (j.canPlay c.catalog b.base) then r.2 = .ended
        else ∃ why, r.2 = .failed why)) ∧
    (∀ turns, OneAtATime (j.sentIn c.audible turns)) ∧
    (written.all (j.canPlay c.catalog b.base) →
      (j.sentIn true score).filterMap Trigger.begun? =
        (written.flatMap (j.orderOf c.catalog b.base)).map (Voice.mk j.channel) ∧
      ∀ turns, score.length ≤ turns → c.task.any (·.live) = false →
        ∃ c', c.performBlock turns b = (c', .ok ()) ∧ c'.sounding = [] ∧
          c'.triggers = c.triggers ++ j.sentIn c.audible score) := by
  intro written score
  have alone (pauses : List Pause) : (c₁.announced j).ComesTo j b (score.take pauses.length)
      (written.all (j.canPlay c.catalog b.base))
      (Conductor.alone resumeBlock (c.beginBlock b) pauses) (score.drop pauses.length) :=
    arpeggiated.alone goes silent pauses
  have sends := arpeggiated.prepared.announced_sentIn
  have closed (pauses : List Pause) (enough : score.length ≤ pauses.length) :
      (c₁.announced j).Over j score (written.all (j.canPlay c.catalog b.base))
        (Conductor.alone resumeBlock (c.beginBlock b) pauses) := by
    have closed := alone pauses
    rw [List.drop_of_length_le enough, List.take_of_length_le enough] at closed
    exact closed
  refine ⟨fun pauses => ⟨fun more => ?_, fun enough => ?_⟩, Instrument.sentIn_oneAtATime _,
    fun all => ⟨?_, fun turns enough dead => ?_⟩⟩
  · intro turn
    have reached := alone pauses
    rw [List.drop_eq_getElem_cons more] at reached
    obtain ⟨seconds, todo, again, hold, rest, waits, takes, stands, -⟩ := reached
    have sounding := takes.sounding
    have cut := takes.cut
    refine ⟨sounding, ?_, fun unknown => ?_, seconds, _, waits, BlockCursor.current?_eq stands,
      cut.silent, ?_⟩
    · rw [sounding]
      cases turn.note <;> simp
    · rw [sounding, Instrument.score_silent (List.getElem_mem more) unknown]
      rfl
    · rw [List.take_add_one, List.getElem?_eq_getElem more]
      exact cut.triggers.trans (sends _)
  · obtain ⟨silent, triggers, outcome⟩ := closed pauses enough
    exact ⟨silent, triggers.trans (sends score), outcome⟩
  · rw [Instrument.sentIn_begun, Instrument.score_notes all]
  · refine finish_alone (fun c next => (resumeBlock_changes next).task_eq) turns turns ?_ ?_
    · rw [(beginBlock_changes b).task_eq]
      exact dead
    · intro pauses length
      obtain ⟨silent, triggers, outcome⟩ := closed pauses (enough.trans length.ge)
      rw [if_pos all] at outcome
      exact ⟨outcome, silent, triggers.trans (sends score)⟩

/-- Two voices up and down, and a sustain. -/
def upAndDown : Block := ⟨[⟨"M", "3"⟩, ⟨"W", "1"⟩], "1=", none⟩

theorem arpeggios_monophonic_upAndDown : ∃ (c c₁ : Conductor) (j : Instrument) (step : Float),
    c.Arpeggiated upAndDown c₁ j step ∧ c.stopRequested = false ∧ c.sounding = [] ∧
    (∀ p q, (alone resumeBlock (c.beginBlock upAndDown) [p, q]).1.sounding = [⟨0, 60⟩]) ∧
    ∃ c', c.performBlock 4 upAndDown = (c', .ok ()) ∧ c'.sounding = [] ∧
      c'.triggers = c.triggers ++ [.program 0 0, .noteOn 0 60 100, .noteOff 0 60,
        .noteOn 0 63 100, .noteOff 0 63, .noteOn 0 60 100, .noteOff 0 60] := by
  obtain ⟨c₀, created⟩ : ∃ c₀, create true .standard 120.0 = .ok c₀ := ⟨_, rfl⟩
  obtain ⟨beats, length⟩ := NoteValue.beatsOfText_ok
    (show NoteValue.ofText "4n" = .ok ⟨4, .note⟩ by decide +kernel) (by decide +kernel)
  have turned : Setting.applyCode .standard { Instrument.initial with repeats := 1 } "3" 16 "M" =
      .ok { Instrument.initial with playMode := .ascDesc } := by decide +kernel
  have widened : Setting.applyCode .standard
      { Instrument.initial with playMode := .ascDesc } "1" 16 "W" =
      .ok { Instrument.initial with playMode := .ascDesc, density := 1 } := by decide +kernel
  have arpeggiated : Arpeggiated { c₀ with instrument := some .initial } upAndDown
      { c₀ with instrument := some { Instrument.initial with playMode := .ascDesc, density := 1 } }
      { Instrument.initial with playMode := .ascDesc, density := 1 } (beats * 60.0 / c₀.bpm) := by
    cases created
    refine ⟨⟨⟨.initial, rfl, ?_⟩, rfl⟩, by decide, fun selector _ => ?_⟩
    · simp only [upAndDown, Block.base, applyCommands, applyCommand, requireInstrument,
        Except.bind, turned, widened]
    · rw [stepSeconds_eq rfl]
      exact congrArg _ length
  have score : Instrument.score { Instrument.initial with playMode := .ascDesc, density := 1 }
      .standard upAndDown.base ((List.replicate 1 upAndDown.selectors).flatten) =
        [⟨"1", some 60⟩, ⟨"1", some 63⟩, ⟨"1", some 60⟩, ⟨"=", none⟩] := by decide +kernel
  cases created
  obtain ⟨run, -, performed⟩ := arpeggios_monophonic arpeggiated rfl rfl
  refine ⟨_, _, _, _, arpeggiated, rfl, rfl, fun p q => ?_, ?_⟩
  · obtain ⟨sounding, -⟩ := (run [p, q]).1 (by exact score ▸ (by decide : 2 < 4))
    exact sounding
  · exact (performed (by decide +kernel)).2 4 (by decide +kernel) rfl

end Conductor

end ChordSequencer

import ChordSequencer.Conductor.Playback
import Mathlib.Logic.Relation

/-!
# What a performance does between two waits

Between two waits a performance goes on without interruption.  Whatever it does in such a stretch is
a sequence of deeds (`Conductor.Deed`): a note of the instrument begins or ends, all notes end, the
channel of the instrument changes its sound, the instrument is reworked, something is counted, or a
warning is logged.  A note that begins can be played, or it is one of those that an arpeggio has
left to play (`Hold.coming`), and nothing else is left at the next wait (`Hold.Follows`).

Each function of a performance is opened here once (`Conductor.Does`), from `startVoice` up to
`Conductor.resumePlayback_does`; what is to be shown of all of them is shown of a single deed.

The frame lemmas (`Conductor.send_frame` and its relatives) say that triggers leave everything else
of a conductor as it was.
-/

namespace ChordSequencer

/-! ### Frames -/

namespace Conductor

/-- What a performance leaves alone. -/
structure Frame where
  /-- Triggers go to an output. -/
  audible : Bool
  /-- The scales. -/
  catalog : Catalog
  /-- The tempo. -/
  bpm : Float
  /-- The song. -/
  song : Option Song
  /-- The playback task. -/
  task : Option Task
  /-- Playback was started and has not come to its end. -/
  running : Bool
  /-- Playback was stopped and not started again. -/
  stopRequested : Bool
  /-- The time. -/
  clock : Float

variable (c : Conductor)

/-- The part of a conductor that a performance leaves alone. -/
def frame : Frame :=
  ⟨c.audible, c.catalog, c.bpm, c.song, c.task, c.running, c.stopRequested, c.clock⟩

theorem send_frame (t : Trigger) : ∃ sent, c.send t = { c with sent := sent } := by
  simp only [send]
  split
  · exact ⟨_, rfl⟩
  · exact ⟨c.sent, rfl⟩

theorem noteOn_frame (channel note velocity : Int) :
    ∃ sent sounding, c.noteOn channel note velocity =
      { c with sent := sent, sounding := sounding } := by
  obtain ⟨sent, h⟩ := c.send_frame (.noteOn channel note velocity)
  simp only [noteOn]
  simp only [h]
  split
  · exact ⟨sent, c.sounding, rfl⟩
  · exact ⟨sent, _, rfl⟩

theorem noteOff_frame (channel note : Int) :
    ∃ sent sounding, c.noteOff channel note = { c with sent := sent, sounding := sounding } := by
  obtain ⟨sent, h⟩ := c.send_frame (.noteOff channel note)
  simp only [noteOff]
  split
  · rw [h]; exact ⟨sent, _, rfl⟩
  · exact ⟨c.sent, c.sounding, rfl⟩

theorem foldl_send_frame (voices : List Voice) :
    ∀ c : Conductor, ∃ sent,
      voices.foldl (fun c v => c.send v.off) c = { c with sent := sent } := by
  induction voices with
  | nil => exact fun c => ⟨c.sent, rfl⟩
  | cons v vs ih =>
    intro c
    obtain ⟨sent, h⟩ := c.send_frame v.off
    rw [List.foldl_cons, h]
    exact ih _

theorem release_frame : ∃ sent, c.release = { c with sent := sent, sounding := [] } := by
  obtain ⟨sent, h⟩ := foldl_send_frame (Voice.sorted c.sounding) c
  exact ⟨sent, by unfold release; rw [h]⟩

variable {c}

theorem noteOn_instrument (channel note velocity : Int) :
    (c.noteOn channel note velocity).instrument = c.instrument := by
  obtain ⟨sent, sounding, h⟩ := c.noteOn_frame channel note velocity
  rw [h]

theorem noteOff_instrument (channel note : Int) :
    (c.noteOff channel note).instrument = c.instrument := by
  obtain ⟨sent, sounding, h⟩ := c.noteOff_frame channel note
  rw [h]

theorem release_instrument : c.release.instrument = c.instrument := by
  obtain ⟨sent, h⟩ := c.release_frame
  rw [h]

theorem foldl_noteOnOf_instrument (i : Instrument) (notes : List Int) :
    ∀ c : Conductor, (notes.foldl (noteOnOf · i) c).instrument = c.instrument := by
  induction notes with
  | nil => exact fun _ => rfl
  | cons note notes ih =>
    intro c
    rw [List.foldl_cons, ih]
    exact noteOn_instrument ..

end Conductor

/-! ### What is left at a wait -/

/-- The voices that an arpeggio has left to play. -/
def Hold.coming : Hold → List Int
  | step => []
  | voice _ rest _ _ => rest

/-- The instrument of its own with which an arpeggio goes on. -/
def Hold.own : Hold → Option Instrument
  | step => none
  | voice _ _ _ own => own

/-- What is left at a wait comes from what was left at the wait before, or can be played. -/
structure Hold.Follows (hold next : Hold) : Prop where
  /-- No other instrument is kept. -/
  own : next.own = none ∨ next.own = hold.own
  /-- No other voice is left unless it can be played. -/
  coming : ∀ note ∈ next.coming, isPlayable note = true ∨ note ∈ hold.coming

theorem Hold.Follows.step (hold : Hold) : hold.Follows .step := ⟨.inl rfl, nofun⟩

/-- What is left of the selector in which a place lies. -/
def Place.hold : Place → Hold
  | beginning => .step
  | filler => .step
  | inBlock _ _ cursor => cursor.hold

/-! ### Deeds -/

/-- What a performance can do to its instrument. -/
inductive Instrument.Rework (catalog : Catalog) : Instrument → Instrument → Prop
  /-- A block begins: it is played once unless a command says otherwise. -/
  | once (i : Instrument) : Rework catalog i { i with repeats := 1 }
  /-- A command is applied. -/
  | takes {i j : Instrument} {value code : String} {base : Nat}
      (applied : Setting.applyCode catalog i value base code = .ok j) : Rework catalog i j
  /-- A degree is selected. -/
  | selects (i : Instrument) (degree : Int) : Rework catalog i { i with selectedNote := degree }
  /-- The pitches of the degree are found. -/
  | plays {i j : Instrument} {notes : List Int}
      (found : i.selectNotes catalog = .ok (notes, j)) : Rework catalog i j

namespace Conductor

/-- The conductor that has begun one selector more. -/
def counted (c : Conductor) : Conductor := { c with stepsPerformed := c.stepsPerformed + 1 }

/-- What a performance does that goes on with `hold` left of its selector. -/
inductive Deed (hold : Hold) : Conductor → Conductor → Prop
  /-- A note of the instrument begins, or begins once more. -/
  | begins {c : Conductor} {i : Instrument} {note : Int} (hi : c.instrument = some i)
      (playable : isPlayable note = true) : Deed hold c (c.noteOnOf i note)
  /-- The same for a note that was left of an arpeggio. -/
  | resumes {c : Conductor} {i : Instrument} {note : Int} (hi : hold.own.or c.instrument = some i)
      (left : note ∈ hold.coming) : Deed hold c (c.noteOnOf i note)
  /-- A note ends if it sounds. -/
  | ends {c : Conductor} (channel note : Int) : Deed hold c (c.noteOff channel note)
  /-- All notes end. -/
  | silences {c : Conductor} : Deed hold c c.release
  /-- The channel of the instrument takes its sound. -/
  | announces {c : Conductor} {i : Instrument} (hi : c.instrument = some i) :
      Deed hold c (c.send (.program i.channel i.timbre))
  /-- The instrument is reworked. -/
  | reworks {c : Conductor} {i j : Instrument} (hi : c.instrument = some i)
      (reworked : i.Rework c.catalog j) : Deed hold c { c with instrument := some j }
  /-- A warning is logged. -/
  | warns {c : Conductor} (text : String) : Deed hold c (c.warn text)
  /-- A selector is counted. -/
  | counts {c : Conductor} : Deed hold c c.counted
  /-- A block is counted. -/
  | countsBlock {c : Conductor} :
      Deed hold c { c with blocksPerformed := c.blocksPerformed + 1 }

/-- Deeds one after another. -/
abbrev Deeds (hold : Hold) : Conductor → Conductor → Prop := Relation.ReflTransGen (Deed hold)

/-- A stretch of a performance does nothing but deeds, up to a wait at which nothing new is left.
`left` is what is left of the selector. -/
structure Does {κ : Type} (hold : Hold) (left : κ → Hold) (c : Conductor)
    (r : Conductor × Outcome κ) : Prop where
  /-- It makes only deeds. -/
  deeds : Deeds hold c r.1
  /-- It leaves nothing new. -/
  follows : ∀ seconds next, r.2 = .waits seconds next → hold.Follows (left next)

variable {c c' : Conductor} {hold : Hold} {κ : Type} {left : κ → Hold}

theorem Does.ended (h : Deeds hold c c') : Does hold left c (c', .ended) := ⟨h, nofun⟩

theorem Does.failed (h : Deeds hold c c') {why : Failure} : Does hold left c (c', .failed why) :=
  ⟨h, nofun⟩

theorem Does.waits (h : Deeds hold c c') {seconds : Float} {next : κ}
    (follows : hold.Follows (left next)) : Does hold left c (c', .waits seconds next) :=
  ⟨h, fun _ _ waits => by cases waits; exact follows⟩

theorem Does.step (h : Deeds hold c c') {seconds : Float} :
    Does hold id c (c', .waits seconds .step) := .waits h (.step hold)

theorem Does.after {r : Conductor × Outcome κ} (h : Deeds hold c c') (d : Does hold left c' r) :
    Does hold left c r := ⟨h.trans d.deeds, d.follows⟩

/-! ### Selectors -/

theorem foldl_noteOnOf_deeds {i : Instrument} (notes : List Int)
    (playable : ∀ note ∈ notes, isPlayable note = true) :
    ∀ {c : Conductor}, c.instrument = some i → Deeds hold c (notes.foldl (noteOnOf · i) c) := by
  induction notes with
  | nil => exact fun _ => .refl
  | cons note notes ih =>
    intro c hi
    obtain ⟨first, later⟩ := List.forall_mem_cons.1 playable
    exact .head (.begins hi first) (ih later ((noteOn_instrument ..).trans hi))

theorem startVoice_does {i : Instrument} {note : Int} {rest : List Int} {own : Option Instrument}
    (begins : Deed hold c (c.noteOnOf i note)) (seconds : Float)
    (follows : hold.Follows (.voice note rest seconds own)) :
    Does hold id c (c.startVoice i seconds note rest own) := by
  simp only [startVoice]
  split
  · exact .ended .refl
  · exact .waits (.single begins) follows

theorem sound_does {i : Instrument} (hi : c.instrument = some i) (step : Float) {notes : List Int}
    (playable : ∀ note ∈ notes, isPlayable note = true) :
    Does hold id c (c.sound i step notes) := by
  simp only [sound]
  split
  · exact .step (foldl_noteOnOf_deeds notes playable hi)
  · -- an arpeggio orders the voices that it is given
    have ordered : ∀ note ∈ i.playMode.arpeggio notes, isPlayable note = true :=
      fun note mem => playable note (PlayMode.mem_of_mem_arpeggio mem)
    split
    · exact .step .refl
    · rename_i note rest arpeggio
      rw [arpeggio] at ordered
      obtain ⟨first, later⟩ := List.forall_mem_cons.1 ordered
      exact startVoice_does (.begins hi first) _ ⟨.inl rfl, fun other mem => .inl (later other mem)⟩

theorem warnUnplayable_quiet (notes : List Int) :
    (c.warnUnplayable notes).frame = c.frame ∧ (c.warnUnplayable notes).sent = c.sent ∧
      (c.warnUnplayable notes).sounding = c.sounding ∧
      (c.warnUnplayable notes).instrument = c.instrument := by
  simp only [warnUnplayable]
  split <;> exact ⟨rfl, rfl, rfl, rfl⟩

theorem warnUnplayable_deeds (notes : List Int) : Deeds hold c (c.warnUnplayable notes) := by
  simp only [warnUnplayable]
  split
  · exact .refl
  · exact .single (.warns _)

theorem playDegree_does {i : Instrument} (hi : c.instrument = some i) (step : Float)
    (degree : Int) : Does hold id c (c.playDegree i step degree) := by
  have selected : Deeds hold c { c with instrument := some { i with selectedNote := degree } } :=
    .single (.reworks hi (.selects i degree))
  simp only [playDegree]
  split
  · exact .failed selected
  · rename_i notes j found
    have reworked : Deeds hold c { c with instrument := some j } :=
      selected.tail (.reworks (c := { c with instrument := some { i with selectedNote := degree } })
        rfl (.plays found))
    have kept := (warnUnplayable_quiet (c := { c with instrument := some j }) notes).2.2.2
    exact .after (reworked.trans (warnUnplayable_deeds notes))
      (sound_does kept step fun note mem => (List.mem_filter.1 mem).2)

/-- A selector fails at once, or is counted before anything else. -/
theorem beginSelector_counted (selector : String) (base : Nat) :
    (∃ why, c.beginSelector selector base = (c, .failed why)) ∨
      Does hold id c.counted (c.beginSelector selector base) := by
  unfold beginSelector
  split
  · exact .inl ⟨_, rfl⟩
  · exact .inl ⟨_, rfl⟩
  · rename_i i step hi _
    right
    have released : Deeds hold c.counted c.counted.release := .single .silences
    have kept : c.counted.release.instrument = some i := release_instrument.trans hi
    dsimp only
    split
    · exact .step .refl
    · -- unless the notes are held, they all end before anything else
      split
      · exact .step released
      · split
        · exact .step (released.tail (.warns _))
        · exact .after released (playDegree_does kept ..)

theorem beginSelector_does (selector : String) (base : Nat) :
    Does hold id c (c.beginSelector selector base) := by
  rcases beginSelector_counted (c := c) selector base with ⟨why, failed⟩ | counted
  · rw [failed]
    exact .failed .refl
  · exact .after (.single .counts) counted

theorem resumeSelector_does (hold : Hold) : Does hold id c (c.resumeSelector hold) := by
  cases hold with
  | step => exact .ended .refl
  | voice note rest seconds own =>
    simp only [resumeSelector]
    split
    · exact .ended .refl
    · rename_i i hi
      have off : Deeds (.voice note rest seconds own) c (c.noteOff i.channel note) :=
        .single (.ends ..)
      split
      · exact .ended off
      · rename_i next rest
        have kept : own.or (c.noteOff i.channel note).instrument = some i := by
          rw [noteOff_instrument]
          exact hi
        have resumed : Deed (.voice note (next :: rest) seconds own) (c.noteOff i.channel note)
            ((c.noteOff i.channel note).noteOnOf i next) := .resumes kept List.mem_cons_self
        exact .after off (startVoice_does resumed seconds
          ⟨.inr rfl, fun other mem => .inr (List.mem_cons_of_mem _ mem)⟩)

/-! ### Blocks -/

theorem enterSelector_does (base : Nat) (selector : String) (todo all : List String)
    (again : Nat) :
    Does hold BlockCursor.hold c (c.enterSelector base selector todo all again) := by
  have begun : Does hold id c _ := beginSelector_does selector base
  simp only [enterSelector]
  split
  · exact .ended (.single .silences)
  · split <;> rename_i h <;> rw [h] at begun
    · exact .waits begun.deeds (begun.follows _ _ rfl)
    · exact .ended (begun.deeds.tail .silences)
    · exact .failed (begun.deeds.tail .silences)

theorem nextSelector_does (base : Nat) (todo all : List String) (again : Nat) :
    Does hold BlockCursor.hold c (c.nextSelector base todo all again) := by
  simp only [nextSelector]
  split
  · exact enterSelector_does ..
  · exact enterSelector_does ..
  · exact .ended (.single .silences)

/-- What a command does that does not fail: it changes the instrument, or it is passed over with a
warning. -/
theorem applyCommand_cases {command : Command} {base : Nat} {c' : Conductor} {applied : Bool}
    (h : c.applyCommand command base = .ok (c', applied)) : ∃ i, c.instrument = some i ∧
      ((∃ j, Setting.applyCode c.catalog i command.value base command.code = .ok j ∧
        c' = { c with instrument := some j }) ∨ ∃ text, c' = c.warn text) := by
  simp only [applyCommand, requireInstrument] at h
  cases hi : c.instrument with
  | none => rw [hi] at h; cases h
  | some i =>
    simp only [hi, Except.bind] at h
    refine ⟨i, rfl, ?_⟩
    split at h <;> cases h
    · rename_i j changed
      exact .inl ⟨j, changed, rfl⟩
    · exact .inr ⟨_, rfl⟩
    · exact .inr ⟨_, rfl⟩

theorem applyCommand_deed {command : Command} {base : Nat} {applied : Bool}
    (h : c.applyCommand command base = .ok (c', applied)) : Deed hold c c' := by
  obtain ⟨i, hi, ⟨j, changed, rfl⟩ | ⟨text, rfl⟩⟩ := applyCommand_cases h
  · exact .reworks hi (.takes changed)
  · exact .warns text

theorem applyCommands_deeds (base : Nat) (commands : List Command) :
    ∀ {c : Conductor}, Deeds hold c (applyCommands base c commands).1 := by
  induction commands with
  | nil => exact .refl
  | cons command rest ih =>
    intro c
    rw [applyCommands]
    split
    · rename_i c' applied h
      exact .head (applyCommand_deed h) ih
    · exact .refl

theorem beginBlock_does (b : Block) : Does hold BlockCursor.hold c (c.beginBlock b) := by
  simp only [beginBlock]
  split
  · exact .failed .refl
  · rename_i i hi
    have reset : Deeds hold c { c with instrument := some { i with repeats := 1 } } :=
      .single (.reworks hi (.once i))
    have applied := reset.trans (applyCommands_deeds b.base b.commands)
    split
    · rename_i h
      rw [h] at applied
      exact .failed applied
    · rename_i c' h
      rw [h] at applied
      split
      · exact .failed applied
      · rename_i i hi
        have announced : Deeds hold c (c'.send (.program i.channel i.timbre)) :=
          applied.tail (.announces hi)
        have counted : Deeds hold c { c'.send (.program i.channel i.timbre) with
            blocksPerformed := (c'.send (.program i.channel i.timbre)).blocksPerformed + 1 } :=
          announced.tail .countsBlock
        exact .after counted (nextSelector_does ..)

theorem resumeBlock_does (cursor : BlockCursor) :
    Does cursor.hold BlockCursor.hold c (c.resumeBlock cursor) := by
  have resumed := resumeSelector_does (c := c) cursor.hold
  simp only [resumeBlock]
  split <;> rename_i h <;> rw [h] at resumed
  · exact .waits resumed.deeds (resumed.follows _ _ rfl)
  · exact .after resumed.deeds (nextSelector_does ..)
  · exact .failed (resumed.deeds.tail .silences)

/-! ### Playback -/

theorem playBlocks_does (before : Nat) (blocks : List Block) :
    ∀ {c : Conductor}, Does hold Place.hold c (playBlocks before c blocks) := by
  induction blocks with
  | nil => exact .ended .refl
  | cons b rest ih =>
    intro c
    have begun : Does hold BlockCursor.hold c _ := beginBlock_does b
    rw [playBlocks]
    split
    · exact .ended .refl
    · split <;> rename_i h <;> rw [h] at begun
      · exact .waits begun.deeds (begun.follows _ _ rfl)
      · exact .after begun.deeds ih
      · exact .failed begun.deeds

theorem fillStep_does : Does hold Place.hold c c.fillStep := by
  simp only [fillStep]
  split
  · exact .waits .refl (.step hold)
  · exact .failed .refl

theorem newPass_does : Does hold Place.hold c c.newPass := by
  have played : Does hold Place.hold c _ := playBlocks_does c.stepsPerformed c.songBlocks
  simp only [newPass]
  split
  · exact .ended .refl
  · split
    · rename_i h
      rw [h] at played
      split
      · exact played
      · exact .after played.deeds fillStep_does
    · exact played

theorem endPass_does (before : Nat) : Does hold Place.hold c (c.endPass before) := by
  simp only [endPass]
  split
  · exact .ended .refl
  · split
    · exact fillStep_does
    · exact newPass_does

theorem resumePlayback_does (place : Place) :
    Does place.hold Place.hold c (c.resumePlayback place) := by
  cases place with
  | beginning => exact newPass_does
  | filler => exact newPass_does
  | inBlock rest before cursor =>
    have resumed := resumeBlock_does (c := c) cursor
    simp only [resumePlayback]
    split
    · rename_i h
      rw [h] at resumed
      exact .waits resumed.deeds (resumed.follows _ _ rfl)
    · rename_i c' h
      rw [h] at resumed
      have played : Does cursor.hold Place.hold c' _ := playBlocks_does before rest
      split
      · rename_i h
        rw [h] at played
        exact .after resumed.deeds (.after played.deeds (endPass_does before))
      · exact .after resumed.deeds played
    · rename_i h
      rw [h] at resumed
      exact .failed resumed.deeds

end Conductor

end ChordSequencer

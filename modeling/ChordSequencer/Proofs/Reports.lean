import ChordSequencer.Proofs.Commands
import ChordSequencer.Proofs.VirtualClock

/-!
# What a performance reports

A performance logs a warning for what it passes over: commands that are unknown or refused, pitches
that no output can play, and selectors that mean nothing.  This file follows the log through all
functions of a performance.  It only grows, and every line that it gains is one of these warnings
(`Report`); above all, a selector is reported only if it stands in a block that is performed.

* `Conductor.resumePlayback_tells` : playback from one wait to the next.
* `Scene.step_within` : whatever happens next.
* `Scene.run_reports` : any actions, in any order.
-/

namespace ChordSequencer

open Text

/-! ### Warnings -/

/-- A selector that means something: a rest, the sustain, or a number in the base. -/
def Known (base : Nat) (selector : String) : Prop :=
  selector = "." ∨ selector = "s" ∨ selector = "=" ∨
    (Numeral.read? base selector.toList).isSome = true

instance (base : Nat) (selector : String) : Decidable (Known base selector) :=
  inferInstanceAs (Decidable (_ ∨ _))

/-- The warning about a command that no setting has the code of. -/
def LogLine.unknownCommand (command : Command) : LogLine :=
  .warn s!"Ignoring unknown command type '{command.code}' (value '{command.value}')"

/-- The warning about a selector that means nothing. -/
def LogLine.unknownSelector (selector : String) : LogLine :=
  .warn s!"Playing unknown selector '{selector}' as a rest"

/-- The warnings of a performance that plays the selectors `P`. -/
inductive Report (P : String → Nat → Prop) : LogLine → Prop
  /-- A command has no setting. -/
  | unknownCommand {command : Command} (unknown : Setting.ofCode? command.code = none) :
    Report P (.unknownCommand command)
  /-- A command is refused. -/
  | refusedCommand (command : Command) (why : Refusal) :
    Report P (.warn s!"Ignoring command {command.render}: {why.message}")
  /-- Pitches cannot be played. -/
  | unplayable (notes : List Int) :
    Report P (.warn s!"Skipping pitches outside the MIDI range: {bracketed (notes.map toString)}")
  /-- A selector means nothing. -/
  | unknownSelector {selector : String} {base : Nat} (among : P selector base)
      (unknown : ¬ Known base selector) : Report P (.unknownSelector selector)

/-- The selectors of a block, with its base. -/
def Block.Within (P : String → Nat → Prop) (b : Block) : Prop := ∀ x ∈ b.selectors, P x b.base

/-- The selectors that a block under way can come to. -/
structure BlockCursor.Within (P : String → Nat → Prop) (cursor : BlockCursor) : Prop where
  /-- Those left of this repetition. -/
  todo : ∀ x ∈ cursor.todo, P x cursor.base
  /-- Those of the repetitions to come. -/
  all : ∀ x ∈ cursor.all, P x cursor.base

/-- The selectors that a pass can come to before it ends. -/
def Place.Within (P : String → Nat → Prop) : Place → Prop
  | beginning => True
  | filler => True
  | inBlock left _ cursor => (∀ b ∈ left, b.Within P) ∧ cursor.Within P

/-! ### Unknown commands -/

namespace Setting

variable {catalog : Catalog} {i : Instrument} {value code code' : String} {base : Nat}

theorem apply_known (s : Setting) :
    s.apply catalog i value base ≠ .error (.unknownCommand code) := by
  intro h
  by_cases hd : s = .duration
  · rw [hd] at h
    simp only [apply, durationOfText, NoteValue.beatsOfText] at h
    cases read : NoteValue.ofText value with
    | error refusal =>
      rw [read] at h
      cases h
    | ok v =>
      rw [read] at h
      cases beats : v.beats? <;> simp [beats, Except.map] at h
  · obtain ⟨refusal, refused⟩ := apply_error hd h
    cases refused

/-- A command is unknown exactly when no setting has its code. -/
theorem applyCode_unknown_iff :
    applyCode catalog i value base code = .error (.unknownCommand code') ↔
      ofCode? code = none ∧ code = code' := by
  simp only [applyCode]
  cases ofCode? code with
  | none => simp
  | some s => simpa using apply_known s

end Setting

namespace Conductor

variable {P : String → Nat → Prop} {c c' c'' : Conductor} {i : Instrument} {κ : Type}
  {left : κ → Prop}

/-- A line was logged since. -/
def Logged (c c' : Conductor) (line : LogLine) : Prop :=
  ∃ lines, c'.log = lines ++ c.log ∧ line ∈ lines

/-- Nothing else was logged since. -/
def Reports (P : String → Nat → Prop) (c c' : Conductor) : Prop :=
  ∃ lines, c'.log = lines ++ c.log ∧ ∀ line ∈ lines, Report P line

theorem Reports.same (h : c'.log = c.log) : Reports P c c' :=
  ⟨[], h, fun _ mem => absurd mem List.not_mem_nil⟩

theorem Reports.trans (h : Reports P c c') (h' : Reports P c' c'') : Reports P c c'' := by
  obtain ⟨lines, log, all⟩ := h
  obtain ⟨lines', log', all'⟩ := h'
  refine ⟨lines' ++ lines, by rw [log', log, List.append_assoc], fun line mem => ?_⟩
  exact (List.mem_append.1 mem).elim (all' line) (all line)

theorem Reports.warns {text : String} (report : Report P (.warn text)) :
    Reports P c (c.warn text) :=
  ⟨[.warn text], rfl, by simpa using report⟩

theorem not_logged_self (line : LogLine) : ¬ c.Logged c line := by
  rintro ⟨lines, log, mem⟩
  rw [List.self_eq_append_left.1 log] at mem
  exact List.not_mem_nil mem

theorem Logged.later {line : LogLine} (logged : Logged c c' line) (h : Reports P c' c'') :
    Logged c c'' line := by
  obtain ⟨lines, log, mem⟩ := logged
  obtain ⟨lines', log', -⟩ := h
  exact ⟨lines' ++ lines, by rw [log', log, List.append_assoc], List.mem_append_right _ mem⟩

theorem Logged.earlier {line : LogLine} (h : Reports P c c') (logged : Logged c' c'' line) :
    Logged c c'' line := by
  obtain ⟨lines, log, -⟩ := h
  obtain ⟨lines', log', mem⟩ := logged
  exact ⟨lines' ++ lines, by rw [log', log, List.append_assoc], List.mem_append_left _ mem⟩

theorem Reports.report (h : Reports P c c') {line : LogLine} (logged : Logged c c' line) :
    Report P line := by
  obtain ⟨lines, log, all⟩ := h
  obtain ⟨lines', log', mem⟩ := logged
  rw [log, List.append_cancel_right_eq] at log'
  exact all line (log' ▸ mem)

/-- A stretch of a performance logs nothing but warnings, up to a wait with `left` left. -/
structure Tells (P : String → Nat → Prop) (left : κ → Prop) (c : Conductor)
    (r : Conductor × Outcome κ) : Prop where
  /-- What it logs. -/
  reports : Reports P c r.1
  /-- What is left. -/
  within : ∀ seconds next, r.2 = .waits seconds next → left next

theorem Tells.ended (h : Reports P c c') : Tells P left c (c', .ended) := ⟨h, nofun⟩

theorem Tells.failed (h : Reports P c c') {why : Failure} : Tells P left c (c', .failed why) :=
  ⟨h, nofun⟩

theorem Tells.waits (h : Reports P c c') {seconds : Float} {next : κ} (within : left next) :
    Tells P left c (c', .waits seconds next) :=
  ⟨h, fun _ _ waits => by cases waits; exact within⟩

theorem Tells.after {r : Conductor × Outcome κ} (h : Reports P c c') (t : Tells P left c' r) :
    Tells P left c r := ⟨h.trans t.reports, t.within⟩

/-! ### What is done without a word -/

theorem send_log (t : Trigger) : (c.send t).log = c.log := by
  obtain ⟨sent, h⟩ := c.send_frame t
  rw [h]

theorem release_log : c.release.log = c.log := by
  obtain ⟨sent, h⟩ := c.release_frame
  rw [h]

theorem noteOnOf_log (note : Int) : (c.noteOnOf i note).log = c.log := by
  obtain ⟨sent, sounding, h⟩ := c.noteOn_frame i.channel note i.velocity
  rw [noteOnOf, h]

theorem noteOff_log (channel note : Int) : (c.noteOff channel note).log = c.log := by
  obtain ⟨sent, sounding, h⟩ := c.noteOff_frame channel note
  rw [h]

theorem foldl_noteOnOf_log (notes : List Int) :
    ∀ c : Conductor, (notes.foldl (noteOnOf · i) c).log = c.log := by
  induction notes with
  | nil => exact fun _ => rfl
  | cons note notes ih =>
    intro c
    rw [List.foldl_cons, ih, noteOnOf_log]

theorem startVoice_log (seconds : Float) (note : Int) (rest : List Int)
    (own : Option Instrument) : (c.startVoice i seconds note rest own).1.log = c.log := by
  simp only [startVoice]
  split
  · rfl
  · exact noteOnOf_log note

theorem sound_log (step : Float) (notes : List Int) : (c.sound i step notes).1.log = c.log := by
  simp only [sound]
  split
  · exact foldl_noteOnOf_log notes c
  · split
    · rfl
    · exact startVoice_log ..

theorem resumeSelector_log (hold : Hold) : (c.resumeSelector hold).1.log = c.log := by
  cases hold with
  | step => rfl
  | voice note rest seconds own =>
    simp only [resumeSelector]
    split
    · rfl
    · split
      · exact noteOff_log ..
      · exact (startVoice_log ..).trans (noteOff_log ..)

/-! ### Selectors -/

theorem warnUnplayable_reports (notes : List Int) : Reports P c (c.warnUnplayable notes) := by
  simp only [warnUnplayable]
  split
  · exact .same rfl
  · exact .warns (.unplayable _)

theorem playDegree_reports (step : Float) (degree : Int) :
    Reports P c (c.playDegree i step degree).1 := by
  simp only [playDegree]
  split
  · exact .same rfl
  · rename_i notes j _
    have warned : Reports P c ({ c with instrument := some j }.warnUnplayable notes) :=
      warnUnplayable_reports (c := { c with instrument := some j }) notes
    exact warned.trans (.same (sound_log ..))

theorem not_known_iff {selector : String} {base : Nat} :
    ¬ Known base selector ↔
      ¬ (selector = "=" ∨ selector = "." ∨ selector = "s") ∧
        selectorDegree? selector base = none := by
  simp only [Known, selectorDegree?, ← Option.not_isSome_iff_eq_none, Option.isSome_map]
  tauto

theorem beginSelector_reports {selector : String} {base : Nat} (among : P selector base) :
    Reports P c (c.beginSelector selector base).1 := by
  simp only [beginSelector]
  split
  · exact .same rfl
  · exact .same rfl
  · have released : Reports P c c.counted.release := .same release_log
    split
    · exact .same rfl
    · split
      · exact released
      · split
        · rename_i hold rest _ unknown
          refine released.trans (.warns (.unknownSelector among (not_known_iff.2 ⟨?_, unknown⟩)))
          exact not_or.2 ⟨hold, rest⟩
        · exact released.trans (playDegree_reports ..)

/-! ### Blocks -/

variable {base : Nat} {todo all : List String}

theorem enterSelector_tells {selector : String} (among : P selector base)
    (htodo : ∀ x ∈ todo, P x base) (hall : ∀ x ∈ all, P x base) (again : Nat) :
    Tells P (BlockCursor.Within P) c (c.enterSelector base selector todo all again) := by
  have begun : Reports P c _ := beginSelector_reports (c := c) among
  simp only [enterSelector]
  split
  · exact .ended (.same release_log)
  · split <;> rename_i h <;> rw [h] at begun
    · exact .waits begun ⟨htodo, hall⟩
    · exact .ended (begun.trans (.same release_log))
    · exact .failed (begun.trans (.same release_log))

theorem nextSelector_tells (htodo : ∀ x ∈ todo, P x base) (hall : ∀ x ∈ all, P x base)
    (again : Nat) :
    Tells P (BlockCursor.Within P) c (c.nextSelector base todo all again) := by
  simp only [nextSelector]
  split
  · obtain ⟨first, later⟩ := List.forall_mem_cons.1 htodo
    exact enterSelector_tells first later hall again
  · obtain ⟨first, later⟩ := List.forall_mem_cons.1 hall
    exact enterSelector_tells first later hall _
  · exact .ended (.same release_log)

theorem applyCommand_reports {command : Command} {applied : Bool}
    (h : c.applyCommand command base = .ok (c', applied)) : Reports P c c' := by
  simp only [applyCommand, requireInstrument] at h
  cases hi : c.instrument with
  | none => rw [hi] at h; cases h
  | some i =>
    simp only [hi, Except.bind] at h
    split at h <;> cases h
    · exact .same rfl
    · rename_i code unknown
      obtain ⟨none, rfl⟩ := Setting.applyCode_unknown_iff.1 unknown
      exact .warns (.unknownCommand none)
    · exact .warns (.refusedCommand command _)

theorem applyCommands_reports (commands : List Command) :
    ∀ {c : Conductor}, Reports P c (applyCommands base c commands).1 := by
  induction commands with
  | nil => exact .same rfl
  | cons command rest ih =>
    intro c
    rw [applyCommands]
    split
    · rename_i applied
      exact (applyCommand_reports applied).trans ih
    · exact .same rfl

theorem beginBlock_onward {b : Block} (h : b.Within P) (hi : c.instrument = some i) :
    Tells P (BlockCursor.Within P)
      (applyCommands b.base { c with instrument := some { i with repeats := 1 } } b.commands).1
      (c.beginBlock b) := by
  simp only [beginBlock, hi]
  split <;> rename_i h' <;> rw [h']
  · exact .failed (.same rfl)
  · split
    · exact .failed (.same rfl)
    · rename_i c' _ j _
      have announced : Reports P c' { c'.send (.program j.channel j.timbre) with
          blocksPerformed := (c'.send (.program j.channel j.timbre)).blocksPerformed + 1 } :=
        .same (send_log _)
      exact .after announced (nextSelector_tells (fun _ mem => absurd mem List.not_mem_nil) h _)

theorem beginBlock_tells {b : Block} (h : b.Within P) :
    Tells P (BlockCursor.Within P) c (c.beginBlock b) := by
  cases hi : c.instrument with
  | none =>
    simp only [beginBlock, hi]
    exact .failed (.same rfl)
  | some i =>
    have applied : Reports P c
        (applyCommands b.base { c with instrument := some { i with repeats := 1 } } b.commands).1 :=
      applyCommands_reports b.commands (c := { c with instrument := some { i with repeats := 1 } })
    exact .after applied (beginBlock_onward h hi)

theorem resumeBlock_tells {cursor : BlockCursor} (h : cursor.Within P) :
    Tells P (BlockCursor.Within P) c (c.resumeBlock cursor) := by
  have resumed : Reports P c _ := .same (resumeSelector_log (c := c) cursor.hold)
  simp only [resumeBlock]
  split <;> rename_i h' <;> rw [h'] at resumed
  · exact .waits resumed ⟨h.todo, h.all⟩
  · exact .after resumed (nextSelector_tells h.todo h.all _)
  · exact .failed (resumed.trans (.same release_log))

/-! ### Playback -/

theorem playBlocks_tells (before : Nat) {blocks : List Block} (h : ∀ b ∈ blocks, b.Within P) :
    ∀ {c : Conductor}, Tells P (Place.Within P) c (playBlocks before c blocks) := by
  induction blocks with
  | nil => exact .ended (.same rfl)
  | cons b rest ih =>
    intro c
    obtain ⟨first, later⟩ := List.forall_mem_cons.1 h
    have begun := beginBlock_tells (c := c) first
    rw [playBlocks]
    split
    · exact .ended (.same rfl)
    · split <;> rename_i h' <;> rw [h'] at begun
      · exact .waits begun.reports ⟨later, begun.within _ _ rfl⟩
      · exact .after begun.reports (ih later)
      · exact .failed begun.reports

theorem fillStep_tells : Tells P (Place.Within P) c c.fillStep := by
  simp only [fillStep]
  split
  · exact .waits (.same rfl) trivial
  · exact .failed (.same rfl)

theorem newPass_tells (h : ∀ b ∈ c.songBlocks, b.Within P) :
    Tells P (Place.Within P) c c.newPass := by
  have played := playBlocks_tells c.stepsPerformed h (c := c)
  simp only [newPass]
  split
  · exact .ended (.same rfl)
  · split
    · rename_i h'
      rw [h'] at played
      split
      · exact played
      · exact .after played.reports fillStep_tells
    · exact played

theorem endPass_tells (before : Nat) (h : ∀ b ∈ c.songBlocks, b.Within P) :
    Tells P (Place.Within P) c (c.endPass before) := by
  simp only [endPass]
  split
  · exact .ended (.same rfl)
  · split
    · exact fillStep_tells
    · exact newPass_tells h

/-- A performance does not change the song. -/
theorem Changes.songBlocks_eq (h : Changes c c') : c'.songBlocks = c.songBlocks := by
  have song : c'.song = c.song := congrArg Frame.song h.frame_eq
  simp only [songBlocks, song]

/-- **Playback from one wait to the next** reports nothing but what it passes over. -/
theorem resumePlayback_tells (h : ∀ b ∈ c.songBlocks, b.Within P) {place : Place}
    (there : place.Within P) : Tells P (Place.Within P) c (c.resumePlayback place) := by
  cases place with
  | beginning => exact newPass_tells h
  | filler => exact newPass_tells h
  | inBlock rest before cursor =>
    have resumed := resumeBlock_tells (c := c) there.2
    have changed := resumeBlock_changes (c := c) cursor
    simp only [resumePlayback]
    split
    · rename_i h'
      rw [h'] at resumed
      exact .waits resumed.reports ⟨there.1, resumed.within _ _ rfl⟩
    · rename_i c₁ h'
      rw [h'] at resumed changed
      have played := playBlocks_tells (c := c₁) before there.1
      have passed := (playBlocks_does before rest : Does .step Place.hold c₁ _).deeds.changes
      split
      · rename_i c₂ h'
        rw [h'] at played passed
        have song : c₂.songBlocks = c.songBlocks := Changes.songBlocks_eq (changed.trans passed)
        exact .after resumed.reports (.after played.reports (endPass_tells before (song ▸ h)))
      · exact .after resumed.reports played
    · rename_i h'
      rw [h'] at resumed
      exact .failed resumed.reports

/-! ### Conductors -/

/-- What a conductor has logged since, and what it will come to. -/
structure Within (P : String → Nat → Prop) (c before : Conductor) : Prop where
  /-- The selectors of the song. -/
  song : ∀ b ∈ c.songBlocks, b.Within P
  /-- What the playback task has left. -/
  place : ∀ place, c.place? = some place → place.Within P
  /-- What was logged. -/
  reports : Reports P before c

variable {before : Conductor}

theorem Within.steer (h : c.Within P before) (song : c'.song = c.song) (log : c'.log = c.log)
    (task : c'.task = c.task) : c'.Within P before :=
  ⟨by simpa only [songBlocks, song] using h.song, by simpa only [place?, task] using h.place,
    h.reports.trans (.same log)⟩

theorem Within.over (h : c.Within P before) (song : c'.song = c.song) (log : c'.log = c.log)
    (gone : c'.place? = none) : c'.Within P before :=
  ⟨by simpa only [songBlocks, song] using h.song,
    fun _ waits => (by cases gone.symm.trans waits), h.reports.trans (.same log)⟩

theorem Within.release (h : c.Within P before) : c.release.Within P before := by
  obtain ⟨sent, released⟩ := c.release_frame
  rw [released]
  exact h.steer rfl rfl rfl

theorem Within.does (h : c.Within P before) {r : Conductor × Outcome κ} (t : Tells P left c r)
    (changes : Changes c r.1) : r.1.Within P before :=
  ⟨Changes.songBlocks_eq changes ▸ h.song, by simpa only [place?, changes.task_eq] using h.place,
    h.reports.trans t.reports⟩

theorem Within.turn (h : c.Within P before) {place : Place} (waits : c.place? = some place) :
    (c.turn place).Within P before := by
  have tells := resumePlayback_tells h.song (h.place place waits)
  have after := h.does tells (c.resumePlayback_changes place)
  have there := settle_place? (c.resumePlayback place)
  cases resumed : c.resumePlayback place with
  | mk c' outcome =>
    rw [resumed] at tells after there
    rw [Conductor.turn, resumed]
    cases outcome with
    | waits seconds next =>
      refine ⟨after.song, fun place' at' => ?_, after.reports⟩
      rw [there] at at'
      cases at'
      exact tells.within seconds next rfl
    | ended | failed why => exact after.over rfl rfl there

theorem Within.proceed (h : c.Within P before) : (Scene.proceed c).Within P before := by
  cases waits : c.place? with
  | none =>
    rw [proceed_none waits]
    exact h
  | some place =>
    rw [proceed_place? waits]
    exact h.turn waits

theorem Within.start (h : c.Within P before) (begun : c.start = .ok c') :
    c'.Within P before := by
  obtain ⟨-, rfl⟩ | ⟨-, -, -, rfl⟩ := start_cases begun
  · exact h
  · refine ⟨h.song, fun place at' => ?_, h.reports⟩
    cases at'
    exact trivial

theorem Within.leave (h : c.Within P before) (place : Place) : (c.leave place).Within P before := by
  cases place with
  | beginning => exact h
  | filler => exact h.steer rfl rfl rfl
  | inBlock => exact h.release.steer rfl rfl rfl

theorem Within.interrupt (h : c.Within P before) : c.interrupt.Within P before := by
  simp only [Conductor.interrupt]
  split
  · exact (h.leave _).over rfl rfl rfl
  · exact (h.leave _).over rfl rfl rfl
  · exact h

theorem Within.collect (h : c.Within P before) : c.collect.1.Within P before := by
  have cleared : Conductor.Within P { c with task := none, running := false } before :=
    h.over rfl rfl rfl
  exact cleared.release

theorem Within.setSong (h : c.Within P before) {song : Option Song}
    (hs : ∀ s, song = some s → ∀ b ∈ s.blocks, b.Within P) (changed : c.setSong song = .ok c') :
    c'.Within P before := by
  simp only [Conductor.setSong] at changed
  split at changed <;> cases changed
  refine ⟨fun b mem => ?_, h.place, h.reports⟩
  cases song with
  | none => exact absurd mem List.not_mem_nil
  | some s => exact hs s rfl b mem

end Conductor

/-! ### Scenes -/

/-- The selectors that a direct performance can come to. -/
def Call.Within (P : String → Nat → Prop) : Call → Prop
  | selector _ => True
  | block cursor => cursor.Within P

theorem Call.keep_within {P : String → Nat → Prop} {call : Call} (h : call.Within P)
    (i : Option Instrument) : (call.keep i).Within P := by
  cases call with
  | selector hold => exact trivial
  | block cursor => exact ⟨h.todo, h.all⟩

/-- The selectors that an operation brings in. -/
def Operation.Within (P : String → Nat → Prop) : Operation → Prop
  | setSong song => ∀ s, song = some s → ∀ b ∈ s.blocks, b.Within P
  | performBlock b => b.Within P
  | performSelector selector base => P selector base
  | _ => True

namespace Scene

open Conductor

/-- Everything that a scene has logged since, and what it will come to. -/
structure Within (P : String → Nat → Prop) (before : Conductor) (s : Scene) : Prop where
  /-- The conductor and the playback task. -/
  conductor : s.conductor.Within P before
  /-- The direct performances. -/
  calls : ∀ call ∈ s.calls, call.Within P

variable {P : String → Nat → Prop} {before : Conductor} {s : Scene}

theorem Within.follow {κ : Type} {f : κ → Call} {left : κ → Prop} {r : Conductor × Outcome κ}
    {others : List Call} (h : s.Within P before) (t : Tells P left s.conductor r)
    (changes : Changes s.conductor r.1) (same : ∀ next, left next → (f next).Within P)
    (rest : ∀ call ∈ others, call.Within P) :
    (s.follow (r.map id (.map f)) others).Within P before := by
  have conductor := h.conductor.does t changes
  obtain ⟨c, outcome⟩ := r
  cases outcome with
  | waits seconds next =>
    exact ⟨conductor, List.forall_mem_cons.2 ⟨same next (t.within seconds next rfl), rest⟩⟩
  | ended => exact ⟨conductor, rest⟩
  | failed why => exact ⟨conductor, rest⟩

theorem Within.resume (h : s.Within P before) {call : Call} (coming : call.Within P)
    {others : List Call} (rest : ∀ call ∈ others, call.Within P) :
    (s.follow (call.resume s.conductor) others).Within P before := by
  cases call with
  | selector hold =>
    have tells : Tells P (fun _ => True) s.conductor (s.conductor.resumeSelector hold) :=
      ⟨.same (resumeSelector_log hold), fun _ _ _ => trivial⟩
    exact h.follow tells (resumeSelector_changes hold) (fun _ _ => trivial) rest
  | block cursor =>
    exact h.follow (resumeBlock_tells coming) (resumeBlock_changes cursor) (fun _ => id) rest

theorem Within.attempting (h : s.Within P before) {r : Except Failure Conductor}
    (kept : ∀ c, r = .ok c → c.Within P before) : (s.attempting r).Within P before := by
  cases r with
  | ok c => exact ⟨kept c rfl, h.calls⟩
  | error why => exact ⟨h.conductor, h.calls⟩

theorem Within.halt (h : s.Within P before) : s.halt.Within P before := by
  simp only [Scene.halt]
  split
  · exact ⟨h.conductor.steer rfl rfl rfl, h.calls⟩
  · exact ⟨h.conductor, h.calls⟩

theorem Within.beginPlay (h : s.Within P before) (limited : Bool) :
    (s.beginPlay limited).Within P before := by
  simp only [Scene.beginPlay]
  split
  · rename_i begun
    exact ⟨h.conductor.start begun, h.calls⟩
  · exact ⟨h.conductor, h.calls⟩

theorem Within.exchange (h : s.Within P before) (i : Instrument) :
    (s.exchange i).Within P before := by
  simp only [Scene.exchange]
  split
  · rename_i exchanged
    simp only [setInstrument] at exchanged
    split at exchanged <;> cases exchanged
    refine ⟨h.conductor.steer rfl rfl rfl, fun call mem => ?_⟩
    obtain ⟨call', mem', rfl⟩ := List.mem_map.1 mem
    exact Call.keep_within (h.calls call' mem') _
  · exact ⟨h.conductor, h.calls⟩

theorem Within.operate (h : s.Within P before) {o : Operation} (ok : o.Within P) :
    (s.operate o).Within P before := by
  cases o with
  | setSong song => exact h.attempting fun c changed => h.conductor.setSong ok changed
  | setInstrument i => exact h.exchange i
  | setTempo bpm =>
    refine h.attempting fun c set => ?_
    simp only [setTempo, checkTempo] at set
    split at set <;> cases set
    exact h.conductor.steer rfl rfl rfl
  | start => exact h.attempting fun c begun => h.conductor.start begun
  | stop => exact h.halt
  | play seconds => exact h.beginPlay _
  | playCancelled seconds after => exact h.beginPlay _
  | sleep | performBlock | performSelector => exact h

/-- **Every action** reports nothing but what is passed over, and brings in nothing else. -/
theorem step_within (s : Scene) (a : Action) (ok : ∀ o, a = .begin o → o.Within P)
    (h : s.Within P before) : (s.step a).Within P before := by
  have others (index : Nat) : ∀ call ∈ s.calls.eraseIdx index, call.Within P :=
    fun call mem => h.calls call (List.mem_of_mem_eraseIdx mem)
  cases a with
  | begin o =>
    cases o with
    | performBlock b =>
      exact h.follow (beginBlock_tells (ok _ rfl)) (beginBlock_changes b) (fun _ => id) h.calls
    | performSelector selector base =>
      have tells : Tells P (fun _ => True) s.conductor (s.conductor.beginSelector selector base) :=
        ⟨beginSelector_reports (ok _ rfl), fun _ _ _ => trivial⟩
      exact h.follow tells (beginSelector_changes selector base) (fun _ _ => trivial) h.calls
    | _ =>
      simp only [step]
      split
      · exact h.operate (ok _ rfl)
      · exact h
  | expire =>
    simp only [step]
    split
    · exact h.halt
    · exact h
  | cancel =>
    simp only [step]
    split
    · exact h.halt
    · exact ⟨h.conductor, h.calls⟩
    · exact h
  | finish =>
    simp only [step]
    split
    · exact h
    · split
      · exact h
      · exact ⟨h.conductor.collect, h.calls⟩
      · exact h.halt
  | turn =>
    simp only [step]
    split
    · exact h
    · exact ⟨h.conductor.proceed, h.calls⟩
  | interrupt =>
    simp only [step]
    split
    · exact ⟨h.conductor.interrupt, h.calls⟩
    · exact h
  | resume index =>
    simp only [step]
    split
    · rename_i call found
      exact h.resume (h.calls call (List.mem_of_getElem? found)) (others index)
    · exact h
  | drop index =>
    simp only [step]
    split
    · rename_i call found
      refine ⟨?_, others index⟩
      cases call with
      | selector hold => exact h.conductor
      | block cursor => exact h.conductor.release
    · exact h
  | pass time => exact ⟨h.conductor.steer rfl rfl rfl, h.calls⟩

/-- **Whatever happens**, nothing is reported but what was passed over. -/
theorem run_reports (h : s.Within P s.conductor) (actions : List Action)
    (ok : ∀ o, Action.begin o ∈ actions → o.Within P) :
    Reports P s.conductor (s.run actions).conductor :=
  (run_kept step_within actions ok h).conductor.reports

theorem performAll_reports {c : Conductor} (manned : c.Manned) (h : (opening c).Within P c)
    (turns : Nat) (operations : List Operation) (ok : ∀ o ∈ operations, o.Within P) :
    Reports P c (Operation.performAll turns c operations) :=
  (performAll_kept step_within
    (fun _ _ h => ⟨h.conductor, fun _ mem => absurd mem List.not_mem_nil⟩)
    turns operations manned ok h).conductor.reports

end Scene

/-! ### Unknown selectors -/

theorem Report.selector {P : String → Nat → Prop} {selector : String}
    (h : Report P (.unknownSelector selector)) :
    ∃ base, P selector base ∧ ¬ Known base selector := by
  generalize line : LogLine.unknownSelector selector = l at h
  have texts := congrArg (fun l => l.text.toList) line
  -- the warnings begin with different letters
  cases h with
  | @unknownSelector selector' base among unknown =>
    have same : selector = selector' := String.toList_inj.1 (by
      simpa [LogLine.unknownSelector, LogLine.warn, toString] using texts)
    exact ⟨base, same ▸ among, same ▸ unknown⟩
  | _ =>
    simp [LogLine.unknownSelector, LogLine.unknownCommand, LogLine.warn, toString] at texts

end ChordSequencer

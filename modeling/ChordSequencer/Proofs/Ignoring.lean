import ChordSequencer.Proofs.Unseen

/-!
# Unknown commands change nothing

A command whose code no setting has is passed over with a warning.  This file shows that the warning
is all there is to it: a song, a block or a scene that has lost its unknown commands (`Block.plain`,
`Scene.plain`) is performed as before, step by step and wait by wait, with the same output, the same
instrument and the same log otherwise.

What is taken away is not seen by a performance (`Conductor.plain_unseen`): only the beginning of a
block looks at commands (`Conductor.applyCommands_plain`), and only scenes bring in new ones.

* `Conductor.applyCommand_unknown_iff` : a command is passed over in this way just if it is unknown.
* `Scene.run_plain` : any actions, in any order.
-/

namespace ChordSequencer

open Notation Text

/-! ### Without unknown commands -/

/-- A setting has the code of the command. -/
def Command.known (command : Command) : Bool := (Setting.ofCode? command.code).isSome

/-- A block without its unknown commands. -/
def Block.plain (b : Block) : Block := { b with commands := b.commands.filter (·.known) }

/-- A song without its unknown commands. -/
def Song.plain (song : Song) : Song := ⟨song.blocks.map Block.plain⟩

/-- What is left of a pass, without unknown commands. -/
abbrev Place.plain : Place → Place := Place.map Block.plain

/-- The playback task, without unknown commands. -/
def Task.plain : Task → Task
  | ready place => .ready place.plain
  | asleep wakes place => .asleep wakes place.plain
  | finished result => .finished result

/-- A conductor that plays without unknown commands and has logged nothing about any. -/
def Conductor.plain (c : Conductor) : Conductor :=
  { c with
    song := c.song.map Song.plain
    task := c.task.map Task.plain
    log := c.log.filter (·.other) }

/-- How a stretch ends when nothing is left of unknown commands. -/
abbrev Outcome.plain : Outcome Place → Outcome Place := Outcome.map Place.plain

namespace Conductor

variable {c c' : Conductor}

/-! ### What stays -/

@[simp] theorem plain_running : c.plain.running = c.running := rfl

@[simp] theorem plain_instrument : c.plain.instrument = c.instrument := rfl

theorem plain_unseen : Unseen plain where
  catalog _ := rfl
  bpm _ := rfl
  instrument _ := rfl
  sounding _ := rfl
  stopRequested _ := rfl
  sends c t := by cases audible : c.audible <;> simp [send, plain, audible]
  counts _ := rfl
  sounds _ _ := rfl
  plays _ _ := rfl
  warns c _ other := by simp only [warn, plain, List.filter_cons_of_pos other]

/-! ### Commands -/

theorem applyCommand_plain {command : Command} (known : command.known = true) (base : Nat) :
    c.plain.applyCommand command base =
      (c.applyCommand command base).map (Prod.map plain id) := by
  refine plain_unseen.applyCommand (fun unknown => ?_) base
  rw [Command.known, unknown] at known
  cases known

theorem applyCommand_unknown {command : Command} (unknown : command.known = false) (base : Nat)
    {i : Instrument} (hi : c.instrument = some i) :
    c.applyCommand command base =
      .ok ({ c with log := .unknownCommand command :: c.log }, false) := by
  have none : Setting.ofCode? command.code = none := by simpa [Command.known] using unknown
  have warned : c.applyCommand command base =
      .ok (c.warn (LogLine.unknownCommand command).text, false) := by
    simp only [applyCommand, requireInstrument, hi, Except.bind, Setting.applyCode, none]
    rfl
  exact warned

/-- A command is passed over as unknown just if no setting has its code. -/
theorem applyCommand_unknown_iff (command : Command) (base : Nat) {i : Instrument}
    (hi : c.instrument = some i) :
    c.applyCommand command base = .ok ({ c with log := .unknownCommand command :: c.log }, false) ↔
      command.known = false := by
  refine ⟨fun passed => ?_, fun unknown => applyCommand_unknown unknown base hi⟩
  by_contra known
  simp only [applyCommand, requireInstrument, hi, Except.bind] at passed
  split at passed
  · have applied : true = false := congrArg Prod.snd (Except.ok.inj passed)
    cases applied
  · rename_i unknown
    simp [Command.known, (Setting.applyCode_unknown_iff.1 unknown).1] at known
  · -- a refusal is logged with other words
    rename_i why _
    have line := congrArg (fun r => r.toOption.bind fun r => r.1.log.head?) passed
    have other := LogLine.refusedCommand_other command why
    simp only [warn, Except.toOption, Option.bind_some, List.head?_cons, Option.some.injEq] at line
    rw [line, LogLine.unknownCommand_other] at other
    cases other
  · cases passed

theorem applyCommand_instrument {command : Command} {base : Nat} {applied : Bool}
    (h : c.applyCommand command base = .ok (c', applied)) : ∃ i, c'.instrument = some i := by
  obtain ⟨i, hi, ⟨j, -, rfl⟩ | ⟨text, rfl⟩⟩ := applyCommand_cases h
  · exact ⟨j, rfl⟩
  · exact ⟨i, hi⟩

theorem applyCommands_plain (base : Nat) (commands : List Command) :
    ∀ {c : Conductor}, (∃ i, c.instrument = some i) →
      applyCommands base c.plain (commands.filter (·.known)) =
        (applyCommands base c commands).map plain id := by
  induction commands with
  | nil => exact fun _ => rfl
  | cons command rest ih =>
    rintro c ⟨i, hi⟩
    cases known : command.known with
    | true =>
      rw [List.filter_cons_of_pos known, applyCommands, applyCommands, applyCommand_plain known]
      cases applied : c.applyCommand command base with
      | error why => rfl
      | ok r => exact ih (applyCommand_instrument applied)
    | false =>
      have unlogged : { c with log := .unknownCommand command :: c.log }.plain = c.plain := by
        simp [plain, LogLine.unknownCommand_other]
      rw [List.filter_cons_of_neg (by simp [known]), applyCommands,
        applyCommand_unknown known base hi]
      dsimp only
      rw [← unlogged]
      exact ih ⟨i, hi⟩

theorem beginBlock_plain (c : Conductor) (b : Block) :
    c.plain.beginBlock b.plain = (c.beginBlock b).map plain id :=
  plain_unseen.beginBlock (fun _ => rfl) rfl rfl fun _ there =>
    applyCommands_plain b.base b.commands there

/-! ### Playback -/

theorem songBlocks_plain (c : Conductor) : c.plain.songBlocks = c.songBlocks.map Block.plain := by
  simp only [songBlocks, plain]
  cases c.song <;> rfl

/-- **Playback goes on** alike without unknown commands. -/
theorem resumePlayback_plain (place : Place) :
    c.plain.resumePlayback place.plain = (c.resumePlayback place).map plain Outcome.plain :=
  plain_unseen.resumePlayback beginBlock_plain songBlocks_plain (fun _ => rfl) place

theorem settle_plain (r : Conductor × Outcome Place) :
    settle (r.map plain Outcome.plain) = (settle r).plain := by
  obtain ⟨c, outcome⟩ := r
  cases outcome with
  | waits seconds next =>
    simp only [Prod.map_apply, Outcome.map, settle, plain, Option.map_some]
    split <;> rfl
  | ended => rfl
  | failed why => rfl

theorem turn_plain (place : Place) : c.plain.turn place.plain = (c.turn place).plain := by
  rw [turn, turn, resumePlayback_plain, settle_plain]

theorem proceed_plain : Scene.proceed c.plain = (Scene.proceed c).plain := by
  cases task : c.task with
  | none =>
    have same : c.plain.task = none := by simp [plain, task]
    simp only [Scene.proceed, task, same]
  | some t =>
    have same : c.plain.task = some t.plain := by simp [plain, task]
    cases t with
    | ready place | asleep wakes place =>
      simp only [Scene.proceed, task, same, Task.plain]
      exact turn_plain place
    | finished result => simp only [Scene.proceed, task, same, Task.plain]

theorem start_plain : c.plain.start = c.start.map plain := by
  simp only [start]
  rw [plain_running, plain_instrument,
    show c.plain.song.isNone = c.song.isNone by simp [plain]]
  split
  · rfl
  · split
    · rfl
    · split <;> rfl

theorem leave_plain (place : Place) : c.plain.leave place.plain = (c.leave place).plain := by
  cases place with
  | beginning => rfl
  | filler => rfl
  | inBlock left before cursor =>
    simp only [leave, Place.plain, Place.map, plain_unseen.release]
    rfl

theorem interrupt_plain : c.plain.interrupt = c.interrupt.plain := by
  cases task : c.task with
  | none =>
    have same : c.plain.task = none := by simp [plain, task]
    simp only [interrupt, task, same]
  | some t =>
    have same : c.plain.task = some t.plain := by simp [plain, task]
    cases t with
    | ready place | asleep wakes place =>
      simp only [interrupt, task, same, Task.plain, leave_plain]
      rfl
    | finished result => simp only [interrupt, task, same, Task.plain]

theorem collect_plain : c.plain.collect = c.collect.map plain id := by
  have cleared : { c.plain with task := none, running := false } =
      { c with task := none, running := false }.plain := rfl
  simp only [collect, cleared, plain_unseen.release, Prod.map_apply, id_eq]
  cases task : c.task with
  | none => simp [plain, task]
  | some t => cases t <;> simp [plain, task, Task.plain]

end Conductor

/-! ### Scenes -/

/-- An operation that brings in no unknown commands. -/
def Operation.plain : Operation → Operation
  | setSong song => .setSong (song.map Song.plain)
  | performBlock b => .performBlock b.plain
  | o => o

/-- An action that brings in no unknown commands. -/
def Action.plain : Action → Action
  | begin o => .begin o.plain
  | a => a

namespace Scene

open Conductor

/-- A scene without unknown commands. -/
def plain (s : Scene) : Scene := { s with conductor := s.conductor.plain }

variable {s : Scene}

@[simp] theorem plain_conductor : s.plain.conductor = s.conductor.plain := rfl

@[simp] theorem plain_control : s.plain.control = s.control := rfl

@[simp] theorem plain_calls : s.plain.calls = s.calls := rfl

theorem follow_plain {κ : Type} {f : κ → Call} (r : Conductor × Outcome κ) (others : List Call) :
    s.plain.follow ((r.map Conductor.plain id).map id (.map f)) others =
      (s.follow (r.map id (.map f)) others).plain := by
  obtain ⟨c, outcome⟩ := r
  cases outcome <;> rfl

theorem resume_plain (call : Call) (others : List Call) :
    s.plain.follow (call.resume s.plain.conductor) others =
      (s.follow (call.resume s.conductor) others).plain := by
  cases call with
  | selector hold =>
    simp only [Call.resume, plain, plain_unseen.resumeSelector]
    exact follow_plain _ _
  | block cursor =>
    simp only [Call.resume, plain, plain_unseen.resumeBlock]
    exact follow_plain _ _

theorem attempting_plain (r : Except Failure Conductor) :
    s.plain.attempting (r.map Conductor.plain) = (s.attempting r).plain := by
  cases r <;> rfl

theorem halt_plain : s.plain.halt = s.halt.plain := by
  simp only [halt]
  rw [show s.plain.conductor.task.isSome = s.conductor.task.isSome by
    simp [plain, Conductor.plain]]
  split <;> rfl

theorem beginPlay_plain (limited : Bool) :
    s.plain.beginPlay limited = (s.beginPlay limited).plain := by
  simp only [beginPlay, plain, start_plain]
  cases s.conductor.start <;> rfl

theorem exchange_plain (i : Instrument) : s.plain.exchange i = (s.exchange i).plain := by
  simp only [exchange, setInstrument]
  rw [plain_conductor, plain_running]
  cases s.conductor.running <;> rfl

theorem operate_plain (o : Operation) : s.plain.operate o.plain = (s.operate o).plain := by
  cases o with
  | setSong song =>
    refine (congrArg s.plain.attempting ?_).trans (attempting_plain _)
    simp only [setSong]
    rw [plain_conductor, plain_running]
    cases s.conductor.running <;> rfl
  | setInstrument i => exact exchange_plain i
  | setTempo bpm =>
    refine (congrArg s.plain.attempting ?_).trans (attempting_plain _)
    simp only [setTempo]
    cases checkTempo bpm <;> rfl
  | start => exact (congrArg s.plain.attempting start_plain).trans (attempting_plain _)
  | stop => exact halt_plain
  | play seconds => exact beginPlay_plain _
  | playCancelled seconds after => exact beginPlay_plain _
  | sleep | performBlock | performSelector => rfl

theorem alive_plain : s.plain.alive = s.alive := by
  simp only [alive, plain, Conductor.plain]
  cases s.conductor.task with
  | none => rfl
  | some t => cases t <;> rfl

/-- **One action** does the same without unknown commands, but for the warnings about them. -/
theorem step_plain (a : Action) : s.plain.step a.plain = (s.step a).plain := by
  cases a with
  | begin o =>
    have operated := operate_plain (s := s) o
    cases o with
    | performBlock b =>
      simp only [Action.plain, Operation.plain, step]
      rw [plain_conductor, beginBlock_plain]
      exact follow_plain _ _
    | performSelector selector base =>
      simp only [Action.plain, Operation.plain, step]
      rw [plain_conductor, plain_unseen.beginSelector]
      exact follow_plain _ _
    | _ =>
      simp only [Action.plain, Operation.plain, step]
      rw [plain_control]
      split
      · exact operated
      · rfl
  | expire =>
    simp only [Action.plain, step]
    rw [plain_control]
    split
    · exact halt_plain
    · rfl
  | cancel =>
    simp only [Action.plain, step]
    rw [plain_control]
    split
    · exact halt_plain
    · rfl
    · rfl
  | finish =>
    simp only [Action.plain, step]
    rw [alive_plain, plain_control]
    split
    · rfl
    · split
      · rfl
      · rw [plain_conductor, collect_plain]
        rfl
      · exact halt_plain
  | turn =>
    simp only [Action.plain, step]
    rw [plain_control,
      plain_conductor, proceed_plain]
    split <;> rfl
  | interrupt =>
    simp only [Action.plain, step]
    rw [plain_control,
      plain_conductor, interrupt_plain]
    split <;> rfl
  | resume index =>
    simp only [Action.plain, step]
    rw [plain_calls]
    split
    · exact resume_plain _ _
    · rfl
  | drop index =>
    simp only [Action.plain, step]
    rw [plain_calls]
    split
    · rename_i call _
      cases call with
      | selector hold => rfl
      | block cursor =>
        simp only [Call.drop]
        rw [plain_conductor, plain_unseen.release]
        rfl
    · rfl
  | pass time => rfl

/-- **Any actions** do the same without unknown commands, but for the warnings about them. -/
theorem run_plain (actions : List Action) :
    ∀ s : Scene, s.plain.run (actions.map Action.plain) = (s.run actions).plain := by
  induction actions with
  | nil => exact fun _ => rfl
  | cons a actions ih =>
    intro s
    rw [List.map_cons, run, List.foldl_cons, step_plain]
    exact ih _

end Scene

end ChordSequencer
